import KingPi.Theory.Lifespan

/-!
# The Readiness Probe

A load balancer decides by `/health/ready` whether to send requests to a
worker, so what it answers has to be what was found. PostgreSQL the server
cannot do without; Redis it can, since the cache then only misses.

The probe asks each of the two once, whatever came of the other. A probe that
raises, or takes too long, or has nothing to ask because the worker stops
while the request is at its getters, reads as `down`. Only a cancellation
passes through both checks.

Before it asks, the request needs the two objects to ask through. A worker that
has not started, or has stopped, does not have them, and then the getter raises
and the answer is a 500 instead of a report.

## Main definitions

* `checked`: What the `except` clause makes of a probe.
* `ReadyWord`: The records of a readiness request.
* `Equipped`: Both dependencies were there when their getters looked.
* `Reports`: What the answer says about the calls.

## Theorems

* `records_healthReady`: What a readiness request records.
* `ready_word`: The records of every readiness request that was answered.
* `reports_checks`: The report of a request whose checks are both over.
* `ready_reports`: The answer is what the probes found.
-/

namespace KingPi

open Async Prog

/-- What the `except` clause makes of a probe. -/
def checked : Except AppExc Unit → Except AppExc CheckStatus
  | .ok _ => .ok .up
  | .error exc => if exc.isException then .ok .down else .error exc

/-- The calls of `_check_db`. -/
def dbMarks (i : Nat) (factory : Option SessionFactory) (select close : Except AppExc Unit) :
    List Mark :=
  match factory with
  | none => []
  | some factory => [.called i (.selectOne factory) select, .called i (.closeSession factory) close]

/-- The result of `_check_db`. -/
def dbResult (factory : Option SessionFactory) (select close : Except AppExc Unit) :
    Except AppExc CheckStatus :=
  match factory with
  | none => .ok .down
  | some _ => checked (lastly select close)

/-- The calls of `_check_redis`. -/
def redisMarks (i : Nat) (redis : Option Handle) (ping : Except AppExc Unit) : List Mark :=
  match redis with
  | none => []
  | some redis => [.called i (.ping redis) ping]

/-- The result of `_check_redis`. -/
def redisResult (redis : Option Handle) (ping : Except AppExc Unit) : Except AppExc CheckStatus :=
  match redis with
  | none => .ok .down
  | some _ => checked ping

/-- The two accesses of a getter that finds its global set. -/
def getMarks (i worker : Nat) (s : Slot) (value : s.Object) (result : Option s.Object) :
    List Mark :=
  [.called i (.load worker s) (.ok (some value)), .called i (.load worker s) (.ok result)]

/-- The records of a readiness request, by what it is answered. -/
inductive ReadyWord (i worker : Nat) : Except AppExc AppAnswer → List Mark → Prop where
  | noFactory : ReadyWord i worker (.ok .internalServerError)
      [.called i (.load worker .sessionFactory) (.ok none)]
  | noRedis (f : SessionFactory) (factory : Option SessionFactory) :
      ReadyWord i worker (.ok .internalServerError)
        (getMarks i worker .sessionFactory f factory ++
          [.called i (.load worker .redisClient) (.ok none)])
  | database (f : SessionFactory) (factory : Option SessionFactory) (h : Handle)
      (redis : Option Handle) (select close : Except AppExc Unit) (exc : AppExc) :
      dbResult factory select close = .error exc →
      ReadyWord i worker (.error exc) (getMarks i worker .sessionFactory f factory ++
        getMarks i worker .redisClient h redis ++ dbMarks i factory select close)
  | checks (f : SessionFactory) (factory : Option SessionFactory) (h : Handle)
      (redis : Option Handle) (select close ping : Except AppExc Unit) (database : CheckStatus)
      (result : Except AppExc CheckStatus) :
      dbResult factory select close = .ok database → redisResult redis ping = result →
      ReadyWord i worker (result.map (fun r => .ready (readyResponse database r)))
        (getMarks i worker .sessionFactory f factory ++
          getMarks i worker .redisClient h redis ++ dbMarks i factory select close ++
          redisMarks i redis ping)

section Words

variable (i worker : Nat)

/-- What a coroutine has recorded when it is over. -/
def Ends {α : Type} (Post : Except AppExc α → List Mark → Prop) (o : Option (Except AppExc α))
    (l : List Mark) : Prop :=
  ∀ r, o = some r → Post r l

theorem ends_none {α : Type} (Post : Except AppExc α → List Mark → Prop) (l : List Mark) :
    Ends Post none l := fun _ hr => nomatch hr

theorem ends_some {α : Type} {Post : Except AppExc α → List Mark → Prop} {r : Except AppExc α}
    {l : List Mark} (h : Post r l) : Ends Post (some r) l := by
  intro r' hr
  cases hr
  exact h

/-- A getter: its global is not set, or was at the first of its accesses. -/
theorem records_getDependency (s : Slot) (name : Str) (l : List Mark) :
    Records (Call.Notes i) (Ends fun r l' =>
      (∃ exc, r = .error exc ∧ exc.isException = true ∧
        l' = l ++ [.called i (.load worker s) (.ok none)]) ∨
      ∃ value result, r = .ok result ∧ l' = l ++ getMarks i worker s value result)
      (getDependency worker s name) l := by
  refine records_bind _ _ l (records_call (Call.load worker s) l (ends_none _ _) ?_)
  rintro r l' ⟨rfl, value, rfl⟩
  cases value with
  | none => exact ends_some (Or.inl ⟨_, rfl, rfl, rfl⟩)
  | some value =>
      -- The getter reads its global again to return it, and may find another.
      refine records_call (Call.load worker s) _ (ends_none _ _) ?_
      rintro r l' ⟨rfl, result, rfl⟩
      refine ends_some (Or.inr ⟨value, result, rfl, ?_⟩)
      rw [List.append_assoc]
      rfl

/-- A check is down unless its probe has gone through. -/
theorem records_orDown (check : App Unit) (l : List Mark)
    (Post : Except AppExc CheckStatus → List Mark → Prop)
    (h : Records (Call.Notes i) (Ends fun r l' => Post (checked r) l') check l) :
    Records (Call.Notes i) (Ends Post) (orDown check) l := by
  refine records_tryCatch _ _ l (records_bind _ _ l (records_mono (fun o l' h => ?_) _ l h))
  cases o with
  | none => exact ends_none _ _
  | some r =>
      have hr := h r rfl
      cases r with
      | ok u => exact ends_some hr
      | error exc =>
          -- `except Exception` catches everything but a cancellation.
          simp only [checked] at hr
          split at hr
          · rename_i hexc
            simp only [hexc, if_true]
            exact ends_some hr
          · rename_i hexc
            simp only [hexc, if_false, Bool.false_eq_true]
            exact ends_some hr

/-- One call that needs nothing of its answer. -/
theorem records_probe (c : Call) (Post : Except AppExc c.Reply → List Mark → Prop) (l : List Mark)
    (h : ∀ r, Post r (l ++ [.called i c r])) :
    Records (Call.Notes i) (Ends Post) (call c) l := by
  refine records_call c l (ends_none _ _) ?_
  rintro r l' ⟨rfl, _⟩
  exact ends_some (h r)

theorem records_checkDb (factory : Option SessionFactory) (l : List Mark) :
    Records (Call.Notes i) (Ends fun r l' => ∃ select close, r = dbResult factory select close ∧
      l' = l ++ dbMarks i factory select close) (checkDb factory) l := by
  refine records_orDown i _ l _ ?_
  cases factory with
  | none => exact ends_some ⟨.ok (), .ok (), rfl, (List.append_nil l).symm⟩
  | some factory =>
      refine records_tryFinally _ _ l ?_
      refine records_mono (fun o l' h => ?_) _ l (records_probe i (.selectOne factory)
        (fun r l' => l' = l ++ [.called i (.selectOne factory) r]) l (fun _ => rfl))
      cases o with
      | none => exact ends_none _ _
      | some select =>
          -- `async with` closes the session whatever came of the probe.
          rw [h select rfl]
          refine records_mono (fun o l' h => ?_) _ _ (records_probe i (.closeSession factory)
            (fun r l' => l' = l ++ [.called i (.selectOne factory) select]
              ++ [.called i (.closeSession factory) r]) _ (fun _ => rfl))
          cases o with
          | none => exact ends_none _ _
          | some close =>
              refine ends_some ⟨select, close, rfl, ?_⟩
              rw [h close rfl, List.append_assoc]
              rfl

theorem records_checkRedis (redis : Option Handle) (l : List Mark) :
    Records (Call.Notes i) (Ends fun r l' => ∃ ping, r = redisResult redis ping ∧
      l' = l ++ redisMarks i redis ping) (checkRedis redis) l := by
  refine records_orDown i _ l _ ?_
  cases redis with
  | none => exact ends_some ⟨.ok (), rfl, (List.append_nil l).symm⟩
  | some redis => exact records_probe i (.ping redis) _ l (fun r => ⟨r, rfl, rfl⟩)

/-- After a coroutine that ends in one of several ways, the next one. -/
theorem records_next {α β : Type} (p : App α) (f : α → App β)
    (Mid : Except AppExc α → List Mark → Prop) (Post : Except AppExc β → List Mark → Prop)
    (l : List Mark) (hp : Records (Call.Notes i) (Ends Mid) p l)
    (herror : ∀ exc l', Mid (.error exc) l' → Post (.error exc) l')
    (hok : ∀ a l', Mid (.ok a) l' → Records (Call.Notes i) (Ends Post) (f a) l') :
    Records (Call.Notes i) (Ends Post) (p.bind f) l := by
  refine records_bind p f l (records_mono (fun o l' h => ?_) p l hp)
  cases o with
  | none => exact ends_none _ _
  | some r =>
      cases r with
      | ok a => exact hok a l' (h _ rfl)
      | error exc => exact ends_some (herror exc l' (h _ rfl))

/-- A cancellation is all that gets out of a check. -/
theorem checked_error (r : Except AppExc Unit) (exc : AppExc) (h : checked r = .error exc) :
    exc.isException = false := by
  cases r with
  | ok u => exact absurd h (by simp only [checked, reduceCtorEq, not_false_eq_true])
  | error exc' =>
      simp only [checked] at h
      split at h
      · exact absurd h (by simp only [reduceCtorEq, not_false_eq_true])
      · rename_i hexc
        cases h
        exact Bool.eq_false_iff.mpr hexc

/-- What the framework makes of an outcome. -/
def responded : Except AppExc AppAnswer → Except AppExc AppAnswer
  | .ok a => .ok a
  | .error exc => if exc.isException then .ok .internalServerError else .error exc

theorem records_respond (route : App AppAnswer) (l : List Mark)
    (Post : Except AppExc AppAnswer → List Mark → Prop)
    (h : Records (Call.Notes i) (Ends fun r l' => Post (responded r) l') route l) :
    Records (Call.Notes i) (Ends Post) (respond route) l := by
  refine records_tryCatch _ _ l (records_mono (fun o l' h => ?_) _ l h)
  cases o with
  | none => exact ends_none _ _
  | some r =>
      have hr := h r rfl
      cases r with
      | ok a => exact ends_some hr
      | error exc =>
          simp only [responded] at hr
          split at hr
          · rename_i hexc
            simp only [hexc, if_true]
            exact ends_some hr
          · rename_i hexc
            simp only [hexc, if_false, Bool.false_eq_true]
            exact ends_some hr

/-- An outcome of `health_ready`, with the records before it. -/
def ReadyEnd (r : Except AppExc ReadyResponse) (l : List Mark) : Prop :=
  match r with
  | .ok response => ReadyWord i worker (.ok (.ready response)) l
  | .error exc => ReadyWord i worker (responded (.error exc)) l

theorem responded_cancelled (exc : AppExc) (h : exc.isException = false) :
    responded (.error exc) = .error exc := by
  simp only [responded, h, Bool.false_eq_true, if_false]

theorem responded_exception (exc : AppExc) (h : exc.isException = true) :
    responded (.error exc) = .ok .internalServerError := by
  simp only [responded, h, if_true]

/-- The two checks, of which the second does not depend on the first. -/
theorem records_checks (f : SessionFactory) (factory : Option SessionFactory) (hd : Handle)
    (redis : Option Handle) :
    Records (Call.Notes i) (Ends (ReadyEnd i worker))
      ((checkDb factory).bind fun database => (checkRedis redis).bind fun result =>
        ret (readyResponse database result))
      (getMarks i worker .sessionFactory f factory ++ getMarks i worker .redisClient hd redis) := by
  refine records_next i _ _ _ _ _ (records_checkDb i factory _) (fun exc l' h => ?_)
    (fun database l' h => ?_)
  · rcases h with ⟨select, close, heq, rfl⟩
    -- Whatever gets out of the first check ends the request before the second.
    have hexc : exc.isException = false := by
      cases factory with
      | none => cases heq
      | some factory => exact checked_error (lastly select close) exc heq.symm
    rw [ReadyEnd, responded_cancelled exc hexc]
    exact ReadyWord.database f factory hd redis select close exc heq.symm
  · rcases h with ⟨select, close, hdb, rfl⟩
    refine records_next i _ _ _ _ _ (records_checkRedis i redis _) (fun exc l' h => ?_)
      (fun result l' h => ?_)
    -- The second check is made on whatever the first has found.
    · rcases h with ⟨ping, heq, rfl⟩
      have hexc : exc.isException = false := by
        cases redis with
        | none => cases heq
        | some redis => exact checked_error ping exc heq.symm
      rw [ReadyEnd, responded_cancelled exc hexc]
      exact ReadyWord.checks f factory hd redis select close ping database _ hdb.symm heq.symm
    · rcases h with ⟨ping, heq, rfl⟩
      exact ends_some
        (ReadyWord.checks f factory hd redis select close ping database _ hdb.symm heq.symm)

/-- What a readiness request records, from its first access to its answer. -/
theorem records_healthReady (dep : Deployment) :
    Records (Call.Notes i) (Ends (ReadyWord i worker)) ((AppRequest.healthReady worker).body dep)
      [] := by
  refine records_respond i _ [] _ ?_
  refine records_next i _ _ (ReadyEnd i worker) _ [] ?_ (fun _ _ h => h)
    (fun response l' h => ends_some h)
  -- The word grows by a getter at a time, and ends early where one of them raises.
  refine records_next i _ _ _ _ [] (records_getDependency i worker .sessionFactory _ [])
    (fun exc l' h => ?_) (fun factory l' h => ?_)
  · rcases h with ⟨exc', heq, hexc, rfl⟩ | ⟨_, _, heq, _⟩
    · cases heq
      rw [ReadyEnd, responded_exception _ hexc]
      exact ReadyWord.noFactory
    · cases heq
  · rcases h with ⟨_, heq, _⟩ | ⟨f, _, heq, rfl⟩
    · cases heq
    · cases heq
      refine records_next i _ _ _ _ _ (records_getDependency i worker .redisClient _ _)
        (fun exc l' h => ?_) (fun redis l' h => ?_)
      · rcases h with ⟨exc', heq, hexc, rfl⟩ | ⟨_, _, heq, _⟩
        · cases heq
          rw [ReadyEnd, responded_exception _ hexc]
          exact ReadyWord.noRedis f factory
        · cases heq
      · rcases h with ⟨_, heq, _⟩ | ⟨hd, _, heq, rfl⟩
        · cases heq
        · cases heq
          exact records_checks i worker f factory hd redis

end Words

section Answers

variable (dep : Deployment)

/-- What a request records, as far as it is about readiness. -/
def ReadyPost (i : Nat) (q : AppRequest) (o : Option (Except AppExc AppAnswer)) (l : List Mark) :
    Prop :=
  match q with
  | .healthReady worker => Ends (ReadyWord i worker) o l
  | _ => True

/-- The records of every readiness request that was answered. -/
theorem ready_word (c : AppState) (hc : AppReachable dep c) (i worker : Nat)
    (r : Except AppExc AppAnswer) (h : c.task i = some (.answered (.healthReady worker) r)) :
    ∃ l, marksOf i c.shared.log = .started i (.healthReady worker) :: l ++
      [.answered i (.healthReady worker) r] ∧ ReadyWord i worker r l := by
  -- The other requests may record what they like.
  have hbody : ∀ i q, Records (Call.Notes i) (ReadyPost i q) (q.body dep) [] := by
    intro i q
    cases q with
    | healthReady worker => exact records_healthReady i worker dep
    | _ => exact records_true _ _
  have hkept := (appLog dep).sound ReadyPost hbody idle rfl c hc i
  rw [h] at hkept
  rcases hkept with ⟨l, p, hl, hout, hrecords⟩
  refine ⟨l, hl, ?_⟩
  exact records_post p l hrecords r hout

/-- A call of a readiness request is a letter of its word. -/
theorem mem_word (c : AppState) (i worker : Nat) (r : Except AppExc AppAnswer) (l : List Mark)
    (hl : marksOf i c.shared.log = .started i (.healthReady worker) :: l ++
      [.answered i (.healthReady worker) r]) (e : Call) (a : Except AppExc e.Reply) :
    Mark.called i e a ∈ c.shared.log ↔ Mark.called i e a ∈ l := by
  have hown : Mark.called i e a ∈ c.shared.log ↔ Mark.called i e a ∈ marksOf i c.shared.log :=
    ⟨fun h => List.mem_filter.mpr ⟨h, beq_self_eq_true i⟩, List.mem_of_mem_filter⟩
  rw [hown, hl]
  -- The start and the answer are records of the request, but no calls.
  refine ⟨fun h => ?_, fun h => List.mem_append_left _ (List.mem_cons_of_mem _ h)⟩
  rcases List.mem_append.mp h with h | h
  · rcases List.mem_cons.mp h with h | h
    · cases h
    · exact h
  · cases List.mem_singleton.mp h

variable {i worker : Nat}

theorem mem_getMarks (s : Slot) (value : s.Object) (result : Option s.Object) (x : Mark)
    (h : x ∈ getMarks i worker s value result) : ∃ a, x = .called i (.load worker s) (.ok a) := by
  rcases List.mem_cons.mp h with rfl | h
  · exact ⟨_, rfl⟩
  · exact ⟨_, List.mem_singleton.mp h⟩

theorem mem_dbMarks (factory : Option SessionFactory) (select close : Except AppExc Unit)
    (x : Mark) : x ∈ dbMarks i factory select close ↔ ∃ f, factory = some f ∧
      (x = .called i (.selectOne f) select ∨ x = .called i (.closeSession f) close) := by
  cases factory with
  | none => exact ⟨fun h => absurd h List.not_mem_nil, fun ⟨f, hf, _⟩ => nomatch hf⟩
  | some factory =>
      rw [dbMarks, List.mem_cons, List.mem_singleton]
      exact ⟨fun h => ⟨factory, rfl, h⟩, fun ⟨f, hf, h⟩ => by
        cases hf
        exact h⟩

theorem mem_redisMarks (redis : Option Handle) (ping : Except AppExc Unit) (x : Mark) :
    x ∈ redisMarks i redis ping ↔ ∃ h, redis = some h ∧ x = .called i (.ping h) ping := by
  cases redis with
  | none => exact ⟨fun h => absurd h List.not_mem_nil, fun ⟨f, hf, _⟩ => nomatch hf⟩
  | some redis =>
      rw [redisMarks, List.mem_singleton]
      exact ⟨fun h => ⟨redis, rfl, h⟩, fun ⟨f, hf, h⟩ => by
        cases hf
        exact h⟩

theorem checked_up (r : Except AppExc Unit) : checked r = .ok .up ↔ r = .ok () := by
  cases r with
  | ok u => exact ⟨fun _ => rfl, fun _ => rfl⟩
  | error exc =>
      refine ⟨fun h => ?_, fun h => nomatch h⟩
      simp only [checked] at h
      split at h
      · cases h
      · cases h

theorem lastly_ok (r : Except AppExc Unit) (r' : Except AppExc Unit) :
    lastly r r' = .ok () ↔ r = .ok () ∧ r' = .ok () := by
  cases r' with
  | ok u => exact ⟨fun h => ⟨h, rfl⟩, fun h => h.1⟩
  | error exc => exact ⟨(fun h => nomatch h), (fun h => nomatch h.2)⟩

theorem dbResult_up (factory : Option SessionFactory) (select close : Except AppExc Unit) :
    dbResult factory select close = .ok .up ↔
      (∃ f, factory = some f) ∧ select = .ok () ∧ close = .ok () := by
  cases factory with
  | none => exact ⟨(fun h => nomatch h), (fun ⟨⟨f, hf⟩, _⟩ => nomatch hf)⟩
  | some f =>
      rw [dbResult, checked_up, lastly_ok]
      exact ⟨fun h => ⟨⟨f, rfl⟩, h⟩, fun h => h.2⟩

theorem redisResult_up (redis : Option Handle) (ping : Except AppExc Unit) :
    redisResult redis ping = .ok .up ↔ (∃ h, redis = some h) ∧ ping = .ok () := by
  cases redis with
  | none => exact ⟨(fun h => nomatch h), (fun ⟨⟨f, hf⟩, _⟩ => nomatch hf)⟩
  | some h =>
      rw [redisResult, checked_up]
      exact ⟨fun hp => ⟨⟨h, rfl⟩, hp⟩, fun hp => hp.2⟩

/-- The response follows the two checks: PostgreSQL decides the status code, and
    Redis between `healthy` and `degraded`. -/
theorem readyResponse_eq (database redis : CheckStatus) :
    readyResponse database redis = match database, redis with
      | .up, .up => ⟨200, .healthy, .up, .up⟩
      | .up, .down => ⟨200, .degraded, .up, .down⟩
      | .down, redis => ⟨503, .unhealthy, .down, redis⟩ := by
  cases database with
  | up =>
      cases redis with
      | up => rfl
      | down => rfl
  | down =>
      cases redis with
      | up => rfl
      | down => rfl

/-- Both dependencies were there when their getters looked. -/
def Equipped (log : List Mark) (i worker : Nat) : Prop :=
  (∃ f, .called i (.load worker .sessionFactory) (.ok (some f)) ∈ log) ∧
    ∃ h, .called i (.load worker .redisClient) (.ok (some h)) ∈ log

/-- What the answer to a readiness request says about the calls made for it. -/
def Reports (log : List Mark) (i worker : Nat) : Except AppExc AppAnswer → Prop
  | .ok (.ready response) => Equipped log i worker ∧
    (response.database = .up ↔ ∃ f, .called i (.selectOne f) (.ok ()) ∈ log ∧
      .called i (.closeSession f) (.ok ()) ∈ log) ∧
    (response.redis = .up ↔ ∃ h, .called i (.ping h) (.ok ()) ∈ log) ∧
    -- A probe is left out only when its global is cleared under the getter.
    ((∃ f a, .called i (.selectOne f) a ∈ log) ∨
      .called i (.load worker .sessionFactory) (.ok none) ∈ log) ∧
    ((∃ h a, .called i (.ping h) a ∈ log) ∨
      .called i (.load worker .redisClient) (.ok none) ∈ log) ∧
    (response.statusCode, response.status) = match response.database, response.redis with
      | .up, .up => (200, .healthy)
      | .up, .down => (200, .degraded)
      | .down, _ => (503, .unhealthy)
  | .ok .internalServerError => ¬ Equipped log i worker ∧
    (∃ s, .called i (.load worker s) (.ok none) ∈ log) ∧
    ∀ f h a, .called i (.selectOne f) a ∉ log ∧ .called i (.ping h) a ∉ log
  | .error exc => Equipped log i worker ∧ exc = .cancelledError ∧
    ((∃ f, .called i (.selectOne f) (.error exc) ∈ log ∨
      .called i (.closeSession f) (.error exc) ∈ log) ∨ ∃ h, .called i (.ping h) (.error exc) ∈ log)
  | _ => False

theorem checked_cancelled (r : Except AppExc Unit) (exc : AppExc) (h : checked r = .error exc) :
    exc = .cancelledError ∧ r = .error .cancelledError := by
  cases r with
  | ok u => cases h
  | error exc' =>
      simp only [checked] at h
      split at h
      · cases h
      · rename_i hexc
        cases h
        cases exc with
        | cancelledError => exact ⟨rfl, rfl⟩
        | _ => exact absurd rfl hexc

theorem lastly_error (r r' : Except AppExc Unit) (exc : AppExc) (h : lastly r r' = .error exc) :
    r = .error exc ∨ r' = .error exc := by
  cases r' with
  | ok u => exact Or.inl h
  | error exc' => exact Or.inr h

/-- No getter makes a call of another kind. -/
theorem not_mem_gets (f : SessionFactory) (factory : Option SessionFactory) (h : Handle)
    (redis : Option Handle) (e : Call) (a : Except AppExc e.Reply)
    (he : ∀ s, e ≠ .load worker s) :
    Mark.called i e a ∉ getMarks i worker .sessionFactory f factory ++
      getMarks i worker .redisClient h redis := by
  intro hmem
  -- The records of a getter are accesses to its global.
  rcases List.mem_append.mp hmem with hmem | hmem
  · rcases mem_getMarks _ _ _ _ hmem with ⟨_, heq⟩
    exact he _ (Mark.called.inj heq).2.1
  · rcases mem_getMarks _ _ _ _ hmem with ⟨_, heq⟩
    exact he _ (Mark.called.inj heq).2.1

section Letters

variable (f : SessionFactory) (factory : Option SessionFactory) (h : Handle)
variable (redis : Option Handle) (select close ping : Except AppExc Unit)

variable (i worker) in
/-- The word of a request that has made both checks. -/
def checkWord : List Mark :=
  getMarks i worker .sessionFactory f factory ++ getMarks i worker .redisClient h redis ++
    dbMarks i factory select close ++ redisMarks i redis ping

theorem checkWord_cases (e : Call) (a : Except AppExc e.Reply) (he : ∀ s, e ≠ .load worker s)
    (hmem : Mark.called i e a ∈ checkWord i worker f factory h redis select close ping) :
    (∃ f', factory = some f' ∧ (Mark.called i e a = .called i (.selectOne f') select ∨
      Mark.called i e a = .called i (.closeSession f') close)) ∨
      ∃ h', redis = some h' ∧ Mark.called i e a = .called i (.ping h') ping := by
  rcases List.mem_append.mp hmem with hmem | hmem
  · rcases List.mem_append.mp hmem with hmem | hmem
    · exact absurd hmem (not_mem_gets f factory h redis e a he)
    · exact Or.inl ((mem_dbMarks _ _ _ _).mp hmem)
  · exact Or.inr ((mem_redisMarks _ _ _).mp hmem)

theorem mem_select (f' : SessionFactory) (a : Except AppExc Unit) :
    Mark.called i (.selectOne f') a ∈ checkWord i worker f factory h redis select close ping ↔
      factory = some f' ∧ a = select := by
  refine ⟨fun hmem => ?_, fun ⟨hf, ha⟩ => ?_⟩
  · rcases checkWord_cases _ _ _ _ _ _ _ (.selectOne f') a (fun s hs => nomatch hs) hmem with
      ⟨f', hf, heq | heq⟩ | ⟨_, _, heq⟩
    · cases heq
      exact ⟨hf, rfl⟩
    · cases heq
    · cases heq
  · rw [ha]
    exact List.mem_append_left _ (List.mem_append_right _ ((mem_dbMarks _ _ _ _).mpr
      ⟨f', hf, Or.inl rfl⟩))

theorem mem_close (f' : SessionFactory) (a : Except AppExc Unit) :
    Mark.called i (.closeSession f') a ∈ checkWord i worker f factory h redis select close ping ↔
      factory = some f' ∧ a = close := by
  refine ⟨fun hmem => ?_, fun ⟨hf, ha⟩ => ?_⟩
  · rcases checkWord_cases _ _ _ _ _ _ _ (.closeSession f') a (fun s hs => nomatch hs) hmem with
      ⟨f', hf, heq | heq⟩ | ⟨_, _, heq⟩
    · cases heq
    · cases heq
      exact ⟨hf, rfl⟩
    · cases heq
  · rw [ha]
    exact List.mem_append_left _ (List.mem_append_right _ ((mem_dbMarks _ _ _ _).mpr
      ⟨f', hf, Or.inr rfl⟩))

theorem mem_ping (h' : Handle) (a : Except AppExc Unit) :
    Mark.called i (.ping h') a ∈ checkWord i worker f factory h redis select close ping ↔
      redis = some h' ∧ a = ping := by
  refine ⟨fun hmem => ?_, fun ⟨hr, ha⟩ => ?_⟩
  · rcases checkWord_cases _ _ _ _ _ _ _ (.ping h') a (fun s hs => nomatch hs) hmem with
      ⟨f', hf, heq | heq⟩ | ⟨_, hr, heq⟩
    · cases heq
    · cases heq
    · cases heq
      exact ⟨hr, rfl⟩
  · rw [ha]
    exact List.mem_append_right _ ((mem_redisMarks _ _ _).mpr ⟨h', hr, rfl⟩)

end Letters

section Cases

variable {log l : List Mark}
variable (hmem : ∀ (e : Call) (a : Except AppExc e.Reply),
  Mark.called i e a ∈ log ↔ Mark.called i e a ∈ l)

include hmem

/-- Getters that have gone through have found what they looked for. -/
theorem equipped_gets (f : SessionFactory) (factory : Option SessionFactory) (h : Handle)
    (redis : Option Handle) (hsub : getMarks i worker .sessionFactory f factory ++
      getMarks i worker .redisClient h redis ⊆ l) : Equipped log i worker :=
  ⟨⟨f, (hmem _ _).mpr (hsub (List.mem_append_left _ List.mem_cons_self))⟩,
    ⟨h, (hmem _ _).mpr (hsub (List.mem_append_right _ List.mem_cons_self))⟩⟩

/-- No session factory: the first access is the last call. -/
theorem reports_noFactory (hl : l = [.called i (.load worker .sessionFactory) (.ok none)]) :
    Reports log i worker (.ok .internalServerError) := by
  -- That access is the whole word, so there is neither an object nor a probe.
  have honly : ∀ (e : Call) (a : Except AppExc e.Reply), Mark.called i e a ∈ log →
      Mark.called i e a = .called i (.load worker .sessionFactory) (.ok none) := by
    intro e a hx
    rw [hmem, hl] at hx
    exact List.mem_singleton.mp hx
  refine ⟨fun ⟨⟨_, hf⟩, _⟩ => ?_, ⟨.sessionFactory, ?_⟩, fun f h a => ?_⟩
  · cases honly _ _ hf
  · rw [hmem, hl]
    exact List.mem_singleton.mpr rfl
  · exact ⟨(fun hx => nomatch honly _ _ hx), (fun hx => nomatch honly _ _ hx)⟩

/-- No Redis client: the second getter fails, and it is the last call. -/
theorem reports_noRedis (f : SessionFactory) (factory : Option SessionFactory)
    (hl : l = getMarks i worker .sessionFactory f factory ++
      [.called i (.load worker .redisClient) (.ok none)]) :
    Reports log i worker (.ok .internalServerError) := by
  have honly : ∀ (e : Call) (a : Except AppExc e.Reply), Mark.called i e a ∈ log →
      (∃ b, Mark.called i e a = .called i (.load worker .sessionFactory) (.ok b)) ∨
        Mark.called i e a = .called i (.load worker .redisClient) (.ok none) := by
    intro e a hx
    rw [hmem, hl] at hx
    rcases List.mem_append.mp hx with hx | hx
    · exact Or.inl (mem_getMarks _ _ _ _ hx)
    · exact Or.inr (List.mem_singleton.mp hx)
  -- Neither kind of access is a probe, and none of the second getter finds a client.
  refine ⟨fun ⟨_, ⟨h, hh⟩⟩ => ?_, ⟨.redisClient, ?_⟩, fun f h a => ⟨fun hx => ?_, fun hx => ?_⟩⟩
  · rcases honly _ _ hh with ⟨_, heq⟩ | heq
    · cases heq
    · cases heq
  · rw [hmem, hl]
    exact List.mem_append_right _ (List.mem_singleton.mpr rfl)
  · rcases honly _ _ hx with ⟨_, heq⟩ | heq
    · cases heq
    · cases heq
  · rcases honly _ _ hx with ⟨_, heq⟩ | heq
    · cases heq
    · cases heq

/-- Only a cancellation passes through the check of PostgreSQL. -/
theorem reports_database (f : SessionFactory) (factory : Option SessionFactory) (h : Handle)
    (redis : Option Handle) (select close : Except AppExc Unit) (exc : AppExc)
    (hdb : dbResult factory select close = .error exc)
    (hl : l = getMarks i worker .sessionFactory f factory ++
      getMarks i worker .redisClient h redis ++ dbMarks i factory select close) :
    Reports log i worker (.error exc) := by
  refine ⟨equipped_gets hmem f factory h redis (hl ▸ List.subset_append_left _ _), ?_⟩
  cases factory with
  | none => cases hdb
  | some factory =>
      rcases checked_cancelled _ _ hdb with ⟨rfl, hlast⟩
      refine ⟨rfl, Or.inl ⟨factory, ?_⟩⟩
      rw [hmem, hmem, hl]
      -- The probe and the close of its session are both under the check.
      rcases lastly_error _ _ _ hlast with rfl | rfl
      · exact Or.inl (List.mem_append_right _ ((mem_dbMarks _ _ _ _).mpr
          ⟨factory, rfl, Or.inl rfl⟩))
      · exact Or.inr (List.mem_append_right _ ((mem_dbMarks _ _ _ _).mpr
          ⟨factory, rfl, Or.inr rfl⟩))

variable (f : SessionFactory) (factory : Option SessionFactory) (h : Handle)
variable (redis : Option Handle) (select close ping : Except AppExc Unit)
variable (hl : l = checkWord i worker f factory h redis select close ping)

include hl

theorem equipped_checks : Equipped log i worker := by
  refine equipped_gets hmem f factory h redis (hl ▸ ?_)
  exact List.Subset.trans (List.subset_append_left _ _) (List.subset_append_left _ _)

/-- Nor does anything else pass through the check of Redis. -/
theorem reports_redis (exc : AppExc) (hredis : redisResult redis ping = .error exc) :
    Reports log i worker (.error exc) := by
  refine ⟨equipped_checks hmem f factory h redis select close ping hl, ?_⟩
  cases redis with
  | none => cases hredis
  | some redis =>
      rcases checked_cancelled _ _ hredis with ⟨rfl, rfl⟩
      refine ⟨rfl, Or.inr ⟨redis, ?_⟩⟩
      rw [hmem, hl]
      exact List.mem_append_right _ ((mem_redisMarks _ _ _).mpr ⟨redis, rfl, rfl⟩)

/-- Up means that there was a factory and both calls went through. -/
theorem database_up : dbResult factory select close = .ok .up ↔
    ∃ f, .called i (.selectOne f) (.ok ()) ∈ log ∧ .called i (.closeSession f) (.ok ()) ∈ log := by
  rw [dbResult_up]
  simp only [hmem, hl]
  constructor
  · rintro ⟨⟨f', hf⟩, hs, hclose⟩
    exact ⟨f', (mem_select f factory h redis select close ping f' _).mpr ⟨hf, hs.symm⟩,
      (mem_close f factory h redis select close ping f' _).mpr ⟨hf, hclose.symm⟩⟩
  · rintro ⟨f', hs, hclose⟩
    have hs := (mem_select f factory h redis select close ping f' _).mp hs
    have hclose := (mem_close f factory h redis select close ping f' _).mp hclose
    exact ⟨⟨f', hs.1⟩, hs.2.symm, hclose.2.symm⟩

theorem redis_up : redisResult redis ping = .ok .up ↔
    ∃ h, .called i (.ping h) (.ok ()) ∈ log := by
  rw [redisResult_up]
  simp only [hmem, hl]
  constructor
  · rintro ⟨⟨h', hr⟩, hp⟩
    exact ⟨h', (mem_ping f factory h redis select close ping h' _).mpr ⟨hr, hp.symm⟩⟩
  · rintro ⟨h', hp⟩
    have hp := (mem_ping f factory h redis select close ping h' _).mp hp
    exact ⟨⟨h', hp.1⟩, hp.2.symm⟩

/-- A request whose checks are both over reports what they have found. -/
theorem reports_checks (database status : CheckStatus)
    (hdb : dbResult factory select close = .ok database)
    (hredis : redisResult redis ping = .ok status) :
    Reports log i worker (.ok (.ready (readyResponse database status))) := by
  have hfields : (readyResponse database status).database = database ∧
      (readyResponse database status).redis = status := ⟨rfl, rfl⟩
  refine ⟨equipped_checks hmem f factory h redis select close ping hl, ?_, ?_, ?_, ?_, ?_⟩
  · rw [hfields.1, ← database_up hmem f factory h redis select close ping hl, hdb,
      Except.ok.injEq]
  · rw [hfields.2, ← redis_up hmem f factory h redis select close ping hl, hredis,
      Except.ok.injEq]
  · -- Without a factory the check asks nothing: the getter returned `None`.
    cases factory with
    | none =>
        refine Or.inr ((hmem _ _).mpr (hl ▸ ?_))
        exact List.mem_append_left _ (List.mem_append_left _ (List.mem_append_left _
          (List.mem_cons_of_mem _ (List.mem_singleton.mpr rfl))))
    | some f' =>
        exact Or.inl ⟨f', select, (hmem _ _).mpr
          (hl ▸ (mem_select f _ h redis select close ping f' _).mpr ⟨rfl, rfl⟩)⟩
  · cases redis with
    | none =>
        refine Or.inr ((hmem _ _).mpr (hl ▸ ?_))
        exact List.mem_append_left _ (List.mem_append_left _ (List.mem_append_right _
          (List.mem_cons_of_mem _ (List.mem_singleton.mpr rfl))))
    | some h' =>
        exact Or.inl ⟨h', ping, (hmem _ _).mpr
          (hl ▸ (mem_ping f factory h _ select close ping h' _).mpr ⟨rfl, rfl⟩)⟩
  · rw [readyResponse_eq]
    cases database with
    | up =>
        cases status with
        | up => rfl
        | down => rfl
    | down => rfl

end Cases

/-- The answer to a readiness request is what its calls have found. Without a
    session factory or a Redis client when their getters look, it is a 500 and
    nothing is probed, and only then. Otherwise PostgreSQL is reported up just
    when its probe and the close of its session succeeded, and Redis when its
    probe did, each of which is made unless its global is cleared between the
    getter's check and its return; the status code is 200 just when PostgreSQL
    is up; and there is no answer only when one of the calls was cancelled. -/
theorem ready_reports (c : AppState) (hc : AppReachable dep c) (i worker : Nat)
    (r : Except AppExc AppAnswer) (h : c.task i = some (.answered (.healthReady worker) r)) :
    Reports c.shared.log i worker r := by
  rcases ready_word dep c hc i worker r h with ⟨l, hl, hword⟩
  have hmem := mem_word c i worker r l hl
  cases hword with
  | noFactory => exact reports_noFactory hmem rfl
  | noRedis f factory => exact reports_noRedis hmem f factory rfl
  | database f factory hd redis select close exc hdb =>
      exact reports_database hmem f factory hd redis select close exc hdb rfl
  | checks f factory hd redis select close ping database result hdb hredis =>
      cases result with
      | error exc =>
          exact reports_redis hmem f factory hd redis select close ping rfl exc hredis
      | ok status =>
          exact reports_checks hmem f factory hd redis select close ping rfl database status hdb
            hredis

/-- A readiness request to a worker that has started, when Redis is too slow. -/
def slowRedis : List (Label AppRequest AppFate Env) :=
  startup ++ .start 1 (.healthReady 0) :: List.replicate 6 (.act 1 .ok) ++
    [.act 1 (.fail .timeoutError), .answer 1]

/-- The answer is a 200 all the same. -/
theorem ready_reports_slow : ∃ c, AppReachable utcDeployment c ∧
    c.task 1 = some (.answered (.healthReady 0) (.ok (.ready (readyResponse .up .down)))) ∧
    Reports c.shared.log 1 0 (.ok (.ready ⟨200, .degraded, .up, .down⟩)) := by
  rcases reaches_of_run_map slowRedis (Config.init idle) (fun c : AppState => c.task 1) _
    (show (run (application utcDeployment) _ _).map _ = some (some (.answered _ _)) from rfl)
    with ⟨c, hc, htask⟩
  exact ⟨c, hc, htask, ready_reports utcDeployment c hc 1 0 _ htask⟩

end Answers

end KingPi
