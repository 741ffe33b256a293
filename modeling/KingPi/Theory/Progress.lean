import KingPi.Theory.Atomic
import KingPi.Async.Progress

/-!
# Every Request Can Be Answered

A `POST` holds a row from its statement to its commit, and others that propose
an event for the same pair wait for it. Nothing else waits for anything. So
all depends on the request that holds a row being able to go on, and it is:
the next thing it does is to commit, or it is gone, and then its transaction
is gone with it.

A request makes a handful of calls and no more, whatever they are answered.
Together with the above, no run ends in a deadlock: from every reachable state
all requests under way can be answered, and no connection has to fail for it.

## Main definitions

* `CallOk`: What is true of every call of the routes.
* `callBound`: The number of calls of a request.
* `Good`: A step on which no connection fails.

## Theorems

* `calls_bounded`: No run makes a request call more often.
* `transactions_owned`: Every open transaction is about to be committed.
* `all_answered`: All requests under way can be answered.
-/

namespace KingPi

open Async Prog

/-- What is true of every call of the routes: a statement fits the columns, and
    if it succeeds the next call is the commit. -/
def CallOk : (e : Eff) → (Except Exc e.Reply → Option Eff) → Prop
  | .execute stmt, g => Database.fits stmt = true ∧ g (.ok ()) = some .commit
  | _, _ => True

theorem callOk_continues : Continues CallOk := by
  intro e g g' hg h
  cases e with
  | execute stmt =>
      refine ⟨h.1, ?_⟩
      -- The commit comes next already, so the continuation does not change that.
      rcases hg (.ok ()) with hnone | hsame
      · exact absurd (hnone.symm.trans h.2) (by simp only [reduceCtorEq, not_false_eq_true])
      · rw [hsame]
        exact h.2
  | _ => trivial

section Calls

variable (dep : Deployment)

/-- A call that proposes no event. -/
theorem within_other (e : Eff) (h : ∀ stmt, e ≠ .execute stmt) :
    Within CallOk 1 (Prog.call e : Coroutine e.Reply) := by
  refine within_call e ?_
  cases e with
  | execute stmt => exact absurd rfl (h stmt)
  | _ => trivial

theorem within_cacheGet (key : Str) : Within CallOk 1 (RedisTTLCache.get key) := by
  refine within_tryCatch callOk_continues _ _ 1 0 (within_other (.redisGet key) ?_) (fun x => ?_)
  · exact fun stmt => by simp only [ne_eq, reduceCtorEq, not_false_eq_true]
  · split
    · trivial
    · trivial

theorem within_cacheSet (key value : Str) (ex : Int) :
    Within CallOk 1 (RedisTTLCache.set key value ex) := by
  refine within_tryCatch callOk_continues _ _ 1 0 (within_other (.redisSet key value ex) ?_)
    (fun x => ?_)
  · exact fun stmt => by simp only [ne_eq, reduceCtorEq, not_false_eq_true]
  · split
    · trivial
    · trivial

theorem within_clientFetch (p : Str) : Within CallOk 1 (PyPIClient.fetchPackageInfo p) := by
  cases hp : isValidPackage p with
  | false =>
      rw [PyPIClient.fetchPackageInfo_invalid p hp]
      trivial
  | true =>
      rw [PyPIClient.fetchPackageInfo_valid p hp]
      refine within_bind callOk_continues _ _ 1 0 (within_other (.httpGet (packageUrl p)) ?_)
        (fun response => ?_)
      · exact fun stmt => by simp only [ne_eq, reduceCtorEq, not_false_eq_true]
      · split
        · exact within_fromExcept 0 _
        · split
          · trivial
          · trivial

theorem within_fetch (p : Str) : Within CallOk 3 (PyPICacheClient.fetchPackageInfo dep p) := by
  refine within_bind callOk_continues _ _ 1 2 (within_cacheGet _) (fun cached => ?_)
  cases cached with
  | some value => exact within_fromExcept 2 _
  -- A miss: two more calls, the request and the write.
  | none =>
      refine within_bind callOk_continues _ _ 1 1 (within_clientFetch p) (fun data => ?_)
      exact within_bind callOk_continues _ _ 1 0 (within_cacheSet _ _ _) (fun _ => trivial)

theorem within_select (query : Query) : Within CallOk 1 (Session.select query) :=
  within_other (.select query) (fun stmt => by simp only [ne_eq, reduceCtorEq, not_false_eq_true])

/-- `record_event` is the one coroutine that proposes an event, and it commits
    what it has proposed. -/
theorem within_recordEvent (e : EventIn) :
    Within CallOk 2 (PostgresEventStore.recordEvent e.package e.type.value e.timestamp) := by
  refine ⟨⟨fits_stmt e, rfl⟩, fun r => ?_⟩
  cases r with
  -- A statement that failed is not committed.
  | error x => exact within_raise 1 x
  | ok u =>
      exact within_other .commit (fun stmt => by simp only [ne_eq, reduceCtorEq, not_false_eq_true])

theorem within_getCounts (p : Str) : Within CallOk 1 (PostgresEventStore.getCounts p) :=
  within_bind callOk_continues _ _ 1 0 (within_select _) (fun _ => trivial)

theorem within_getLast (p t : Str) : Within CallOk 1 (PostgresEventStore.getLast p t) :=
  within_bind callOk_continues _ _ 1 0 (within_select _) (fun _ =>
    within_bind callOk_continues _ _ 0 0 (within_fromExcept 0 _) (fun _ => trivial))

theorem within_getTotal (p t : Str) : Within CallOk 1 (PostgresEventStore.getTotal p t) :=
  within_bind callOk_continues _ _ 1 0 (within_select _) (fun _ =>
    within_bind callOk_continues _ _ 0 0 (within_fromExcept 0 _) (fun _ => trivial))

theorem within_collectStats (name : Str) (counts : List (Str × Nat)) (types : List EventType) :
    Within CallOk types.length (collectStats name counts types) := by
  induction types with
  | nil => trivial
  | cons t types ih =>
      rw [List.length_cons, Nat.add_comm]
      refine within_bind callOk_continues _ _ 1 types.length (within_getLast _ _) (fun last => ?_)
      exact within_bind callOk_continues _ _ types.length 0 ih (fun _ => trivial)

theorem within_getPackageSummary (name : Str) : Within CallOk 6 (getPackageSummary dep name) := by
  refine within_bind callOk_continues _ _ 3 3 (within_fetch dep name) (fun data => ?_)
  refine within_bind callOk_continues _ _ 1 2 (within_getCounts name) (fun counts => ?_)
  exact within_bind callOk_continues _ _ 2 0 (within_collectStats name counts EventType.members)
    (fun _ => within_fromExcept 0 _)

theorem within_handle (n : Nat) (route : Coroutine Response) (h : Within CallOk n route) :
    Within CallOk n ((handle route).bind fun r => .ret (Answer.http r)) :=
  within_bind callOk_continues _ _ n 0
    (within_tryCatch callOk_continues _ _ n 0 h (fun _ => trivial)) (fun _ => trivial)

/-- The number of calls of a request. -/
def callBound : Request → Nat
  | .fetch _ => 3
  | .postEvent _ => 5
  | .getPackage _ => 6
  | .getEventTotal _ _ => 1
  | .getEventLast _ _ => 1

theorem within_body (q : Request) : Within CallOk (callBound q) (q.body dep) := by
  cases q with
  | fetch p => exact within_bind callOk_continues _ _ 3 0 (within_fetch dep p) (fun _ => trivial)
  | postEvent e =>
      refine within_handle 5 _ (within_bind callOk_continues _ _ 3 2 ?_ (fun _ => ?_))
      · exact within_tryCatch callOk_continues _ _ 3 0 (within_fetch dep _) (fun _ => trivial)
      · exact within_bind callOk_continues _ _ 2 0 (within_recordEvent e) (fun _ => trivial)
  | getPackage name =>
      refine within_handle 6 _ (within_tryCatch callOk_continues _ _ 6 0 ?_ (fun _ => trivial))
      exact within_bind callOk_continues _ _ 6 0 (within_getPackageSummary dep name)
        (fun _ => trivial)
  | getEventTotal name t =>
      exact within_handle 1 _ (within_bind callOk_continues _ _ 1 0 (within_getTotal _ _)
        (fun _ => trivial))
  | getEventLast name t =>
      exact within_handle 1 _ (within_bind callOk_continues _ _ 1 0 (within_getLast _ _)
        (fun _ => trivial))

/-- No request calls out more than six times, whatever it is answered and
    whatever the others do. In every run, a fetch makes at most three calls, a
    `POST` five, a summary six and the other reads one. -/
theorem calls_bounded (ls : List (Label Request Fate Env)) (d : ServerState)
    (h : run (server dep) (Config.init boot) ls = some d) (i : Nat)
    (t : Task Eff Eff.Reply Exc Answer Request) (ht : d.task i = some t) :
    ls.countP (Label.isAct i) ≤ callBound t.request :=
  acts_bounded callBound (within_body dep) boot ls d h i t ht

/-- Two installs of numpy at once: the second waits for the row of the first. -/
def numpyWaits : List (Label Request Fate Env) :=
  [.start 0 (.postEvent (numpyInstall 3)), .act 0 .ok,
    .act 0 (.http { statusCode := 200, body := some (.object []) }), .act 0 .ok, .act 0 .ok,
    .start 1 (.postEvent (numpyInstall 5)), .act 1 .ok]

theorem numpyWaits_run : ∃ c, run (server utcDeployment) (Config.init boot) numpyWaits = some c ∧
    c.shared.db.pending.map Pending.owner = [0] ∧ (c.task 0).map Task.request
      = some (.postEvent (numpyInstall 3)) := by
  have h : (run (server utcDeployment) (Config.init boot) numpyWaits).map
      (fun c => (c.shared.db.pending.map Pending.owner, (c.task 0).map Task.request))
      = some ([0], some (.postEvent (numpyInstall 3))) := rfl
  rcases Option.map_eq_some_iff.mp h with ⟨c, hrun, hobs⟩
  exact ⟨c, hrun, (Prod.mk.inj hobs).1, (Prod.mk.inj hobs).2⟩

/-- The first of the two has made four of its five calls. -/
theorem calls_bounded_numpy : ∃ c t,
    run (server utcDeployment) (Config.init boot) numpyWaits = some c ∧ c.task 0 = some t ∧
    numpyWaits.countP (Label.isAct 0) = 4 ∧ numpyWaits.countP (Label.isAct 0) ≤ 5 := by
  rcases numpyWaits_run with ⟨c, hrun, _, hrequest⟩
  rcases Option.map_eq_some_iff.mp hrequest with ⟨t, ht, hpost⟩
  have hbound := calls_bounded utcDeployment numpyWaits c hrun 0 t ht
  rw [hpost] at hbound
  exact ⟨c, t, hrun, ht, rfl, hbound⟩

end Calls

section Transactions

variable (dep : Deployment)

/-- Every open transaction belongs to a request that commits next. -/
def Held (c : ServerState) : Prop :=
  ∀ x ∈ c.shared.db.pending, ∃ q k, c.task x.owner = some (.running q (.await .commit k))

/-- A step that moves a request, from what it does to the open transactions: those
    of others stay, and if the request has one it commits next. -/
theorem held_put (c : ServerState) (w : World) (i : Nat)
    (t : Task Eff Eff.Reply Exc Answer Request) (h : Held c)
    (hmem : ∀ x ∈ w.db.pending, x.owner ≠ i → x ∈ c.shared.db.pending)
    (hown : ∀ x ∈ w.db.pending, x.owner = i → ∃ q k, t = .running q (.await .commit k)) :
    Held (c.put w i t) := by
  intro x hx
  by_cases hi : x.owner = i
  -- Its own transaction: the commit is next. The others' tasks have not moved.
  · rcases hown x hx hi with ⟨q, k, rfl⟩
    rw [hi, c.put_task_self]
    exact ⟨q, k, rfl⟩
  · rw [c.put_task_other _ _ _ _ hi]
    exact h x (hmem x hx hi)

theorem mem_rollback (db : Database) (i : Nat) (x : Pending) :
    x ∈ (db.rollback i).pending ↔ x ∈ db.pending ∧ x.owner ≠ i := by
  rw [Database.rollback, List.mem_filter, bne_iff_ne]

theorem commit_pending (w : World) (i : Nat) (x : Pending) (hx : x ∈ (w.commit i).db.pending) :
    x ∈ w.db.pending ∧ x.owner ≠ i := by
  rcases commit_eq w i with ⟨hopen, heq⟩ | ⟨y, l, _, heq⟩
  · rw [heq] at hx
    refine ⟨hx, fun hi => ?_⟩
    -- No transaction was found, so none is the request's own.
    have := (mem_openBy w i x).mpr ⟨hx, hi⟩
    rw [hopen] at this
    exact List.not_mem_nil this
  · rw [heq] at hx
    exact (mem_rollback w.db i x).mp hx

/-- A request that calls something else than the commit has nothing open. -/
theorem none_owned (c : ServerState) (h : Held c) (i : Nat) (q : Request) (e : Eff)
    (k : Except Exc e.Reply → Coroutine Answer) (htask : c.task i = some (.running q (.await e k)))
    (he : e ≠ .commit) (x : Pending) (hx : x ∈ c.shared.db.pending) : x.owner ≠ i := by
  rintro rfl
  rcases h x hx with ⟨q', k', hk'⟩
  rw [htask, Option.some.injEq, Task.running.injEq, Prog.await.injEq] at hk'
  exact he hk'.2.1

theorem await_of_next (p : Coroutine Answer) (e : Eff) (h : p.next = some e) :
    ∃ k, p = .await e k := by
  cases p with
  | ret a => exact absurd h (by simp only [Prog.next, reduceCtorEq, not_false_eq_true])
  | raise x => exact absurd h (by simp only [Prog.next, reduceCtorEq, not_false_eq_true])
  | await e' k =>
      rw [Prog.next, Option.some.injEq] at h
      subst h
      exact ⟨k, rfl⟩

/-- A call of a request keeps every open transaction about to be committed. -/
theorem held_serve (c : ServerState) (h : Held c) (i : Nat) (q : Request) (e : Eff)
    (k : Except Exc e.Reply → Coroutine Answer) (o : Fate) (r : Except Exc e.Reply) (w : World)
    (htask : c.task i = some (.running q (.await e k))) (hok : CallOk e (fun r => (k r).next))
    (hserve : World.serve dep i e o c.shared = some (r, w)) :
    Held (c.put w i (.running q (k r))) := by
  -- A call opens a transaction, leaves them alone, or ends the request's own.
  have hsame : ∀ w : World, w.db.pending = c.shared.db.pending → e ≠ .commit →
      Held (c.put w i (.running q (k r))) := by
    intro w hw he
    refine held_put c w i _ h (fun x hx _ => ?_) (fun x hx hi => ?_)
    · rwa [hw] at hx
    · rw [hw] at hx
      exact absurd hi (none_owned c h i q e k htask he x hx)
  have hgone : ∀ w : World, (∀ x ∈ w.db.pending, x ∈ c.shared.db.pending ∧ x.owner ≠ i) →
      Held (c.put w i (.running q (k r))) := by
    intro w hw
    exact held_put c w i _ h (fun x hx _ => (hw x hx).1)
      (fun x hx hi => absurd hi (hw x hx).2)
  cases e with
  | redisGet key =>
      refine hsame w ?_ (by simp only [ne_eq, reduceCtorEq, not_false_eq_true])
      rcases serve_redisGet dep i key o _ w r hserve with ⟨_, rfl⟩ | ⟨_, rfl⟩
      · rfl
      · rfl
  | redisSet key value ex =>
      refine hsame w ?_ (by simp only [ne_eq, reduceCtorEq, not_false_eq_true])
      rcases serve_redisSet dep i key value ex o _ w r hserve with ⟨_, rfl | ⟨_, rfl⟩⟩
      · rfl
      · rfl
  | httpGet url =>
      refine hsame w ?_ (by simp only [ne_eq, reduceCtorEq, not_false_eq_true])
      rw [(serve_httpGet dep i url o _ w r hserve).1]
      rfl
  | select query =>
      refine hsame w ?_ (by simp only [ne_eq, reduceCtorEq, not_false_eq_true])
      rcases serve_select dep i query o _ w r hserve with ⟨_, rfl⟩ | ⟨_, rfl⟩
      · rfl
      · rfl
  | execute stmt =>
      rcases serve_execute dep i stmt o _ w r hserve with
        ⟨rfl, _, row, db, hupsert, rfl⟩ | ⟨_, rfl | rfl⟩
      · -- The transaction that was opened is followed by its commit.
        rcases await_of_next _ _ hok.2 with ⟨k', hk'⟩
        rw [upsert_frame dep c.shared.db db stmt _ hupsert]
        refine held_put c _ i _ h (fun x hx hi => ?_) (fun x _ _ =>
          ⟨q, k', congrArg (Task.running q) hk'⟩)
        rcases List.mem_cons.mp hx with rfl | hx
        · exact absurd rfl hi
        · exact hx
      · exact hsame _ rfl (by simp only [ne_eq, reduceCtorEq, not_false_eq_true])
      · exact hsame _ rfl (by simp only [ne_eq, reduceCtorEq, not_false_eq_true])
  | commit =>
      rcases serve_commit dep i o _ w r hserve with ⟨_, rfl⟩ | ⟨_, rfl | rfl⟩
      · exact hgone _ (fun x hx => commit_pending _ i x hx)
      · exact hgone _ (fun x hx => commit_pending _ i x hx)
      · exact hgone _ (fun x hx => (mem_rollback _ i x).mp hx)

/-- What a request calls next is a call it may make. -/
theorem callOk_of (c : ServerState) (hc : Reachable dep c) (i : Nat) (q : Request) (e : Eff)
    (k : Except Exc e.Reply → Coroutine Answer)
    (htask : c.task i = some (.running q (.await e k))) : CallOk e (fun r => (k r).next) := by
  have hwithin := reaches_within callBound (within_body dep) boot c hc i q _ htask
  -- The bound is not used up, since there is a call.
  cases hb : callBound q with
  | zero =>
      rw [hb] at hwithin
      exact hwithin.elim
  | succ n =>
      rw [hb] at hwithin
      exact hwithin.1

/-- Every open transaction of a reachable state is about to be committed. -/
theorem held_of (c : ServerState) (hc : Reachable dep c) : Held c := by
  induction hc with
  | refl => exact fun x hx => absurd hx List.not_mem_nil
  | step c d l hc hl ih =>
      cases step_cases c d l hl with
      | start i q hfree =>
          refine held_put c _ i _ ih (fun x hx _ => hx) (fun x hx hi => ?_)
          -- Nobody has a transaction open before it arrives.
          rcases ih x hx with ⟨q', k, hk⟩
          rw [hi, hfree] at hk
          exact absurd hk (by simp only [reduceCtorEq, not_false_eq_true])
      | act i o q e k r w htask hserve =>
          exact held_serve dep c ih i q e k o r w htask (callOk_of dep c hc i q e k htask) hserve
      | answer i q p r htask hout =>
          refine held_put c _ i _ ih (fun x hx _ => hx) (fun x hx hi => ?_)
          -- A coroutine that is over does not await its commit.
          rcases ih x hx with ⟨q', k, hk⟩
          rw [hi, htask, Option.some.injEq, Task.running.injEq] at hk
          rw [hk.2] at hout
          exact absurd hout (by simp only [Prog.outcome, reduceCtorEq, not_false_eq_true])
      | abort i q p htask =>
          exact held_put c _ i _ ih (fun x hx _ => ((mem_rollback _ i x).mp hx).1)
            (fun x hx hi => absurd hi ((mem_rollback _ i x).mp hx).2)
      | env a w henv =>
          intro x hx
          rw [(quiet_env a c.shared w henv).pending] at hx
          exact ih x hx

/-- The request a task serves is the one that has arrived. -/
theorem arrival_of_task (c : ServerState) (hc : Reachable dep c) (i : Nat) (q : Request)
    (p : Coroutine Answer) (htask : c.task i = some (.running q p)) (q' : Request)
    (h : Obs.started i q' ∈ c.shared.trace) : q = q' := by
  have hlife := life_of dep c hc i
  rw [htask] at hlife
  rcases hlife with ⟨l, hl, _⟩
  -- It is in the trace that the task has arrived, and nobody arrives twice.
  have hmem : Obs.started i q ∈ recordsOf i c.shared.trace := by
    rw [hl]
    exact List.mem_cons_self
  exact (Obs.started.inj (stage_unique dep c hc _ _ ((mem_recordsOf i _ _).mp hmem).1 h rfl rfl
    (show (0 : Nat) ≠ 6 by decide))).2

/-- No transaction is leaked. In every reachable state an open transaction
    belongs to a `POST` that is under way and commits next, it holds that
    request's own event, and nobody else holds a row with its key. So a
    request that has been answered or abandoned holds nothing. -/
theorem transactions_owned (c : ServerState) (hc : Reachable dep c) :
    (∀ x ∈ c.shared.db.pending, ∃ e k,
        c.task x.owner = some (.running (.postEvent e) (.await .commit k)) ∧ x.stmt = e.stmt ∧
        ∀ y ∈ c.shared.db.pending, y.row.key = x.row.key → y.owner = x.owner) ∧
      ∀ i, (∀ q p, c.task i ≠ some (.running q p)) → c.shared.openBy i = [] := by
  have hinv := reachable_inv dep c hc
  refine ⟨fun x hx => ?_, fun i hi => ?_⟩
  · rcases held_of dep c hc x hx with ⟨q, k, hk⟩
    rcases (hinv.store.pending x hx).justified with ⟨e, hstarted, hstmt, _⟩
    -- The request under way is the one whose event it is.
    have hq : q = .postEvent e := arrival_of_task dep c hc x.owner q _ hk _ hstarted
    subst hq
    refine ⟨e, k, hk, hstmt, fun y hy hkey => ?_⟩
    rw [List.inj_on_of_nodup_map hinv.store.locks hy hx hkey]
  · rw [List.eq_nil_iff_forall_not_mem]
    intro x hx
    rcases (mem_openBy _ i x).mp hx with ⟨hpending, rfl⟩
    rcases held_of dep c hc x hpending with ⟨q, k, hk⟩
    exact hi _ _ hk

/-- The row the second install waits for is about to be committed. -/
theorem transactions_owned_numpy : ∃ c, Reachable utcDeployment c ∧ ∃ x e k,
    x ∈ c.shared.db.pending ∧
    c.task x.owner = some (.running (.postEvent e) (.await .commit k)) := by
  rcases numpyWaits_run with ⟨c, hrun, howner, _⟩
  have hc : Reachable utcDeployment c := reaches_of_run numpyWaits _ c hrun
  have hmem : 0 ∈ c.shared.db.pending.map Pending.owner := by
    rw [howner]
    exact List.mem_singleton.mpr rfl
  rcases List.mem_map.mp hmem with ⟨x, hx, _⟩
  rcases (transactions_owned utcDeployment c hc).1 x hx with ⟨e, k, hk, _⟩
  exact ⟨c, hc, x, e, k, hx, hk⟩

end Transactions

section Finish

variable (dep : Deployment)

/-- A step on which no connection fails. -/
def Good : Label Request Fate Env → Prop
  | .act _ .ok => True
  | .act _ (.http _) => True
  | .answer _ => True
  | _ => False

theorem good_move (l : Label Request Fate Env) (h : Good l) : l.isMove = true := by
  cases l with
  | act i o => rfl
  | answer i => rfl
  | _ => exact h.elim

/-- A call that has to wait for nobody can succeed. -/
theorem serve_good (i : Nat) (e : Eff) (w : World)
    (hfree : ∀ stmt, e = .execute stmt → Database.fits stmt = true ∧ w.db.locked i stmt = false) :
    ∃ o rs, Good (.act i o) ∧ World.serve dep i e o w = some rs := by
  cases e with
  | redisGet key => exact ⟨.ok, _, trivial, rfl⟩
  | redisSet key value ex =>
      by_cases hex : 0 < ex
      · exact ⟨.ok, _, trivial, if_pos hex⟩
      · exact ⟨.ok, _, trivial, if_neg hex⟩
  | httpGet url => exact ⟨.http { statusCode := 200, body := none }, _, trivial, rfl⟩
  | execute stmt =>
      rcases hfree stmt rfl with ⟨hfits, hlocked⟩
      -- The statement succeeds or it is refused, but it does not wait.
      rcases hup : w.db.upsert dep stmt with ⟨res, db⟩
      cases res with
      | ok row =>
          refine ⟨.ok, (.ok (), (w.log (.executed i stmt w.db.nextval)).withDb
            { db with pending := ⟨i, stmt, row⟩ :: db.pending }), trivial, ?_⟩
          simp only [World.serve, hfits, hlocked, Bool.not_false, Bool.and_self, if_true, hup]
      | error fault =>
          refine ⟨.ok, (.error (.dbapiError fault),
            (w.log (.executed i stmt w.db.nextval)).withDb db), trivial, ?_⟩
          simp only [World.serve, hfits, hlocked, Bool.not_false, Bool.and_self, if_true, hup]
  | commit => exact ⟨.ok, _, trivial, rfl⟩
  | select query => exact ⟨.ok, _, trivial, rfl⟩

theorem step_of_serve (c : ServerState) (i : Nat) (q : Request) (e : Eff)
    (k : Except Exc e.Reply → Coroutine Answer) (o : Fate) (rs : Except Exc e.Reply × World)
    (htask : c.task i = some (.running q (.await e k)))
    (hserve : World.serve dep i e o c.shared = some rs) :
    ∃ d, step (server dep) c (.act i o) = some d := by
  refine ⟨c.put rs.2 i (.running q (k rs.1)), ?_⟩
  simp only [step, htask, server, hserve]

/-- If a request is under way, a request can move: this one, or the one whose row
    it waits for. -/
theorem some_moves (c : ServerState) (hc : Reachable dep c)
    (h : ∃ i q p, c.task i = some (.running q p)) :
    ∃ l d, Good l ∧ step (server dep) c l = some d := by
  rcases h with ⟨i, q, p, htask⟩
  cases p with
  | ret a =>
      refine ⟨.answer i, c.put (c.shared.log (.answered i q (.ok a))) i (.answered q (.ok a)),
        trivial, ?_⟩
      simp only [step, htask, Prog.outcome, server]
  | raise x =>
      refine ⟨.answer i, c.put (c.shared.log (.answered i q (.error x))) i
        (.answered q (.error x)), trivial, ?_⟩
      simp only [step, htask, Prog.outcome, server]
  | await e k =>
      by_cases hwait : ∃ stmt, e = .execute stmt ∧ c.shared.db.locked i stmt = true
      · -- Whoever holds the row can commit.
        rcases hwait with ⟨stmt, _, hlocked⟩
        rcases List.any_eq_true.mp hlocked with ⟨x, hx, _⟩
        rcases held_of dep c hc x hx with ⟨q', k', hk'⟩
        rcases step_of_serve dep c x.owner q' .commit k' .ok _ hk' rfl with ⟨d, hd⟩
        exact ⟨.act x.owner .ok, d, trivial, hd⟩
      · have hok := callOk_of dep c hc i q e k htask
        have hfree : ∀ stmt, e = .execute stmt →
            Database.fits stmt = true ∧ c.shared.db.locked i stmt = false := by
          rintro stmt rfl
          refine ⟨hok.1, ?_⟩
          rw [← Bool.not_eq_true]
          exact fun hlocked => hwait ⟨stmt, rfl, hlocked⟩
        rcases serve_good dep i e c.shared hfree with ⟨o, rs, hgood, hserve⟩
        rcases step_of_serve dep c i q e k o rs htask hserve with ⟨d, hd⟩
        exact ⟨.act i o, d, hgood, hd⟩

/-- There is no deadlock. From every reachable state all requests under way can
    be answered without a connection failing or a request being abandoned, and
    then no transaction is open. The requests that were done before stay as
    they are. -/
theorem all_answered (c : ServerState) (hc : Reachable dep c) :
    ∃ d, ReachesBy (server dep) Good c d ∧ d.shared.db.pending = [] ∧
      ∀ i, match c.task i with
        | some (.running q _) => ∃ r, d.task i = some (.answered q r)
        | t => d.task i = t := by
  rcases finishes callBound (within_body dep) boot good_move (some_moves dep) c hc with
    ⟨d, hd, hmoved, hdone⟩
  refine ⟨d, hd, ?_, fun i => ?_⟩
  · rw [List.eq_nil_iff_forall_not_mem]
    intro x hx
    -- Whoever has a transaction open is under way, and nobody is any more.
    rcases held_of dep d (reaches_trans hc (reaches_of_by c d hd)) x hx with ⟨q, k, hk⟩
    exact hdone _ _ _ hk
  · have hi := hmoved i
    cases htask : c.task i with
    | none =>
        rw [htask] at hi
        exact hi
    | some t =>
        rw [htask] at hi
        cases t with
        | running q p =>
            rcases hi with ⟨p', hp'⟩ | hr
            · exact absurd hp' (hdone i q p')
            · exact hr
        | answered q r => exact hi
        | aborted q => exact hi

/-- Both installs can be answered, although one of them has to wait. -/
theorem all_answered_numpy : ∃ c d, Reachable utcDeployment c ∧
    c.shared.db.pending.map Pending.owner = [0] ∧
    ReachesBy (server utcDeployment) Good c d ∧ d.shared.db.pending = [] := by
  rcases numpyWaits_run with ⟨c, hrun, howner, _⟩
  have hc : Reachable utcDeployment c := reaches_of_run numpyWaits _ c hrun
  rcases all_answered utcDeployment c hc with ⟨d, hd, hnone, _⟩
  exact ⟨c, d, hc, howner, hd, hnone⟩

end Finish

end KingPi
