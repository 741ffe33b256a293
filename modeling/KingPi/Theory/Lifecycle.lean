import KingPi.Theory.Runs
import KingPi.Async.Local

/-!
# The Life of a Request

What one request records of itself, from its arrival to its answer, whatever
the other requests do in the meantime.

A fetch looks into the cache first. If that finds something it is over; if
not, the name is checked, PyPI is asked once, and what a 200 brought is written
to the cache at most once. A `POST` goes on to the statement only after a fetch
that returned, and to the commit only after a statement that did. A summary
makes its `SELECT`s in a fixed order, the other reads make one each. Calls that
failed before they took effect leave no record, which is why most records
may be missing.

These are the words the records of a request can be. Each says as well how the
coroutine stands: `none` while it is under way, or what it returned or raised.

## Main definitions

* `Eff.Notes`: What a call can record.
* `FetchSteps`, `PostSteps`, `PackageSteps`, `Steps`: The words.
* `serverLog`: The trace as the log of the server's tasks.
* `Due`: What a request must have recorded before a record.

## Theorems

* `records_body`: The words of the routes.
* `life_of`, `due_of`: The records of every request in every reachable state.
* `lifecycle`: Every request keeps to its protocol.
-/

namespace KingPi

open Async

/-- The request a record is about. -/
def Obs.owner : Obs → Nat
  | .started i _ => i
  | .answered i _ _ => i
  | .upstream i _ _ => i
  | .stored i _ _ _ => i
  | .looked i _ _ _ => i
  | .executed i _ _ => i
  | .committed i _ => i
  | .selected i _ => i

/-- The records about a request. -/
def recordsOf (i : Nat) (tr : List Obs) : List Obs := tr.filter (fun x => x.owner == i)

/-- What a call of a request can record, by how it is answered. -/
def Eff.Notes (i : Nat) : (e : Eff) → Except Exc e.Reply → List Obs → Prop
  | .redisGet key, r, l => (∃ hit time, r = .ok hit ∧ l = [.looked i key hit time]) ∨
      (∃ exc, r = .error exc ∧ exc.isRedisFault = true) ∧ l = []
  | .redisSet key value _, r, l => (r = .ok () ∨ ∃ exc, r = .error exc ∧ exc.isRedisFault = true) ∧
      (l = [] ∨ ∃ time, l = [.stored i key value time])
  | .httpGet url, r, l => IsReply r ∧ l = [.upstream i url r]
  | .execute stmt, r, l => (r = .ok () ∧ ∃ id, l = [.executed i stmt id]) ∨
      (∃ fault, r = .error (.dbapiError fault)) ∧ (l = [] ∨ ∃ id, l = [.executed i stmt id])
  | .commit, r, l => (r = .ok () ∨ ∃ fault, r = .error (.dbapiError fault)) ∧
      (l = [] ∨ ∃ stmt, l = [.committed i stmt])
  | .select query, r, l => (∃ rows, r = .ok rows ∧ l = [.selected i query]) ∨
      (∃ fault, r = .error (.dbapiError fault)) ∧ l = []

section Notes

theorem notes_owner (i : Nat) (e : Eff) (r : Except Exc e.Reply) (l : List Obs)
    (h : e.Notes i r l) : ∀ x ∈ l, x.owner = i := by
  have hsingle : ∀ o : Obs, o.owner = i → ∀ x ∈ [o], x.owner = i := by
    intro o ho x hx
    rw [List.mem_singleton.mp hx]
    exact ho
  have hnil : ∀ x ∈ ([] : List Obs), x.owner = i := fun x hx => absurd hx List.not_mem_nil
  cases e with
  | redisGet key =>
      rcases h with ⟨hit, time, _, rfl⟩ | ⟨_, rfl⟩
      · exact hsingle _ rfl
      · exact hnil
  | redisSet key value ex =>
      rcases h with ⟨_, rfl | ⟨time, rfl⟩⟩
      · exact hnil
      · exact hsingle _ rfl
  | httpGet url =>
      rcases h with ⟨_, rfl⟩
      exact hsingle _ rfl
  | execute stmt =>
      rcases h with ⟨_, id, rfl⟩ | ⟨_, rfl | ⟨id, rfl⟩⟩
      · exact hsingle _ rfl
      · exact hnil
      · exact hsingle _ rfl
  | commit =>
      rcases h with ⟨_, rfl | ⟨stmt, rfl⟩⟩
      · exact hnil
      · exact hsingle _ rfl
  | select query =>
      rcases h with ⟨rows, _, rfl⟩ | ⟨_, rfl⟩
      · exact hsingle _ rfl
      · exact hnil

/-- Every call records what its notes say. -/
theorem serve_notes (dep : Deployment) (i : Nat) (e : Eff) (o : Fate) (w w' : World)
    (r : Except Exc e.Reply) (h : World.serve dep i e o w = some (r, w')) :
    ∃ l, e.Notes i r l ∧ w'.trace = w.trace ++ l := by
  -- A commit leaves a record if there is a transaction to commit.
  have hcommit : (∃ l, (l = [] ∨ ∃ stmt, l = [Obs.committed i stmt]) ∧
      (w.commit i).trace = w.trace ++ l) := by
    rcases commit_eq w i with ⟨_, heq⟩ | ⟨x, l, _, heq⟩
    · rw [heq]
      exact ⟨[], Or.inl rfl, (List.append_nil _).symm⟩
    · rw [heq]
      exact ⟨_, Or.inr ⟨x.stmt, rfl⟩, rfl⟩
  cases e with
  | redisGet key =>
      rcases serve_redisGet dep i key o w w' r h with ⟨rfl, rfl⟩ | ⟨hr, rfl⟩
      · exact ⟨_, Or.inl ⟨_, _, rfl, rfl⟩, rfl⟩
      · exact ⟨[], Or.inr ⟨hr, rfl⟩, (List.append_nil _).symm⟩
  | redisSet key value ex =>
      rcases serve_redisSet dep i key value ex o w w' r h with ⟨hr, rfl | ⟨_, rfl⟩⟩
      · exact ⟨[], ⟨hr, Or.inl rfl⟩, (List.append_nil _).symm⟩
      · exact ⟨_, ⟨hr, Or.inr ⟨w.now, rfl⟩⟩, rfl⟩
  | httpGet url =>
      rcases serve_httpGet dep i url o w w' r h with ⟨rfl, hr⟩
      exact ⟨_, ⟨hr, rfl⟩, rfl⟩
  | execute stmt =>
      rcases serve_execute dep i stmt o w w' r h with
        ⟨hr, _, row, db, _, rfl⟩ | ⟨hr, rfl | rfl⟩
      · exact ⟨_, Or.inl ⟨hr, _, rfl⟩, rfl⟩
      · exact ⟨[], Or.inr ⟨hr, Or.inl rfl⟩, (List.append_nil _).symm⟩
      · exact ⟨_, Or.inr ⟨hr, Or.inr ⟨_, rfl⟩⟩, rfl⟩
  | commit =>
      rcases hcommit with ⟨l, hl, htrace⟩
      rcases serve_commit dep i o w w' r h with ⟨hr, rfl⟩ | ⟨hr, rfl | rfl⟩
      · exact ⟨l, ⟨Or.inl hr, hl⟩, htrace⟩
      · exact ⟨l, ⟨Or.inr hr, hl⟩, htrace⟩
      · exact ⟨[], ⟨Or.inr hr, Or.inl rfl⟩, (List.append_nil _).symm⟩
  | select query =>
      rcases serve_select dep i query o w w' r h with ⟨hr, rfl⟩ | ⟨hr, rfl⟩
      · exact ⟨_, Or.inl ⟨_, hr, rfl⟩, rfl⟩
      · exact ⟨[], Or.inr ⟨hr, rfl⟩, (List.append_nil _).symm⟩

/-- The trace as the log of the server's tasks. -/
def serverLog (dep : Deployment) : Logged (server dep) Obs where
  log w := w.trace
  owner := Obs.owner
  started := .started
  answered := .answered
  notes i e r l := e.Notes i r l
  owner_started _ _ := rfl
  owner_answered _ _ _ := rfl
  owner_notes := notes_owner
  start_log _ _ _ := rfl
  serve_log i e o w r w' h := serve_notes dep i e o w w' r h
  answer_log _ _ _ _ := rfl
  abort_log _ _ := rfl
  env_log a w w' h := by
    cases a with
    | tick ms =>
        rw [← Option.some.inj h]
    | evict key =>
        rw [← Option.some.inj h]

end Notes

section Words

variable (dep : Deployment)

/-- The records of a lookup that found nothing, or failed. -/
def Missed (i : Nat) (key : Str) (l : List Obs) : Prop :=
  l = [] ∨ ∃ time, l = [Obs.looked i key none time]

/-- The records of a fetch. -/
inductive FetchSteps (i : Nat) (p : Str) : Option (Except Exc Json) → List Obs → Prop where
  | missed (l : List Obs) : Missed i (cacheKey p) l → FetchSteps i p none l
  | hit (value : Str) (time : Nat) :
      FetchSteps i p (some (dep.jsonLoads value)) [.looked i (cacheKey p) (some value) time]
  | rejected (l : List Obs) : Missed i (cacheKey p) l → isValidPackage p = false →
      FetchSteps i p (some (.error (invalidPackageName p))) l
  | failed (l : List Obs) (reply : Except Exc HttpResponse) (x : Exc) : Missed i (cacheKey p) l →
      isValidPackage p = true → IsReply reply → directFetch p reply = .error x →
      FetchSteps i p (some (.error x)) (l ++ [.upstream i (packageUrl p) reply])
  | fetched (l : List Obs) (data : Json) : Missed i (cacheKey p) l → isValidPackage p = true →
      FetchSteps i p none (l ++ [.upstream i (packageUrl p) (found data)])
  | stored (l l' : List Obs) (data : Json) : Missed i (cacheKey p) l → isValidPackage p = true →
      (l' = [] ∨ ∃ time, l' = [.stored i (cacheKey p) (dep.dumps data) time]) →
      FetchSteps i p (some (.ok data)) (l ++ .upstream i (packageUrl p) (found data) :: l')

/-- The records of `post_event`. -/
inductive PostSteps (i : Nat) (e : EventIn) : Option Response → List Obs → Prop where
  | fetching (l : List Obs) : FetchSteps dep i e.package none l → PostSteps i e none l
  | refused (l : List Obs) (x : Exc) : FetchSteps dep i e.package (some (.error x)) l →
      PostSteps i e (some (postError e x)) l
  | fetched (l : List Obs) (data : Json) : FetchSteps dep i e.package (some (.ok data)) l →
      PostSteps i e none l
  | failed (l l' : List Obs) (data : Json) : FetchSteps dep i e.package (some (.ok data)) l →
      (l' = [] ∨ ∃ id, l' = [.executed i e.stmt id]) →
      PostSteps i e (some internalServerError) (l ++ l')
  | executed (l : List Obs) (data : Json) (id : Option Nat) :
      FetchSteps dep i e.package (some (.ok data)) l →
      PostSteps i e none (l ++ [.executed i e.stmt id])
  | committed (l l' : List Obs) (data : Json) (id : Option Nat) (resp : Response) :
      FetchSteps dep i e.package (some (.ok data)) l →
      (l' = [] ∨ ∃ stmt, l' = [.committed i stmt]) →
      (resp = { statusCode := 201, body := .accepted } ∨ resp = internalServerError) →
      PostSteps i e (some resp) (l ++ .executed i e.stmt id :: l')

/-- The records of a list of `SELECT`s: each has been made, or the one before it
    failed. -/
def Selected (i : Nat) (queries : List Query) (l : List Obs) : Prop :=
  ∃ done, done <+: queries ∧ l = done.map (Obs.selected i)

/-- The `SELECT`s of a summary, in their order. -/
def summaryQueries (name : Str) : List Query :=
  .counts name :: EventType.members.map (fun t => .last name t.value)

/-- The records of `get_package`. -/
inductive PackageSteps (i : Nat) (name : Str) : Option Response → List Obs → Prop where
  | fetching (l : List Obs) : FetchSteps dep i name none l → PackageSteps i name none l
  | refused (l : List Obs) (x : Exc) : FetchSteps dep i name (some (.error x)) l →
      PackageSteps i name (some (packageError name x)) l
  | reading (l l' : List Obs) (data : Json) (o : Option Response) :
      FetchSteps dep i name (some (.ok data)) l → Selected i (summaryQueries name) l' →
      PackageSteps i name o (l ++ l')

/-- The records of a request, by how its coroutine stands. -/
def Steps (i : Nat) : Request → Option (Except Exc Answer) → List Obs → Prop
  | .fetch p, o, l => ∃ o', FetchSteps dep i p o' l ∧ o = o'.map (fun r => r.map Answer.data)
  | .postEvent e, o, l => ∃ o', PostSteps dep i e o' l ∧ o = o'.map (fun r => .ok (.http r))
  | .getPackage name, o, l => ∃ o', PackageSteps dep i name o' l ∧
      o = o'.map (fun r => .ok (.http r))
  | .getEventTotal name t, _, l => Selected i [.total name t.value] l
  | .getEventLast name t, _, l => Selected i [.last name t.value] l

variable (i : Nat)

/-- A coroutine of request `i` satisfies its assertion about what it records. -/
abbrev RecordsAt {α : Type} (Post : Option (Except Exc α) → List Obs → Prop) (p : Coroutine α)
    (l : List Obs) : Prop :=
  Records (Eff.Notes i) Post p l

/-- `RedisTTLCache.get` -/
theorem records_cacheGet (key : Str) (l : List Obs)
    (Post : Option (Except Exc (Option Str)) → List Obs → Prop) (hnow : Post none l)
    (hmiss : ∀ l', Missed i key l' → Post (some (.ok none)) (l ++ l'))
    (hhit : ∀ value time, Post (some (.ok (some value))) (l ++ [.looked i key (some value) time])) :
    RecordsAt i Post (RedisTTLCache.get key) l := by
  refine records_tryCatch _ _ l (records_call (Eff.redisGet key) l ?_ ?_)
  · exact hnow
  rintro r l' (⟨hit, time, rfl, rfl⟩ | ⟨⟨exc, rfl, hexc⟩, rfl⟩)
  · cases hit with
    | none => exact hmiss _ (Or.inr ⟨time, rfl⟩)
    | some value => exact hhit value time
  · -- A fault reads as a miss, and leaves no record.
    simp only [hexc, if_true]
    exact hmiss [] (Or.inl rfl)

/-- `RedisTTLCache.set` -/
theorem records_cacheSet (key value : Str) (ex : Int) (l : List Obs)
    (Post : Option (Except Exc Unit) → List Obs → Prop) (hnow : Post none l)
    (h : ∀ l', (l' = [] ∨ ∃ time, l' = [Obs.stored i key value time]) →
      Post (some (.ok ())) (l ++ l')) :
    RecordsAt i Post (RedisTTLCache.set key value ex) l := by
  refine records_tryCatch _ _ l (records_call (Eff.redisSet key value ex) l ?_ ?_)
  · exact hnow
  -- The cache swallows a fault of a write, which may have been recorded all the same.
  rintro r l' ⟨rfl | ⟨exc, rfl, hexc⟩, hl'⟩
  · exact h l' hl'
  · simp only [hexc, if_true]
    exact h l' hl'

/-- `PyPIClient.fetch_package_info` -/
theorem records_clientFetch (p : Str) (l : List Obs)
    (Post : Option (Except Exc Json) → List Obs → Prop) (hnow : Post none l)
    (hrejected : isValidPackage p = false → Post (some (.error (invalidPackageName p))) l)
    (hreply : ∀ reply, isValidPackage p = true → IsReply reply →
      Post (some (directFetch p reply)) (l ++ [.upstream i (packageUrl p) reply])) :
    RecordsAt i Post (PyPIClient.fetchPackageInfo p) l := by
  cases hp : isValidPackage p with
  | false =>
      rw [PyPIClient.fetchPackageInfo_invalid p hp]
      exact hrejected hp
  | true =>
      rw [PyPIClient.fetchPackageInfo_valid p hp]
      refine records_bind _ _ l (records_call (Eff.httpGet (packageUrl p)) l ?_ ?_)
      · exact hnow
      rintro r l' ⟨hr, rfl⟩
      have hpost := hreply r hp hr
      rw [directFetch_valid p r hp] at hpost
      cases r with
      | error x => exact hpost
      | ok response =>
          simp only at hpost ⊢
          -- A 200 is decoded, a 404 is not found, anything else is an upstream error.
          by_cases h200 : response.statusCode = 200
          · rw [if_pos h200] at hpost ⊢
            exact records_fromExcept _ _ hpost
          · rw [if_neg h200] at hpost ⊢
            by_cases h404 : response.statusCode = 404
            · rw [if_pos h404] at hpost ⊢
              exact hpost
            · rw [if_neg h404] at hpost ⊢
              exact hpost

/-- `PyPICacheClient.fetch_package_info` -/
theorem records_fetch (p : Str) (l : List Obs)
    (Post : Option (Except Exc Json) → List Obs → Prop)
    (h : ∀ o l', FetchSteps dep i p o l' → Post o (l ++ l')) :
    RecordsAt i Post (PyPICacheClient.fetchPackageInfo dep p) l := by
  have hnow : Post none l := by
    have := h none [] (.missed [] (Or.inl rfl))
    rwa [List.append_nil] at this
  refine records_bind _ _ l (records_cacheGet i _ l _ hnow ?_ ?_)
  · intro l₀ hl₀
    -- A miss: the client below, and a write of what it returned.
    refine records_bind _ _ _ (records_clientFetch i p _ _ (h none l₀ (.missed l₀ hl₀)) ?_ ?_)
    · intro hp
      exact h _ l₀ (.rejected l₀ hl₀ hp)
    · intro reply hp hr
      cases hfr : directFetch p reply with
      | error x =>
          rw [List.append_assoc]
          exact h _ _ (.failed l₀ reply x hl₀ hp hr hfr)
      | ok data =>
          rw [directFetch_ok p reply data hp hfr]
          refine records_bind _ _ _ (records_cacheSet i _ _ _ _ _ ?_ ?_)
          · rw [List.append_assoc]
            exact h none _ (.fetched l₀ data hl₀ hp)
          · intro l₁ hl₁
            rw [List.append_assoc, List.append_assoc]
            exact h _ _ (.stored l₀ l₁ data hl₀ hp hl₁)
  · intro value time
    exact records_fromExcept _ _ (h _ _ (.hit value time))

/-- One `SELECT`. -/
theorem records_select (query : Query) (l : List Obs)
    (Post : Option (Except Exc (List PackageEvent)) → List Obs → Prop) (hnow : Post none l)
    (hfault : ∀ fault, Post (some (.error (.dbapiError fault))) l)
    (hrows : ∀ rows, Post (some (.ok rows)) (l ++ [.selected i query])) :
    RecordsAt i Post (Session.select query) l := by
  refine records_call (Eff.select query) l ?_ ?_
  · exact hnow
  rintro r l' (⟨rows, rfl, rfl⟩ | ⟨⟨fault, rfl⟩, rfl⟩)
  · exact hrows rows
  · rw [List.append_nil]
    exact hfault fault

/-- `PostgresEventStore.record_event` -/
theorem records_recordEvent (e : EventIn) (l : List Obs)
    (Post : Option (Except Exc Unit) → List Obs → Prop) (hnow : Post none l)
    (hfailed : ∀ fault l', (l' = [] ∨ ∃ id, l' = [Obs.executed i e.stmt id]) →
      Post (some (.error (.dbapiError fault))) (l ++ l'))
    (hopen : ∀ id, Post none (l ++ [.executed i e.stmt id]))
    (hdone : ∀ id r l', (r = .ok () ∨ ∃ fault, r = .error (.dbapiError fault)) →
      (l' = [] ∨ ∃ stmt, l' = [Obs.committed i stmt]) →
      Post (some r) (l ++ .executed i e.stmt id :: l')) :
    RecordsAt i Post (PostgresEventStore.recordEvent e.package e.type.value e.timestamp) l := by
  refine records_bind _ _ l (records_call (Eff.execute e.stmt) l ?_ ?_)
  · exact hnow
  -- Only a statement that succeeded is followed by a commit.
  rintro r l' (⟨rfl, id, rfl⟩ | ⟨⟨fault, rfl⟩, hl'⟩)
  · refine records_call Eff.commit _ ?_ ?_
    · exact hopen id
    rintro r l' ⟨hr, hl'⟩
    rw [List.append_assoc, List.singleton_append]
    exact hdone id r l' hr hl'
  · exact hfailed fault l' hl'

/-- `post_event` -/
theorem records_postEvent (e : EventIn) (Post : Option (Except Exc Response) → List Obs → Prop)
    (hnow : ∀ l, PostSteps dep i e none l → Post none l)
    (hdone : ∀ resp l, PostSteps dep i e (some resp) l → Post (some (.ok resp)) l)
    (hraised : ∀ exc l, PostSteps dep i e (some (errorResponse exc)) l →
      Post (some (.error exc)) l) :
    RecordsAt i Post (postEvent dep e) [] := by
  refine records_bind _ _ _ (records_tryCatch _ _ _ (records_fetch dep i e.package [] _ ?_))
  intro o l hl
  rw [List.nil_append]
  cases o with
  | none => exact hnow l (.fetching l hl)
  | some r =>
      cases r with
      | error x => exact hraised _ l (.refused l x hl)
      | ok data =>
          -- The fetch returned, and the route goes on to the statement.
          refine records_bind _ _ l (records_recordEvent i e l _ ?_ ?_ ?_ ?_)
          · exact hnow l (.fetched l data hl)
          · intro fault l' hl'
            exact hraised _ _ (.failed l l' data hl hl')
          · intro id
            exact hnow _ (.executed l data id hl)
          · rintro id r l' (rfl | ⟨fault, rfl⟩) hl'
            · exact hdone _ _ (.committed l l' data id _ hl hl' (Or.inl rfl))
            · exact hraised _ _ (.committed l l' data id _ hl hl' (Or.inr rfl))

/-- No `SELECT` yet. -/
theorem selected_nil (queries : List Query) : Selected i queries [] :=
  ⟨[], List.nil_prefix, rfl⟩

theorem selected_cons (query : Query) (queries : List Query) (l : List Obs)
    (h : Selected i queries l) : Selected i (query :: queries) (.selected i query :: l) := by
  rcases h with ⟨done, hdone, rfl⟩
  exact ⟨query :: done, List.cons_prefix_cons.mpr ⟨rfl, hdone⟩, rfl⟩

/-- What a read makes of its rows leaves no record. -/
theorem records_scalar {α β : Type} (r : Except Exc α) (f : α → Coroutine β)
    (Post : Option (Except Exc β) → List Obs → Prop) (l : List Obs)
    (hf : ∀ a, ∃ b, f a = .ret b) (h : ∀ r, Post (some r) l) :
    RecordsAt i Post ((Prog.fromExcept r).bind f) l := by
  cases r with
  | error x => exact h (.error x)
  | ok a =>
      rcases hf a with ⟨b, hb⟩
      rw [Prog.fromExcept, Prog.bind, hb]
      exact h (.ok b)

/-- `PostgresEventStore.get_total` -/
theorem records_getTotal (p t : Str) (l : List Obs)
    (Post : Option (Except Exc Nat) → List Obs → Prop) (hnow : Post none l)
    (hfault : ∀ fault, Post (some (.error (.dbapiError fault))) l)
    (hdone : ∀ r, Post (some r) (l ++ [.selected i (.total p t)])) :
    RecordsAt i Post (PostgresEventStore.getTotal p t) l :=
  records_bind _ _ l (records_select i _ l _ hnow hfault
    (fun _ => records_scalar i _ _ _ _ (fun _ => ⟨_, rfl⟩) hdone))

/-- `PostgresEventStore.get_last` -/
theorem records_getLast (p t : Str) (l : List Obs)
    (Post : Option (Except Exc (Option Instant)) → List Obs → Prop) (hnow : Post none l)
    (hfault : ∀ fault, Post (some (.error (.dbapiError fault))) l)
    (hdone : ∀ r, Post (some r) (l ++ [.selected i (.last p t)])) :
    RecordsAt i Post (PostgresEventStore.getLast p t) l :=
  records_bind _ _ l (records_select i _ l _ hnow hfault
    (fun _ => records_scalar i _ _ _ _ (fun _ => ⟨_, rfl⟩) hdone))

/-- `PostgresEventStore.get_counts` -/
theorem records_getCounts (p : Str) (l : List Obs)
    (Post : Option (Except Exc (List (Str × Nat))) → List Obs → Prop) (hnow : Post none l)
    (hfault : ∀ fault, Post (some (.error (.dbapiError fault))) l)
    (hdone : ∀ r, Post (some r) (l ++ [.selected i (.counts p)])) :
    RecordsAt i Post (PostgresEventStore.getCounts p) l :=
  records_bind _ _ l (records_select i _ l _ hnow hfault (fun _ => hdone _))

/-- The loop of `get_package_summary`: a `SELECT` for each event type, until one
    fails. -/
theorem records_collectStats (name : Str) (counts : List (Str × Nat)) (types : List EventType)
    (l : List Obs)
    (Post : Option (Except Exc (List (EventType × PackageEventStats))) → List Obs → Prop)
    (h : ∀ o l', Selected i (types.map (fun t => .last name t.value)) l' → Post o (l ++ l')) :
    RecordsAt i Post (collectStats name counts types) l := by
  have hnow : ∀ o, Post o l := by
    intro o
    have := h o [] (selected_nil i _)
    rwa [List.append_nil] at this
  induction types generalizing l Post with
  | nil => exact hnow _
  | cons t types ih =>
      refine records_bind _ _ l (records_getLast i name t.value l _ (hnow _) (fun _ => hnow _) ?_)
      -- The rest of the loop extends what has been selected so far.
      have hrest : ∀ o l', Selected i (types.map (fun t => .last name t.value)) l' →
          Post o (l ++ [.selected i (.last name t.value)] ++ l') := by
        intro o l' hl'
        rw [List.append_assoc, List.singleton_append]
        exact h o _ (selected_cons i _ _ l' hl')
      have hnext : ∀ o, Post o (l ++ [.selected i (.last name t.value)]) := by
        intro o
        have := hrest o [] (selected_nil i _)
        rwa [List.append_nil] at this
      intro r
      cases r with
      | error x => exact hnext _
      | ok last =>
          refine records_bind _ _ _ (ih _ _ ?_ ?_)
          · intro o l' hl'
            cases o with
            | none => exact hrest none l' hl'
            | some r =>
                cases r with
                | error x => exact hrest _ l' hl'
                | ok events => exact hrest _ l' hl'
          · intro o
            cases o with
            | none => exact hnext none
            | some r =>
                cases r with
                | error x => exact hnext _
                | ok events => exact hnext _

/-- `get_package_summary` -/
theorem records_getPackageSummary (name : Str)
    (Post : Option (Except Exc PackageSummaryResponse) → List Obs → Prop)
    (hnow : ∀ l, FetchSteps dep i name none l → Post none l)
    (hraised : ∀ x l, FetchSteps dep i name (some (.error x)) l → Post (some (.error x)) l)
    (hreading : ∀ data l l' o, FetchSteps dep i name (some (.ok data)) l →
      Selected i (summaryQueries name) l' → Post o (l ++ l')) :
    RecordsAt i Post (getPackageSummary dep name) [] := by
  refine records_bind _ _ _ (records_fetch dep i name [] _ ?_)
  intro o l hl
  rw [List.nil_append]
  cases o with
  | none => exact hnow l hl
  | some r =>
      cases r with
      | error x => exact hraised x l hl
      | ok data =>
          have hnone : ∀ o, Post o l := by
            intro o
            have := hreading data l [] o hl (selected_nil i _)
            rwa [List.append_nil] at this
          refine records_bind _ _ l (records_getCounts i name l _ (hnone _) (fun _ => hnone _) ?_)
          -- The counts are the first `SELECT`, and those of the loop come after it.
          have hmore : ∀ l' o, Selected i (EventType.members.map (fun t => .last name t.value)) l' →
              Post o (l ++ [.selected i (.counts name)] ++ l') := by
            intro l' o hl'
            rw [List.append_assoc, List.singleton_append]
            exact hreading data l _ o hl (selected_cons i _ _ l' hl')
          intro r
          cases r with
          | error x =>
              have := hmore [] (some (.error x)) (selected_nil i _)
              rwa [List.append_nil] at this
          | ok counts =>
              refine records_bind _ _ _ (records_collectStats i name counts _ _ _ ?_)
              intro o l' hl'
              cases o with
              | none => exact hmore l' none hl'
              | some r =>
                  cases r with
                  | error x => exact hmore l' _ hl'
                  | ok events => exact records_fromExcept _ _ (hmore l' _ hl')

/-- `get_package` -/
theorem records_getPackage (name : Str)
    (Post : Option (Except Exc Response) → List Obs → Prop)
    (hnow : ∀ l, PackageSteps dep i name none l → Post none l)
    (hdone : ∀ resp l, PackageSteps dep i name (some resp) l → Post (some (.ok resp)) l)
    (hraised : ∀ exc l, PackageSteps dep i name (some (errorResponse exc)) l →
      Post (some (.error exc)) l) :
    RecordsAt i Post (getPackage dep name) [] := by
  refine records_tryCatch _ _ _ (records_bind _ _ _
    (records_getPackageSummary dep i name _ ?_ ?_ ?_))
  · exact fun l hl => hnow l (.fetching l hl)
  · exact fun x l hl => hraised _ l (.refused l x hl)
  · intro data l l' o hl hl'
    have hsteps : ∀ o, PackageSteps dep i name o (l ++ l') := fun o => .reading l l' data o hl hl'
    cases o with
    | none => exact hnow _ (hsteps none)
    | some r =>
        cases r with
        | error x => exact hraised _ _ (hsteps _)
        | ok summary => exact hdone _ _ (hsteps _)

/-- The framework turns what a route raises into a response. -/
theorem records_handle (route : Coroutine Response) (l : List Obs)
    (Post : Option (Except Exc Answer) → List Obs → Prop)
    (h : RecordsAt i (fun o l' => match o with
      | none => Post none l'
      | some (.ok resp) => Post (some (.ok (.http resp))) l'
      | some (.error exc) => Post (some (.ok (.http (errorResponse exc)))) l') route l) :
    RecordsAt i Post ((handle route).bind fun r => .ret (.http r)) l := by
  refine records_bind _ _ l (records_tryCatch _ _ l (records_mono ?_ _ l h))
  intro o l' ho
  cases o with
  | none => exact ho
  | some r =>
      cases r with
      | error x => exact ho
      | ok resp => exact ho

/-- The words of the routes. -/
theorem records_body (q : Request) :
    RecordsAt i (Steps dep i q) (q.body dep) [] := by
  cases q with
  | fetch p =>
      refine records_bind _ _ [] (records_fetch dep i p [] _ ?_)
      intro o l hl
      cases o with
      | none => exact ⟨none, hl, rfl⟩
      | some r =>
          cases r with
          | error x => exact ⟨_, hl, rfl⟩
          | ok v => exact ⟨_, hl, rfl⟩
  | postEvent e =>
      refine records_handle i _ [] _ (records_postEvent dep i e _ ?_ ?_ ?_)
      · exact fun l hl => ⟨none, hl, rfl⟩
      · exact fun resp l hl => ⟨_, hl, rfl⟩
      · exact fun exc l hl => ⟨_, hl, rfl⟩
  | getPackage name =>
      refine records_handle i _ [] _ (records_getPackage dep i name _ ?_ ?_ ?_)
      · exact fun l hl => ⟨none, hl, rfl⟩
      · exact fun resp l hl => ⟨_, hl, rfl⟩
      · exact fun exc l hl => ⟨_, hl, rfl⟩
  | getEventTotal name t =>
      refine records_handle i _ [] _ (records_bind _ _ [] (records_getTotal i name t.value [] _
        ?_ ?_ ?_))
      · exact selected_nil i _
      · exact fun _ => selected_nil i _
      · intro r
        cases r with
        | error x => exact selected_cons i _ [] [] (selected_nil i _)
        | ok total => exact selected_cons i _ [] [] (selected_nil i _)
  | getEventLast name t =>
      refine records_handle i _ [] _ (records_bind _ _ [] (records_getLast i name t.value [] _
        ?_ ?_ ?_))
      · exact selected_nil i _
      · exact fun _ => selected_nil i _
      · intro r
        cases r with
        | error x => exact selected_cons i _ [] [] (selected_nil i _)
        | ok last => exact selected_cons i _ [] [] (selected_nil i _)

end Words

section Reachable

variable (dep : Deployment)

/-- What a request has recorded of itself, by where it stands. -/
def LifeOf (i : Nat) (tr : List Obs) : Option (Task Eff Eff.Reply Exc Answer Request) → Prop
  | none => recordsOf i tr = []
  | some (.running q p) => ∃ l, recordsOf i tr = .started i q :: l ∧
      Steps dep i q p.outcome l
  | some (.answered q r) => ∃ l, recordsOf i tr
      = .started i q :: l ++ [.answered i q r] ∧ Steps dep i q (some r) l
  | some (.aborted q) => ∃ l o, recordsOf i tr = .started i q :: l ∧
      Steps dep i q o l

/-- The records of every request in every reachable state: its arrival, a word
    of its route, and its answer if it has one. -/
theorem life_of (c : ServerState) (hc : Reachable dep c) (i : Nat) :
    LifeOf dep i c.shared.trace (c.task i) := by
  have hkept := (serverLog dep).sound (Steps dep) (fun i q => records_body dep i q) boot rfl c hc i
  cases htask : c.task i with
  | none =>
      rw [htask] at hkept
      exact hkept
  | some t =>
      rw [htask] at hkept
      cases t with
      | running q p =>
          rcases hkept with ⟨l, hl, hrecords⟩
          exact ⟨l, hl, records_post p l hrecords⟩
      | answered q r =>
          rcases hkept with ⟨l, p, hl, hout, hrecords⟩
          have hpost := records_post p l hrecords
          rw [hout] at hpost
          exact ⟨l, hl, hpost⟩
      | aborted q =>
          rcases hkept with ⟨l, p, hl, hrecords⟩
          exact ⟨l, _, hl, records_post p l hrecords⟩

end Reachable

section Order

variable (dep : Deployment) (i : Nat)

/-- Where in the life of a request a record belongs. -/
def Obs.stage : Obs → Nat
  | .started _ _ => 0
  | .looked _ _ _ _ => 1
  | .upstream _ _ _ => 2
  | .stored _ _ _ _ => 3
  | .executed _ _ _ => 4
  | .committed _ _ => 5
  | .selected _ _ => 6
  | .answered _ _ _ => 7

/-- One record may follow the other. Only a `SELECT` may be followed by one of
    its kind. -/
def InOrder (x y : Obs) : Prop := x.stage < y.stage ∨ x.stage = 6 ∧ y.stage = 6

/-- What a request must have recorded before it makes a record: nothing of a
    later stage, and what gives it the right to. -/
def Due (own : List Obs) (x : Obs) : Prop :=
  (∀ y ∈ own, InOrder y x) ∧ match x with
    | .upstream _ _ _ => ∀ key value time, Obs.looked i key (some value) time ∉ own
    | .stored _ key value _ => ∃ p v, Obs.upstream i (packageUrl p) (found v) ∈ own ∧
        key = cacheKey p ∧ value = dep.dumps v
    | .executed _ _ _ => (∃ key value time, Obs.looked i key (some value) time ∈ own) ∨
        ∃ url v, Obs.upstream i url (found v) ∈ own
    | .committed _ _ => ∃ stmt id, Obs.executed i stmt id ∈ own
    | _ => True

/-- Records that are due, the last of which are of some stage at most. -/
structure DueTo (n : Nat) (own : List Obs) : Prop where
  due : Chronicle (Due dep i) own
  stage : ∀ x ∈ own, x.stage ≤ n

theorem dueTo_mono (m n : Nat) (own : List Obs) (hmn : m ≤ n) (h : DueTo dep i m own) :
    DueTo dep i n own :=
  ⟨h.due, fun x hx => (h.stage x hx).trans hmn⟩

/-- One more record. -/
theorem dueTo_concat (n : Nat) (own : List Obs) (x : Obs) (h : DueTo dep i n own)
    (hstage : n < x.stage) (hx : (∀ y ∈ own, InOrder y x) → Due dep i own x) :
    DueTo dep i x.stage (own ++ [x]) where
  due := chronicle_concat _ _ _ h.due
    (hx (fun y hy => Or.inl (Nat.lt_of_le_of_lt (h.stage y hy) hstage)))
  stage := by
    intro y hy
    rcases List.mem_append.mp hy with hy | hy
    · exact (h.stage y hy).trans hstage.le
    · rw [List.mem_singleton.mp hy]

theorem dueTo_started (q : Request) : DueTo dep i 0 [.started i q] where
  due := chronicle_concat _ _ _ (chronicle_nil _)
    ⟨fun y hy => absurd hy List.not_mem_nil, trivial⟩
  stage := by
    intro x hx
    rw [List.mem_singleton.mp hx]
    exact Nat.le_refl 0

/-- A lookup that found nothing leaves the request free to ask PyPI. -/
theorem dueTo_missed (q : Request) (key : Str) (l : List Obs) (h : Missed i key l) :
    DueTo dep i 1 (.started i q :: l) ∧
      ∀ key value time, Obs.looked i key (some value) time ∉ Obs.started i q :: l := by
  rcases h with rfl | ⟨time, rfl⟩
  · refine ⟨dueTo_mono dep i 0 1 _ (Nat.zero_le 1) (dueTo_started dep i q), ?_⟩
    intro key' value time hmem
    exact absurd (List.mem_singleton.mp hmem) (by simp only [reduceCtorEq, not_false_eq_true])
  · refine ⟨dueTo_concat dep i 0 _ (.looked i key none time) (dueTo_started dep i q)
      Nat.zero_lt_one (fun h => ⟨h, trivial⟩), ?_⟩
    intro key' value time' hmem
    simp only [List.mem_cons, reduceCtorEq, Obs.looked.injEq, List.not_mem_nil, false_and,
      and_false, or_self] at hmem

theorem dueTo_upstream (q : Request) (key url : Str) (reply : Except Exc HttpResponse)
    (l : List Obs) (h : Missed i key l) :
    DueTo dep i 2 (.started i q :: (l ++ [.upstream i url reply])) := by
  rcases dueTo_missed dep i q key l h with ⟨hdue, hno⟩
  exact dueTo_concat dep i 1 _ (.upstream i url reply) hdue (Nat.lt_succ_self 1)
    (fun h => ⟨h, hno⟩)

/-- The records of a fetch. If it returned, they give the right to go on to the
    statement. -/
theorem dueTo_fetch (q : Request) (p : Str) (o : Option (Except Exc Json)) (l : List Obs)
    (h : FetchSteps dep i p o l) : DueTo dep i 3 (.started i q :: l) ∧
      ∀ data, o = some (.ok data) → (∃ key value time, Obs.looked i key (some value) time ∈ l) ∨
        ∃ url v, Obs.upstream i url (found v) ∈ l := by
  cases h with
  | missed l hl =>
      refine ⟨dueTo_mono dep i 1 3 _ (by omega) (dueTo_missed dep i q _ l hl).1, ?_⟩
      exact fun data hdata => absurd hdata (by simp only [reduceCtorEq, not_false_eq_true])
  | hit value time =>
      refine ⟨dueTo_mono dep i 1 3 _ (by omega) (dueTo_concat dep i 0 _
        (.looked i (cacheKey p) (some value) time) (dueTo_started dep i q) Nat.zero_lt_one
        (fun h => ⟨h, trivial⟩)), fun data _ => ?_⟩
      exact Or.inl ⟨_, _, _, List.mem_singleton.mpr rfl⟩
  | rejected l hl _ =>
      refine ⟨dueTo_mono dep i 1 3 _ (by omega) (dueTo_missed dep i q _ l hl).1, ?_⟩
      exact fun data hdata => absurd hdata (by simp only [Option.some.injEq, reduceCtorEq,
        not_false_eq_true])
  | failed l reply x hl _ _ _ =>
      refine ⟨dueTo_mono dep i 2 3 _ (by omega) (dueTo_upstream dep i q _ _ reply l hl), ?_⟩
      exact fun data hdata => absurd hdata (by simp only [Option.some.injEq, reduceCtorEq,
        not_false_eq_true])
  | fetched l data hl _ =>
      refine ⟨dueTo_mono dep i 2 3 _ (by omega) (dueTo_upstream dep i q _ _ _ l hl), ?_⟩
      exact fun data hdata => absurd hdata (by simp only [reduceCtorEq, not_false_eq_true])
  | stored l l' data hl _ hl' =>
      have hup := dueTo_upstream dep i q (cacheKey p) (packageUrl p) (found data) l hl
      refine ⟨?_, fun data' _ => Or.inr ⟨packageUrl p, data, ?_⟩⟩
      · rcases hl' with rfl | ⟨time, rfl⟩
        · exact dueTo_mono dep i 2 3 _ (by omega) hup
        · have hstored := dueTo_concat dep i 2 _ (.stored i (cacheKey p) (dep.dumps data) time) hup
            (Nat.lt_succ_self 2) (fun h => ⟨h, p, data, List.mem_cons_of_mem _
              (List.mem_append_right _ (List.mem_singleton.mpr rfl)), rfl, rfl⟩)
          rw [List.cons_append, List.append_assoc, List.singleton_append] at hstored
          exact hstored
      · exact List.mem_append_right _ List.mem_cons_self

theorem dueTo_executed (e : EventIn) (q : Request) (l : List Obs) (data : Json) (id : Option Nat)
    (h : FetchSteps dep i e.package (some (.ok data)) l) :
    DueTo dep i 4 (.started i q :: (l ++ [.executed i e.stmt id])) := by
  rcases dueTo_fetch dep i q e.package _ l h with ⟨hdue, hright⟩
  refine dueTo_concat dep i 3 _ (.executed i e.stmt id) hdue (Nat.lt_succ_self 3) (fun h => ⟨h, ?_⟩)
  rcases hright data rfl with ⟨key, value, time, hmem⟩ | ⟨url, v, hmem⟩
  · exact Or.inl ⟨key, value, time, List.mem_cons_of_mem _ hmem⟩
  · exact Or.inr ⟨url, v, List.mem_cons_of_mem _ hmem⟩

theorem dueTo_post (e : EventIn) (q : Request) (o : Option Response) (l : List Obs)
    (h : PostSteps dep i e o l) : DueTo dep i 6 (.started i q :: l) := by
  have hfetch : ∀ o l, FetchSteps dep i e.package o l → DueTo dep i 6 (.started i q :: l) :=
    fun o l hl => dueTo_mono dep i 3 6 _ (by omega) (dueTo_fetch dep i q _ o l hl).1
  cases h with
  | fetching l hl => exact hfetch _ l hl
  | refused l x hl => exact hfetch _ l hl
  | fetched l data hl => exact hfetch _ l hl
  | failed l l' data hl hl' =>
      rcases hl' with rfl | ⟨id, rfl⟩
      · rw [List.append_nil]
        exact hfetch _ l hl
      · exact dueTo_mono dep i 4 6 _ (by omega) (dueTo_executed dep i e q l data id hl)
  | executed l data id hl =>
      exact dueTo_mono dep i 4 6 _ (by omega) (dueTo_executed dep i e q l data id hl)
  | committed l l' data id resp hl hl' _ =>
      have hexec := dueTo_executed dep i e q l data id hl
      rcases hl' with rfl | ⟨stmt, rfl⟩
      · exact dueTo_mono dep i 4 6 _ (by omega) hexec
      · have hcommit := dueTo_concat dep i 4 _ (.committed i stmt) hexec (Nat.lt_succ_self 4)
          (fun h => ⟨h, e.stmt, id, List.mem_cons_of_mem _
            (List.mem_append_right _ (List.mem_singleton.mpr rfl))⟩)
        rw [List.cons_append, List.append_assoc, List.singleton_append] at hcommit
        exact dueTo_mono dep i 5 6 _ (by omega) hcommit

/-- `SELECT`s may follow anything a request does before them, and each other. -/
theorem dueTo_selected (own : List Obs) (queries : List Query) (h : DueTo dep i 6 own) :
    DueTo dep i 6 (own ++ queries.map (Obs.selected i)) := by
  induction queries using List.reverseRecOn with
  | nil =>
      rw [List.map_nil, List.append_nil]
      exact h
  | append_singleton queries query ih =>
      rw [List.map_append, List.map_singleton, ← List.append_assoc]
      refine ⟨chronicle_concat _ _ _ ih.due ⟨fun y hy => ?_, trivial⟩, fun x hx => ?_⟩
      -- Whatever came before is of an earlier stage, or a `SELECT` itself.
      · have hstage := ih.stage y hy
        rcases Nat.lt_or_eq_of_le hstage with hlt | heq
        · exact Or.inl hlt
        · exact Or.inr ⟨heq, rfl⟩
      · rcases List.mem_append.mp hx with hx | hx
        · exact ih.stage x hx
        · rw [List.mem_singleton.mp hx]
          exact Nat.le_refl 6

theorem dueTo_steps (q : Request) (o : Option (Except Exc Answer)) (l : List Obs)
    (h : Steps dep i q o l) : DueTo dep i 6 (.started i q :: l) := by
  have hstarted := dueTo_mono dep i 0 6 _ (by omega) (dueTo_started dep i q)
  cases q with
  | fetch p =>
      rcases h with ⟨o', hl, _⟩
      exact dueTo_mono dep i 3 6 _ (by omega) (dueTo_fetch dep i _ p o' l hl).1
  | postEvent e =>
      rcases h with ⟨o', hl, _⟩
      exact dueTo_post dep i e _ o' l hl
  | getPackage name =>
      rcases h with ⟨o', hl, _⟩
      have hfetch : ∀ o l, FetchSteps dep i name o l →
          DueTo dep i 6 (.started i (.getPackage name) :: l) :=
        fun o l hl => dueTo_mono dep i 3 6 _ (by omega) (dueTo_fetch dep i _ name o l hl).1
      cases hl with
      | fetching l hl => exact hfetch _ l hl
      | refused l x hl => exact hfetch _ l hl
      | reading l l' data o hl hl' =>
          rcases hl' with ⟨done, _, rfl⟩
          exact dueTo_selected dep i _ done (hfetch _ l hl)
  | getEventTotal name t =>
      rcases h with ⟨done, _, rfl⟩
      exact dueTo_selected dep i _ done hstarted
  | getEventLast name t =>
      rcases h with ⟨done, _, rfl⟩
      exact dueTo_selected dep i _ done hstarted

/-- The records of every request in every reachable state are due. -/
theorem due_of (c : ServerState) (hc : Reachable dep c) :
    Chronicle (Due dep i) (recordsOf i c.shared.trace) := by
  have hlife := life_of dep c hc i
  cases htask : c.task i with
  | none =>
      rw [htask] at hlife
      rw [show recordsOf i c.shared.trace = [] from hlife]
      exact chronicle_nil _
  | some t =>
      rw [htask] at hlife
      cases t with
      | running q p =>
          rcases hlife with ⟨l, hl, hsteps⟩
          rw [hl]
          exact (dueTo_steps dep i q _ l hsteps).due
      | answered q r =>
          -- The answer is of the last stage, so it is due after anything.
          rcases hlife with ⟨l, hl, hsteps⟩
          rw [hl]
          exact (dueTo_concat dep i 6 _ (.answered i q r) (dueTo_steps dep i q _ l hsteps)
            (Nat.lt_succ_self 6) (fun h => ⟨h, trivial⟩)).due
      | aborted q =>
          rcases hlife with ⟨l, o, hl, hsteps⟩
          rw [hl]
          exact (dueTo_steps dep i q o l hsteps).due

/-- In every reachable state every request keeps to its protocol. What it has
    recorded is a word of its route. It looks into the cache, asks PyPI, writes
    to the cache, proposes its event and commits it at most once each, in this
    order, after its arrival and before its answer. It asks PyPI only if its
    lookup has not found anything, writes only the body of the 200 it was
    answered with, and proposes its event only after a hit or a 200 of its
    own. -/
theorem lifecycle (c : ServerState) (hc : Reachable dep c) :
    LifeOf dep i c.shared.trace (c.task i) ∧
      Chronicle (Due dep i) (recordsOf i c.shared.trace) :=
  ⟨life_of dep c hc i, due_of dep i c hc⟩

/-- The life of a fetch that missed. -/
theorem lifecycle_kivy : ∃ c, Reachable utcDeployment c ∧
    recordsOf 0 c.shared.trace ≠ [] ∧
    Chronicle (Due utcDeployment 0) (recordsOf 0 c.shared.trace) := by
  rcases warm_run utcDeployment (.object []) "kivy".toList "Kivy".toList (by decide) (by decide)
    (by decide) with ⟨c, hc, htrace, _⟩
  refine ⟨c, hc, ?_, (lifecycle utcDeployment 0 c hc).2⟩
  rw [htrace]
  exact List.cons_ne_nil _ _

end Order

end KingPi
