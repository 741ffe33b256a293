import KingPi.Theory.Lifecycle
import KingPi.Async.Monitor
import KingPi.Async.Simulation

/-!
# The Cache Shields PyPI

The cache is there so that PyPI is not asked again about a package within the
time to live. Two things stand between this and what the code does. A lookup
that fails is a miss, and Redis may drop a key when it likes; and requests that
miss at the same time all go to PyPI, since nobody waits for anybody. `steady` is
the server whose Redis answers every lookup and evicts nothing, and then the
second is all that is left: whoever asks PyPI has looked the package up before,
and at the time of that lookup every write for it, whoever made it and under
whatever spelling, had expired.

For this the cache has to be shown to be complete. `CacheInv` says that what it
holds was written in time; here it holds the last write for each key, and holds
it to the end.

## Main definitions

* `steady`: The server whose Redis answers every lookup and evicts nothing.
* `lastWrite`, `remembered`: The cache, read off the trace.
* `steadyPre`: What has to be recorded before a call.
* `SteadyInv`: The invariant.

## Theorems

* `free_body`: A request asks PyPI only after a miss, and writes with the time to
  live.
* `steadyInv_serve`: Every effect keeps the invariant.
* `cache_shields`: The cache is exact, and PyPI is asked only when it is empty.
-/

namespace KingPi

open Async Prog

/-- Is it a lookup that fails? -/
def Eff.failsLookup : Eff → Fate → Bool
  | .redisGet _, .fail _ _ => true
  | _, _ => false

variable (dep : Deployment)

/-- The server whose Redis answers every lookup and evicts nothing. -/
def steady : System Eff Eff.Reply Exc Answer Request Fate Env World :=
  { server dep with
    serve := fun i e o w => if e.failsLookup o then none else World.serve dep i e o w
    env := fun a w => match a with
      | .tick ms => World.env (.tick ms) w
      | .evict _ => none }

/-- The write of a key that a record is, and its time. -/
def Obs.write (key : Str) : Obs → Option (Str × Nat)
  | .stored _ key' value time => if key' = key then some (value, time) else none
  | _ => none

/-- The last write of a key. -/
def lastWrite (key : Str) (tr : List Obs) : Option (Str × Nat) :=
  (tr.filterMap (Obs.write key)).getLast?

/-- What the last write of a key has left at a time. -/
def remembered (key : Str) (tr : List Obs) (time : Nat) : Option Str :=
  match lastWrite key tr with
  | none => none
  | some (value, written) => if (time : Int) < written + 1000 * dep.ttlSeconds then some value
    else none

section Programs

variable (i : Nat)

/-- What a call of a request can record when no lookup fails. -/
def Eff.SteadyNotes (e : Eff) (r : Except Exc e.Reply) (l : List Obs) : Prop :=
  e.Notes i r l ∧ ∀ key, e = .redisGet key → l ≠ []

/-- What has to be recorded before a call: PyPI is asked about a package that was
    looked up and not found. A write has the time to live. -/
def steadyPre : Eff → List Obs → Prop
  | .httpGet url, own => ∃ p time, url = packageUrl p ∧ .looked i (cacheKey p) none time ∈ own
  | .redisSet _ _ ex, _ => ex = dep.ttlSeconds
  | _, _ => True

/-- A coroutine of request `i`, under the monitor of its records. -/
abbrev Shielded {α : Type} (Post : Except Exc α → List Obs → Prop) (p : Coroutine α)
    (own : List Obs) : Prop :=
  Watched Appends (Eff.SteadyNotes i) (steadyPre dep i) Post p own

/-- A coroutine that makes each of its calls in order. -/
def Free {α : Type} (p : Coroutine α) : Prop := ∀ own, Shielded dep i (fun _ _ => True) p own

variable {dep i}

theorem free_only {α : Type} (p : Coroutine α)
    (h : Only (fun e => ∀ own, steadyPre dep i e own) p) : Free dep i p :=
  fun own => watched_only p own h

theorem free_bind {α β : Type} (p : Coroutine α) (f : α → Coroutine β) (hp : Free dep i p)
    (hf : ∀ a, Free dep i (f a)) : Free dep i (p.bind f) := by
  intro own
  refine watched_bind p f own (watched_mono (fun r own' _ => ?_) p own (hp own))
  cases r with
  | ok a => exact hf a own'
  | error x => trivial

theorem free_tryCatch {α : Type} (p : Coroutine α) (f : Exc → Coroutine α) (hp : Free dep i p)
    (hf : ∀ x, Free dep i (f x)) : Free dep i (p.tryCatch f) := by
  intro own
  refine watched_tryCatch p f own (watched_mono (fun r own' _ => ?_) p own (hp own))
  cases r with
  | ok a => trivial
  | error x => exact hf x own'

theorem free_ret {α : Type} (a : α) : Free dep i (ret a) := fun _ => trivial

theorem free_raise {α : Type} (x : Exc) : Free dep i (raise x : Coroutine α) := fun _ => trivial

theorem free_fromExcept {α : Type} (r : Except Exc α) : Free dep i (fromExcept r) :=
  free_only _ (only_fromExcept r)

/-- A call of the database. -/
theorem free_call (e : Eff) (h : ∀ own, steadyPre dep i e own) : Free dep i (call e) :=
  free_only _ (only_call e h)

/-- A lookup is recorded with what it finds. -/
theorem shielded_cacheGet (key : Str) (own : List Obs) :
    Shielded dep i (fun r own' => ∀ hit, r = .ok hit → ∃ time, .looked i key hit time ∈ own')
      (RedisTTLCache.get key) own := by
  refine watched_tryCatch _ _ own (watched_call (Eff.redisGet key) own trivial ?_)
  rintro r l ⟨hnotes, hne⟩
  refine ⟨own ++ l, replays_appends own l, ?_⟩
  -- No lookup fails, so the one that leaves no record is not there.
  rcases hnotes with ⟨hit, time, rfl, rfl⟩ | ⟨_, rfl⟩
  · intro hit' hhit
    cases hhit
    exact ⟨time, List.mem_append_right _ (List.mem_singleton.mpr rfl)⟩
  · exact absurd rfl (hne key rfl)

theorem free_cacheSet (key value : Str) :
    Free dep i (RedisTTLCache.set key value dep.ttlSeconds) := by
  refine free_tryCatch _ _ (free_call _ (fun _ => rfl)) (fun exc => ?_)
  split
  · exact free_ret _
  · exact free_raise _

/-- PyPI is asked only about a package that has just been missed. -/
theorem free_fetch (p : Str) : Free dep i (PyPICacheClient.fetchPackageInfo dep p) := by
  intro own
  refine watched_bind _ _ own (watched_mono (fun r own' hr => ?_) _ own
    (shielded_cacheGet (cacheKey p) own))
  cases r with
  | error x => trivial
  | ok hit =>
      rcases hr hit rfl with ⟨time, hlooked⟩
      cases hit with
      | some value => exact free_fromExcept _ own'
      | none =>
          -- Whatever the client below returns is written under the same key.
          have hset : ∀ data : Json, Free dep i ((RedisTTLCache.set (cacheKey p) (dep.dumps data)
              dep.ttlSeconds).bind fun _ => ret data) :=
            fun data => free_bind _ _ (free_cacheSet _ _) (fun _ => free_ret _)
          refine watched_bind _ _ own' ?_
          cases hvalid : isValidPackage p with
          | false =>
              rw [PyPIClient.fetchPackageInfo_invalid p hvalid]
              trivial
          | true =>
              rw [PyPIClient.fetchPackageInfo_valid p hvalid]
              refine watched_bind _ _ own' (watched_call (Eff.httpGet (packageUrl p)) own'
                ⟨p, time, rfl, hlooked⟩ (fun r l _ => ⟨_, replays_appends own' l, ?_⟩))
              cases r with
              | error x => trivial
              | ok response =>
                  dsimp only
                  split
                  · refine watched_mono (fun r own'' _ => ?_) _ _ (free_fromExcept _ _)
                    cases r with
                    | error x => trivial
                    | ok data => exact hset data own''
                  · split
                    · trivial
                    · trivial

theorem free_getLast (p t : Str) : Free dep i (PostgresEventStore.getLast p t) :=
  free_bind _ _ (free_call _ (fun _ => trivial))
    (fun _ => free_bind _ _ (free_fromExcept _) (fun _ => free_ret _))

theorem free_getTotal (p t : Str) : Free dep i (PostgresEventStore.getTotal p t) :=
  free_bind _ _ (free_call _ (fun _ => trivial))
    (fun _ => free_bind _ _ (free_fromExcept _) (fun _ => free_ret _))

theorem free_collectStats (name : Str) (counts : List (Str × Nat)) (types : List EventType) :
    Free dep i (collectStats name counts types) := by
  induction types with
  | nil => exact free_ret _
  | cons t types ih =>
      exact free_bind _ _ (free_getLast _ _) (fun _ => free_bind _ _ ih (fun _ => free_ret _))

theorem free_getPackageSummary (name : Str) : Free dep i (getPackageSummary dep name) := by
  refine free_bind _ _ (free_fetch name) (fun data => ?_)
  refine free_bind _ _ ?_ (fun counts => ?_)
  · exact free_bind _ _ (free_call _ (fun _ => trivial)) (fun _ => free_ret _)
  · exact free_bind _ _ (free_collectStats _ _ _) (fun _ => free_fromExcept _)

theorem free_handle (route : Coroutine Response) (h : Free dep i route) :
    Free dep i ((handle route).bind fun r => ret (Answer.http r)) :=
  free_bind _ _ (free_tryCatch _ _ h (fun _ => free_ret _)) (fun _ => free_ret _)

/-- A request asks PyPI only after a miss, and writes with the time to live. -/
theorem free_body (q : Request) : Free dep i (q.body dep) := by
  cases q with
  | fetch p => exact free_bind _ _ (free_fetch p) (fun _ => free_ret _)
  | postEvent e =>
      refine free_handle _ (free_bind _ _ (free_tryCatch _ _ (free_fetch _) (fun _ => free_raise _))
        (fun _ => free_bind _ _ ?_ (fun _ => free_ret _)))
      exact free_bind _ _ (free_call _ (fun _ => trivial)) (fun _ => free_call _ (fun _ => trivial))
  | getPackage name =>
      exact free_handle _ (free_tryCatch _ _
        (free_bind _ _ (free_getPackageSummary name) (fun _ => free_ret _)) (fun _ => free_raise _))
  | getEventTotal name t =>
      exact free_handle _ (free_bind _ _ (free_getTotal _ _) (fun _ => free_ret _))
  | getEventLast name t =>
      exact free_handle _ (free_bind _ _ (free_getLast _ _) (fun _ => free_ret _))

end Programs

section Effects

variable {dep}

theorem steady_serve (i : Nat) (e : Eff) (o : Fate) (w w' : World) (r : Except Exc e.Reply)
    (h : (steady dep).serve i e o w = some (r, w')) :
    e.failsLookup o = false ∧ World.serve dep i e o w = some (r, w') := by
  have h : (if e.failsLookup o = true then none else World.serve dep i e o w) = some (r, w') := h
  split at h
  · cases h
  · rename_i hfails
    exact ⟨Bool.eq_false_iff.mpr hfails, h⟩

/-- A lookup is answered. -/
theorem steady_redisGet (i : Nat) (key : Str) (o : Fate) (w w' : World)
    (r : Except Exc (Option Str)) (h : (steady dep).serve i (.redisGet key) o w = some (r, w')) :
    r = .ok (w.live key) ∧ w' = w.log (.looked i key (w.live key) w.now) := by
  rcases steady_serve i (.redisGet key) o w w' r h with ⟨hfails, hserve⟩
  cases o with
  | ok =>
      cases hserve
      exact ⟨rfl, rfl⟩
  | http response => cases hserve
  | fail exc effect => cases hfails

theorem steady_env (a : Env) (w w' : World) (h : (steady dep).env a w = some w') :
    ∃ ms, w' = { w with now := w.now + ms } := by
  cases a with
  | tick ms =>
      cases h
      exact ⟨ms, rfl⟩
  | evict key => cases h

/-- It is the server, in some of its runs. -/
theorem reachable_of_steady (c : ServerState) (hc : Reaches (steady dep) (Config.init boot) c) :
    Reachable dep c := by
  induction hc with
  | refl => exact Reaches.refl
  | step c d l _ hl ih =>
      refine reaches_trans ih ?_
      cases step_cases c d l hl with
      | start i q hfree => exact (StepOf.start (S := server dep) i q hfree).reaches
      | act i o q e k r w htask hserve =>
          have hplain := (steady_serve i e o _ w r hserve).2
          exact (StepOf.act (S := server dep) i o q e k r w htask hplain).reaches
      | answer i q p r htask hout =>
          exact (StepOf.answer (S := server dep) i q p r htask hout).reaches
      | abort i q p htask => exact (StepOf.abort (S := server dep) i q p htask).reaches
      | env a w henv =>
          cases a with
          | tick ms => exact (StepOf.env (S := server dep) (.tick ms) w henv).reaches
          | evict key => cases henv

variable (dep) in
/-- The trace as the log of the tasks. -/
def steadyLog : Logged (steady dep) Obs where
  log w := w.trace
  owner := Obs.owner
  started := .started
  answered := .answered
  notes i e r l := e.SteadyNotes i r l
  owner_started := (serverLog dep).owner_started
  owner_answered := (serverLog dep).owner_answered
  owner_notes i e r l h := notes_owner i e r l h.1
  start_log _ _ _ := rfl
  serve_log i e o w r w' h := by
    rcases steady_serve i e o w w' r h with ⟨_, hserve⟩
    rcases serve_notes dep i e o w w' r hserve with ⟨l, hl, htrace⟩
    refine ⟨l, ⟨hl, ?_⟩, htrace⟩
    rintro key rfl rfl
    -- An answered lookup leaves a record.
    rw [(steady_redisGet i key o w w' r h).2] at htrace
    exact absurd (List.append_cancel_left htrace) (List.cons_ne_nil _ _)
  answer_log _ _ _ _ := rfl
  abort_log _ _ := rfl
  env_log a w w' h := by
    rcases steady_env a w w' h with ⟨ms, rfl⟩
    rfl

/-- What a request has recorded before the call it is about to make. -/
theorem pre_of (c : ServerState) (hc : Reaches (steady dep) (Config.init boot) c) (i : Nat)
    (q : Request) (e : Eff) (k : Except Exc e.Reply → Coroutine Answer)
    (htask : c.task i = some (.running q (.await e k))) :
    ∃ own, own ⊆ c.shared.trace ∧ steadyPre dep i e own := by
  have hkept := (steadyLog dep).watched Appends (fun i => steadyPre dep i) (fun _ _ => [])
    (fun _ _ _ _ => True) (fun i q => free_body q []) boot rfl c hc i
  rw [htask] at hkept
  rcases hkept with ⟨l, hl, m, hm, hwatched⟩
  refine ⟨m, fun x hx => ?_, hwatched.1⟩
  rw [appends_of_replays _ _ _ hm, List.nil_append] at hx
  have hmem : x ∈ (steadyLog dep).of i c.shared.trace := by
    rw [show (steadyLog dep).of i c.shared.trace = _ from hl]
    exact List.mem_cons_of_mem _ hx
  exact ((steadyLog dep).mem_of i _ x).mp hmem |>.1

end Effects

section Cache

/-- What a record says about the ones before it, if Redis is steady: time does not
    go back, a lookup finds the last write, and PyPI is asked after a miss. -/
def Obs.Steady (tr : List Obs) : Obs → Prop
  | .stored _ _ _ time => ∀ j key value written, .stored j key value written ∈ tr → written ≤ time
  | .looked _ key hit time => hit = remembered dep key tr time
  | .upstream i url _ => ∃ p time, url = packageUrl p ∧ .looked i (cacheKey p) none time ∈ tr
  | _ => True

/-- Redis holds the last write of each key. -/
structure SteadyInv (w : World) : Prop where
  entries : ∀ key, w.redis key = (lastWrite key w.trace).map fun x =>
    { value := x.1, expireAt := x.2 + 1000 * dep.ttlSeconds }
  times : ∀ i key value time, .stored i key value time ∈ w.trace → time ≤ w.now
  history : Chronicle (Obs.Steady dep) w.trace

variable {dep}

theorem live_remembered (w : World) (h : SteadyInv dep w) (key : Str) :
    w.live key = remembered dep key w.trace w.now := by
  rw [World.live, remembered, h.entries key]
  cases lastWrite key w.trace with
  | none => rfl
  | some x => rfl

theorem lastWrite_other (key : Str) (tr : List Obs) (o : Obs) (h : o.write key = none) :
    lastWrite key (tr ++ [o]) = lastWrite key tr := by
  rw [lastWrite, List.filterMap_append, List.filterMap_cons_none h, List.filterMap_nil,
    List.append_nil, lastWrite]

theorem lastWrite_self (key value : Str) (tr : List Obs) (i time : Nat) :
    lastWrite key (tr ++ [.stored i key value time]) = some (value, time) := by
  have hwrite : (Obs.stored i key value time).write key = some (value, time) := if_pos rfl
  rw [lastWrite, List.filterMap_append, List.filterMap_cons_some hwrite, List.filterMap_nil,
    List.getLast?_concat]

/-- Every write of a key is as old as the last one, or older. -/
theorem lastWrite_latest (key value : Str) (tr : List Obs) (i written : Nat)
    (h : Chronicle (Obs.Steady dep) tr) (hmem : .stored i key value written ∈ tr) :
    ∃ value' time, lastWrite key tr = some (value', time) ∧ written ≤ time := by
  induction tr using List.reverseRecOn with
  | nil => exact absurd hmem List.not_mem_nil
  | append_singleton tr x ih =>
      have hx := chronicle_at _ _ tr x h (List.prefix_refl _)
      have hpast := chronicle_past _ _ tr (List.prefix_append tr [x]) h
      rcases List.mem_append.mp hmem with hold | hnew
      -- An old write, and a record after it: another write of the key, which is not
      -- older, or anything else, which leaves the last write as it was.
      · rcases ih hpast hold with ⟨value', time, hlast, hle⟩
        cases hwrite : x.write key with
        | none =>
            rw [lastWrite_other key tr x hwrite]
            exact ⟨value', time, hlast, hle⟩
        | some write =>
            cases x with
            | stored j key' value'' time' =>
                obtain rfl := (of_ite_some hwrite).1
                exact ⟨value'', time', lastWrite_self key' value'' tr j time',
                  hx i key' value written hold⟩
            | _ => cases hwrite
      · rw [← List.mem_singleton.mp hnew]
        exact ⟨value, written, lastWrite_self key value tr i written, Nat.le_refl _⟩

/-- A step that leaves Redis and the trace alone. -/
theorem steadyInv_same (w w' : World) (hredis : w'.redis = w.redis) (hnow : w.now ≤ w'.now)
    (htrace : w'.trace = w.trace) (h : SteadyInv dep w) : SteadyInv dep w' where
  entries key := by
    rw [hredis, htrace]
    exact h.entries key
  times i key value time hmem := by
    rw [htrace] at hmem
    exact (h.times i key value time hmem).trans hnow
  history := by
    rw [htrace]
    exact h.history

/-- A record that is not a write. -/
theorem steadyInv_record (w w' : World) (o : Obs) (hredis : w'.redis = w.redis)
    (hnow : w.now ≤ w'.now) (htrace : w'.trace = w.trace ++ [o])
    (hwrite : ∀ key, o.write key = none) (ho : Obs.Steady dep w.trace o) (h : SteadyInv dep w) :
    SteadyInv dep w' where
  entries key := by
    rw [hredis, htrace, lastWrite_other key _ o (hwrite key)]
    exact h.entries key
  times i key value time hmem := by
    rw [htrace] at hmem
    rcases List.mem_append.mp hmem with hmem | hmem
    · exact (h.times i key value time hmem).trans hnow
    · have hnone := hwrite key
      rw [← List.mem_singleton.mp hmem] at hnone
      exact absurd ((if_pos rfl).symm.trans hnone) (Option.some_ne_none _)
  history := by
    rw [htrace]
    exact chronicle_concat _ _ _ h.history ho

/-- A write, with the time to live. -/
theorem steadyInv_store (w : World) (i : Nat) (key value : Str) (h : SteadyInv dep w) :
    SteadyInv dep (w.store i key value dep.ttlSeconds) where
  entries key' := by
    change (if key' = key then _ else w.redis key') = (lastWrite key' (w.trace ++ [_])).map _
    -- The entry of the key is the write, the others are as they were.
    by_cases hkey : key' = key
    · subst hkey
      rw [if_pos rfl, lastWrite_self]
      rfl
    · have hwrite : (Obs.stored i key value w.now).write key' = none := if_neg (Ne.symm hkey)
      rw [if_neg hkey, lastWrite_other key' _ _ hwrite]
      exact h.entries key'
  times i' key' value' time hmem := by
    rcases List.mem_append.mp hmem with hmem | hmem
    · exact h.times i' key' value' time hmem
    · cases List.mem_singleton.mp hmem
      exact Nat.le_refl _
  history := chronicle_concat _ _ _ h.history
    (fun j key' value' written => h.times j key' value' written)

theorem steadyInv_commit (w : World) (i : Nat) (h : SteadyInv dep w) :
    SteadyInv dep (w.commit i) := by
  rcases commit_eq w i with ⟨_, heq⟩ | ⟨x, l, _, heq⟩
  · rw [heq]
    exact h
  · rw [heq]
    exact steadyInv_record w _ (.committed i x.stmt) rfl (Nat.le_refl _) rfl (fun _ => rfl)
      trivial h

/-- Every effect keeps the invariant, if what it needs has been recorded. -/
theorem steadyInv_serve (i : Nat) (e : Eff) (o : Fate) (w w' : World) (r : Except Exc e.Reply)
    (hserve : (steady dep).serve i e o w = some (r, w'))
    (hpre : ∃ own, own ⊆ w.trace ∧ steadyPre dep i e own) (h : SteadyInv dep w) :
    SteadyInv dep w' := by
  have hplain := (steady_serve i e o w w' r hserve).2
  have hrecord : ∀ (o : Obs) (w' : World), w'.redis = w.redis → w'.now = w.now →
      w'.trace = w.trace ++ [o] → (∀ key, o.write key = none) → Obs.Steady dep w.trace o →
      SteadyInv dep w' := fun o w' hredis hnow htrace hwrite ho =>
    steadyInv_record w w' o hredis (Nat.le_of_eq hnow.symm) htrace hwrite ho h
  cases e with
  | redisGet key =>
      rw [(steady_redisGet i key o w w' r hserve).2]
      exact hrecord _ _ rfl rfl rfl (fun _ => rfl) (live_remembered w h key)
  | redisSet key value ex =>
      -- The write has the time to live, as was required before it.
      rcases hpre with ⟨_, _, hex⟩
      obtain rfl : ex = dep.ttlSeconds := hex
      rcases serve_redisSet dep i key value _ o w w' r hplain with ⟨_, rfl | ⟨_, rfl⟩⟩
      · exact h
      · exact steadyInv_store w i key value h
  | httpGet url =>
      rcases hpre with ⟨own, hown, p, time, rfl, hlooked⟩
      rw [(serve_httpGet dep i _ o w w' r hplain).1]
      exact hrecord _ _ rfl rfl rfl (fun _ => rfl) ⟨p, time, rfl, hown hlooked⟩
  | execute stmt =>
      rcases serve_execute dep i stmt o w w' r hplain with
        ⟨_, _, row, db, _, rfl⟩ | ⟨_, rfl | rfl⟩
      · exact hrecord _ _ rfl rfl rfl (fun _ => rfl) trivial
      · exact h
      · exact hrecord _ _ rfl rfl rfl (fun _ => rfl) trivial
  | commit =>
      rcases serve_commit dep i o w w' r hplain with ⟨_, rfl⟩ | ⟨_, rfl | rfl⟩
      · exact steadyInv_commit w i h
      · exact steadyInv_commit w i h
      · exact steadyInv_same w _ rfl (Nat.le_refl _) rfl h
  | select query =>
      rcases serve_select dep i query o w w' r hplain with ⟨_, rfl⟩ | ⟨_, rfl⟩
      · exact hrecord _ _ rfl rfl rfl (fun _ => rfl) trivial
      · exact h

variable (dep)

theorem steadyInv_of (c : ServerState) (hc : Reaches (steady dep) (Config.init boot) c) :
    SteadyInv dep c.shared := by
  induction hc with
  | refl =>
      exact ⟨fun _ => rfl, fun _ _ _ _ hmem => absurd hmem List.not_mem_nil, chronicle_nil _⟩
  | step c d l hc hl ih =>
      cases step_cases c d l hl with
      | start i q _ =>
          exact steadyInv_record c.shared _ (.started i q) rfl (Nat.le_refl _) rfl (fun _ => rfl)
            trivial ih
      | act i o q e k r w htask hserve =>
          exact steadyInv_serve i e o _ w r hserve (pre_of c hc i q e k htask) ih
      | answer i q p r _ _ =>
          exact steadyInv_record c.shared _ (.answered i q r) rfl (Nat.le_refl _) rfl (fun _ => rfl)
            trivial ih
      | abort i q p _ => exact steadyInv_same c.shared _ rfl (Nat.le_refl _) rfl ih
      | env a w henv =>
          rcases steady_env a _ w henv with ⟨ms, rfl⟩
          exact steadyInv_same c.shared _ rfl (Nat.le_add_right _ _) rfl ih

/-- As long as Redis answers its lookups and evicts nothing, the cache is exact: at
    any time it has for each key what was written last, for the time to live and
    not longer. So a lookup finds just that, and a request goes to PyPI only after
    a lookup of its own, at the time of which all that was ever written for the
    package had expired. -/
theorem cache_shields (c : ServerState) (hc : Reaches (steady dep) (Config.init boot) c) :
    Reachable dep c ∧
      (∀ key, c.shared.live key = remembered dep key c.shared.trace c.shared.now) ∧
      (∀ A i key hit time, A ++ [.looked i key hit time] <+: c.shared.trace →
        hit = remembered dep key A time) ∧
      ∀ A i url reply, A ++ [.upstream i url reply] <+: c.shared.trace →
        ∃ (p : Str) (time : Nat) (A₀ : List Obs), url = packageUrl p ∧
          A₀ ++ [.looked i (cacheKey p) none time] <+: A ∧
          ∀ j value (written : Nat), .stored j (cacheKey p) value written ∈ A₀ →
            written + 1000 * dep.ttlSeconds ≤ time := by
  have hinv := steadyInv_of dep c hc
  refine ⟨reachable_of_steady c hc, live_remembered _ hinv,
    fun A i key hit time hA => chronicle_at _ _ A _ hinv.history hA, fun A i url reply hA => ?_⟩
  -- The request was preceded by a lookup of its own that found nothing.
  have hpast := chronicle_past _ _ A ((List.prefix_append A _).trans hA) hinv.history
  rcases chronicle_at _ _ A _ hinv.history hA with ⟨p, time, rfl, hlooked⟩
  rcases chronicle_mem _ _ _ hpast hlooked with ⟨A₀, hA₀, hmiss⟩
  refine ⟨p, time, A₀, rfl, hA₀, fun j value written hmem => ?_⟩
  have hpast₀ := chronicle_past _ _ A₀ ((List.prefix_append A₀ _).trans hA₀) hpast
  rcases lastWrite_latest _ _ A₀ j written hpast₀ hmem with ⟨value', written', hlast, hle⟩
  -- Not even the last write had anything left.
  have hmiss : none = remembered dep (cacheKey p) A₀ time := hmiss
  simp only [remembered, hlast] at hmiss
  split at hmiss
  · cases hmiss
  · omega

/-- A fetch, and another one under another spelling when the first has expired. -/
def kivyExpires : List (Label Request Fate Env) :=
  [.start 0 (.fetch "kivy".toList), .act 0 .ok,
    .act 0 (.http { statusCode := 200, body := some (.object []) }), .act 0 .ok, .answer 0,
    .env (.tick 300000), .start 1 (.fetch "Kivy".toList), .act 1 .ok,
    .act 1 (.http { statusCode := 200, body := some (.object []) })]

/-- The second one goes to PyPI, five minutes after the write. -/
theorem cache_shields_kivy : ∃ c A, Reaches (steady utcDeployment) (Config.init boot) c ∧
    A ++ [.upstream 1 (packageUrl "Kivy".toList) (found (.object []))] <+: c.shared.trace ∧
    ∃ (p : Str) (time : Nat) (A₀ : List Obs), packageUrl "Kivy".toList = packageUrl p ∧
      A₀ ++ [.looked 1 (cacheKey p) none time] <+: A ∧
      ∀ j value (written : Nat), .stored j (cacheKey p) value written ∈ A₀ →
        written + 1000 * utcDeployment.ttlSeconds ≤ time := by
  rcases reaches_of_run_map kivyExpires (Config.init boot) (fun c : ServerState => c.shared.trace) _
    (show (run (steady utcDeployment) _ _).map _ = some ([_, _, _, _, _, _, _] ++ [_]) from rfl)
    with ⟨c, hc, htrace⟩
  refine ⟨c, _, hc, ⟨[], (List.append_nil _).trans htrace.symm⟩, ?_⟩
  exact (cache_shields utcDeployment c hc).2.2.2 _ 1 _ (found (.object []))
    ⟨[], (List.append_nil _).trans htrace.symm⟩

end Cache

end KingPi
