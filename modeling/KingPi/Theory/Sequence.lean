import KingPi.Theory.Runs
import Mathlib.Data.List.Dedup
import Mathlib.Data.List.Perm.Subperm

/-!
# The Sequence Behind the Table

Every upsert proposes a row, and every proposed row draws an identifier from
the sequence, whether or not the row is inserted in the end. So the sequence
counts the statements that reached the database and not the rows, up to the
point where it has nothing left to give.

`sequence_inv` is that fact for every reachable state, and `ids_suffice_iff`
draws the consequences. The identifiers keep within the number of pairs
recorded only if no pair is proposed twice and no statement is lost on the way
to its commit. Statements begin to fail for want of an identifier with number
2 ^ 31, however few the pairs are and however small their counts.

## Main definitions

* `Refused`: A statement failed for want of an identifier.
* `SequenceInv`: The sequence as the trace tells it.
* `Standing`, `NoneLost`: Statements that were committed, or still can be.
* `recordedPairs`: The pairs recorded.
* `IdsSuffice`: The identifiers keep within the number of pairs.

## Theorems

* `sequence_inv`: The sequence counts the attempts.
* `standing_attempted`: What stands was an attempt once.
* `recordedPairs_closed`: With no open transaction only commits count.
* `ids_suffice_iff`: When the identifiers suffice.
* `ids_exhausted`: Two pairs use up the sequence.
* `id_lost`: A statement that is lost takes an identifier with it.
-/

namespace KingPi

open Async Prog

variable (dep : Deployment)

/-- A statement failed for want of an identifier. -/
def Refused (tr : List Obs) : Prop := ∃ i stmt, Obs.executed i stmt none ∈ tr

/-- The sequence as the trace tells it: it has given an identifier to every
    attempt, until there were none left. -/
structure SequenceInv (drawn : Nat) (tr : List Obs) : Prop where
  drawn : drawn = min (attempts tr).length maxInteger
  refused : Refused tr ↔ maxInteger < (attempts tr).length

/-- The statement of a request was committed, or its transaction is open. -/
def Standing (w : World) (i : Nat) (stmt : Upsert) : Prop :=
  Obs.committed i stmt ∈ w.trace ∨ ∃ x ∈ w.db.pending, x.owner = i ∧ x.stmt = stmt

/-- Every statement that reached the database was committed, or still can be. -/
def NoneLost (w : World) : Prop :=
  ∀ i stmt id, Obs.executed i stmt id ∈ w.trace → Standing w i stmt

/-- The pairs recorded: those of the statements that were committed, and of
    those that are in an open transaction. When no transaction is open they
    are the committed ones. -/
def recordedPairs (w : World) : List (Str × Str) :=
  (commits w.trace ++ w.db.pending.map Pending.stmt).map Upsert.key

/-- No statement has failed for want of an identifier, and the identifiers
    drawn are no more than the pairs recorded. -/
structure IdsSuffice (w : World) : Prop where
  served : ¬ Refused w.trace
  bounded : w.db.drawn ≤ (recordedPairs w).dedup.length

section Steps

theorem refused_append (tr tr' : List Obs) :
    Refused (tr ++ tr') ↔ Refused tr ∨ Refused tr' := by
  constructor
  · rintro ⟨i, stmt, hmem⟩
    rcases List.mem_append.mp hmem with hmem | hmem
    · exact Or.inl ⟨i, stmt, hmem⟩
    · exact Or.inr ⟨i, stmt, hmem⟩
  · rintro (⟨i, stmt, hmem⟩ | ⟨i, stmt, hmem⟩)
    · exact ⟨i, stmt, List.mem_append_left _ hmem⟩
    · exact ⟨i, stmt, List.mem_append_right _ hmem⟩

/-- A record of anything else leaves the sequence where it is. -/
theorem sequenceInv_other (n : Nat) (tr : List Obs) (o : Obs) (ho : o.attempt = none)
    (h : SequenceInv n tr) : SequenceInv n (tr ++ [o]) := by
  have hattempts : attempts (tr ++ [o]) = attempts tr := by
    rw [attempts_append, attempts, attempts, List.filterMap_cons_none ho, List.filterMap_nil,
      List.append_nil]
  have hrefused : ¬ Refused [o] := by
    rintro ⟨i, stmt, hmem⟩
    rw [← List.mem_singleton.mp hmem] at ho
    exact absurd ho (by simp only [Obs.attempt, reduceCtorEq, not_false_eq_true])
  refine ⟨?_, ?_⟩
  · rw [hattempts]
    exact h.drawn
  · rw [hattempts, refused_append, or_iff_left hrefused]
    exact h.refused

/-- A statement that reaches the database draws an identifier, or is refused
    because there is none. -/
theorem sequenceInv_execute (db : Database) (tr : List Obs) (i : Nat) (stmt : Upsert)
    (h : SequenceInv db.drawn tr) :
    SequenceInv db.draw.drawn (tr ++ [.executed i stmt db.nextval]) := by
  have hdrawn := h.drawn
  have hrefused := h.refused
  have hlen : (attempts (tr ++ [.executed i stmt db.nextval])).length
      = (attempts tr).length + 1 := by
    rw [attempts_append, List.length_append]
    rfl
  by_cases hmax : db.drawn = maxInteger
  · -- Nothing left: the attempt is one too many.
    refine ⟨?_, ?_⟩
    · rw [Database.draw, if_pos hmax, hlen]
      omega
    · rw [hlen, Database.nextval, if_pos hmax, refused_append]
      exact iff_of_true (Or.inr ⟨i, stmt, List.mem_singleton.mpr rfl⟩) (by omega)
  · have hgiven : ¬ Refused [.executed i stmt (some (db.drawn + 1))] := by
      rintro ⟨j, stmt', hmem⟩
      exact absurd (List.mem_singleton.mp hmem) (by simp only [Obs.executed.injEq, reduceCtorEq,
        and_false, not_false_eq_true])
    refine ⟨?_, ?_⟩
    · rw [Database.draw, if_neg hmax, hlen]
      simp only
      omega
    · rw [hlen, Database.nextval, if_neg hmax, refused_append, or_iff_left hgiven, hrefused]
      omega

/-- A step keeps the sequence in line with the trace. -/
def KeepsSequence (w w' : World) : Prop :=
  SequenceInv w.db.drawn w.trace → SequenceInv w'.db.drawn w'.trace

theorem commit_keepsSequence (w : World) (i : Nat) : KeepsSequence w (w.commit i) := by
  intro h
  rcases commit_eq w i with ⟨_, heq⟩ | ⟨x, l, _, heq⟩
  · rw [heq]
    exact h
  · rw [heq]
    exact sequenceInv_other _ _ _ rfl h

theorem serve_keepsSequence (i : Nat) (e : Eff) (o : Fate) (w w' : World)
    (r : Except Exc e.Reply) (h : World.serve dep i e o w = some (r, w')) :
    KeepsSequence w w' := by
  cases serve_cases dep i e o w w' r h with
  | nothing => exact id
  | recorded o _ hattempt => exact sequenceInv_other _ _ o hattempt
  | stored key value ex => exact sequenceInv_other _ _ _ rfl
  | executed stmt l _ => exact sequenceInv_execute w.db w.trace i stmt
  | committed => exact commit_keepsSequence w i
  | rolledBack => exact id

theorem moves_keepsSequence : Moves (server dep) KeepsSequence where
  start _ _ _ := sequenceInv_other _ _ _ rfl
  serve i e o w r w' h := serve_keepsSequence dep i e o w w' r h
  answer _ _ _ _ := sequenceInv_other _ _ _ rfl
  abort _ _ := id
  env a w w' h := by
    cases a with
    | tick ms =>
        rw [← Option.some.inj h]
        exact id
    | evict key =>
        rw [← Option.some.inj h]
        exact id

/-- In every reachable state the sequence counts the attempts. -/
theorem sequence_inv (c : ServerState) (hc : Reachable dep c) :
    SequenceInv c.shared.db.drawn c.shared.trace := by
  refine (moves_keepsSequence dep).reaches (fun _ => id) (fun _ _ _ h h' => h' ∘ h) _ c hc ?_
  -- Before any request nothing has been drawn, and nothing refused.
  refine ⟨rfl, iff_of_false ?_ (by decide)⟩
  rintro ⟨i, stmt, hmem⟩
  exact List.not_mem_nil hmem

end Steps

section Recorded

/-- Every statement that stands was an attempt once. -/
def Attempted (w : World) : Prop :=
  ∀ i stmt, Standing w i stmt → ∃ id, Obs.executed i stmt id ∈ w.trace

/-- A step that makes no statement stand that was no attempt. -/
theorem attempted_step (w w' : World) (htrace : w.trace <+: w'.trace)
    (hstands : ∀ i stmt, Standing w' i stmt →
      Standing w i stmt ∨ ∃ id, Obs.executed i stmt id ∈ w'.trace)
    (h : Attempted w) : Attempted w' := by
  intro i stmt hs
  rcases hstands i stmt hs with hs | hs
  · rcases h i stmt hs with ⟨id, hid⟩
    exact ⟨id, htrace.subset hid⟩
  · exact hs

/-- A record of anything but a commit. -/
theorem attempted_log (w : World) (o : Obs) (ho : o.commit = none) (h : Attempted w) :
    Attempted (w.log o) := by
  refine attempted_step w _ (List.prefix_append _ _) (fun i stmt hs => Or.inl ?_) h
  rcases hs with hmem | hopen
  · rcases List.mem_append.mp hmem with hmem | hmem
    · exact Or.inl hmem
    · rw [← List.mem_singleton.mp hmem] at ho
      exact absurd ho (by simp only [Obs.commit, reduceCtorEq, not_false_eq_true])
  · exact Or.inr hopen

theorem attempted_rollback (w : World) (i : Nat) (h : Attempted w) : Attempted (w.rollback i) := by
  refine attempted_step w _ (List.prefix_refl _) (fun j stmt hs => Or.inl ?_) h
  exact hs.imp id (fun ⟨x, hx, hown⟩ => ⟨x, (List.mem_filter.mp hx).1, hown⟩)

/-- A commit is of a transaction that was open. -/
theorem attempted_commit (w : World) (i : Nat) (h : Attempted w) : Attempted (w.commit i) := by
  rcases commit_eq w i with ⟨_, heq⟩ | ⟨x, l, hopen, heq⟩
  · rw [heq]
    exact h
  · have hx : x ∈ w.db.pending ∧ x.owner = i := by
      rw [← mem_openBy, hopen]
      exact List.mem_cons_self
    rw [heq]
    refine attempted_step w _ (List.prefix_append _ _) (fun j stmt hs => Or.inl ?_) h
    rcases hs with hmem | ⟨y, hy, hown⟩
    · rcases List.mem_append.mp hmem with hmem | hmem
      · exact Or.inl hmem
      · rcases Obs.committed.inj (List.mem_singleton.mp hmem) with ⟨rfl, rfl⟩
        exact Or.inr ⟨x, hx.1, hx.2, rfl⟩
    · exact Or.inr ⟨y, (List.mem_filter.mp hy).1, hown⟩

theorem serve_attempted (i : Nat) (e : Eff) (o : Fate) (w w' : World)
    (r : Except Exc e.Reply) (h : World.serve dep i e o w = some (r, w')) (hw : Attempted w) :
    Attempted w' := by
  cases serve_cases dep i e o w w' r h with
  | nothing => exact hw
  | recorded o hcommit _ => exact attempted_log w o hcommit hw
  | stored key value ex => exact attempted_log w (.stored i key value w.now) rfl hw
  | executed stmt l hl =>
      -- The transaction the statement may have opened stands, by the record just made.
      refine attempted_step (w.log (.executed i stmt w.db.nextval)) _ (List.prefix_refl _)
        (fun j stmt' hs => ?_) (attempted_log w _ rfl hw)
      rcases hs with hmem | ⟨x, hx, hown⟩
      · exact Or.inl (Or.inl hmem)
      · rcases List.mem_append.mp hx with hx | hx
        · rcases hl x hx with ⟨hi, hstmt⟩
          rw [← hown.1, ← hown.2, hi, hstmt]
          exact Or.inr ⟨_, List.mem_append_right _ (List.mem_singleton.mpr rfl)⟩
        · exact Or.inl (Or.inr ⟨x, hx, hown⟩)
  | committed => exact attempted_commit w i hw
  | rolledBack => exact attempted_rollback w i hw

theorem moves_attempted : Moves (server dep) (fun w w' => Attempted w → Attempted w') where
  start _ _ w := attempted_log w _ rfl
  serve i e o w r w' h := serve_attempted dep i e o w w' r h
  answer _ _ _ w := attempted_log w _ rfl
  abort i w := attempted_rollback w i
  env a w w' h := by
    cases a with
    | tick ms =>
        rw [← Option.some.inj h]
        exact id
    | evict key =>
        rw [← Option.some.inj h]
        exact id

/-- In every reachable state, what stands was an attempt once. -/
theorem standing_attempted (c : ServerState) (hc : Reachable dep c) : Attempted c.shared := by
  refine (moves_attempted dep).reaches (fun _ => id) (fun _ _ _ h h' => h' ∘ h) _ c hc ?_
  rintro i stmt (hmem | ⟨x, hx, _⟩)
  · exact absurd hmem List.not_mem_nil
  · exact absurd hx List.not_mem_nil

theorem mem_attempts (tr : List Obs) (k : Str × Str) :
    k ∈ attempts tr ↔ ∃ i stmt id, Obs.executed i stmt id ∈ tr ∧ stmt.key = k := by
  rw [attempts, List.mem_filterMap]
  constructor
  · rintro ⟨o, ho, hattempt⟩
    cases o with
    | executed i stmt id => exact ⟨i, stmt, id, ho, Option.some.inj hattempt⟩
    | _ => exact absurd hattempt (by simp only [Obs.attempt, reduceCtorEq, not_false_eq_true])
  · rintro ⟨i, stmt, id, ho, rfl⟩
    exact ⟨_, ho, rfl⟩

theorem mem_recordedPairs (w : World) (k : Str × Str) :
    k ∈ recordedPairs w ↔ ∃ i stmt, Standing w i stmt ∧ stmt.key = k := by
  simp only [recordedPairs, List.mem_map, List.mem_append, mem_commits]
  constructor
  · rintro ⟨stmt, ⟨i, hi⟩ | ⟨x, hx, rfl⟩, rfl⟩
    · exact ⟨i, stmt, Or.inl hi, rfl⟩
    · exact ⟨x.owner, x.stmt, Or.inr ⟨x, hx, rfl, rfl⟩, rfl⟩
  · rintro ⟨i, stmt, hi | ⟨x, hx, _, rfl⟩, rfl⟩
    · exact ⟨stmt, Or.inl ⟨i, hi⟩, rfl⟩
    · exact ⟨x.stmt, Or.inr ⟨x, hx, rfl⟩, rfl⟩

/-- When no transaction is open the pairs recorded are the committed ones. -/
theorem recordedPairs_closed (w : World) (h : w.db.pending = []) :
    recordedPairs w = (commits w.trace).map Upsert.key := by
  rw [recordedPairs, h, List.map_nil, List.append_nil]

/-- Two elements that are kept as one were one, if nothing is kept twice. -/
theorem eq_of_nodup_filterMap {α β : Type} (f : α → Option β) (l : List α)
    (h : (l.filterMap f).Nodup) (a a' : α) (ha : a ∈ l) (ha' : a' ∈ l) (b : β)
    (hb : f a = some b) (hb' : f a' = some b) : a = a' := by
  induction l with
  | nil => exact absurd ha List.not_mem_nil
  | cons x l ih =>
      have hkept : ∀ y ∈ l, f y = some b → b ∈ l.filterMap f := fun y hy hyb =>
        List.mem_filterMap.mpr ⟨y, hy, hyb⟩
      rcases List.mem_cons.mp ha with rfl | hal
      · rcases List.mem_cons.mp ha' with rfl | hal'
        · rfl
        · rw [List.filterMap_cons_some hb, List.nodup_cons] at h
          exact absurd (hkept a' hal' hb') h.1
      · rcases List.mem_cons.mp ha' with rfl | hal'
        · rw [List.filterMap_cons_some hb', List.nodup_cons] at h
          exact absurd (hkept a hal hb) h.1
        · exact ih (h.sublist ((List.sublist_cons_self x l).filterMap f)) hal hal'

end Recorded

section Limits

/-- The pairs recorded are among those attempted. -/
theorem recordedPairs_subperm (w : World) (hw : Attempted w) :
    List.Subperm (recordedPairs w).dedup (attempts w.trace).dedup := by
  refine (List.nodup_dedup _).subperm (fun k hk => ?_)
  rcases (mem_recordedPairs w k).mp (List.mem_dedup.mp hk) with ⟨i, stmt, hs, rfl⟩
  rcases hw i stmt hs with ⟨id, hid⟩
  exact List.mem_dedup.mpr ((mem_attempts _ _).mpr ⟨i, stmt, id, hid, rfl⟩)

/-- The attempts are no more than the pairs recorded exactly when no pair was
    attempted twice and none of the attempts was lost. -/
theorem attempts_le_iff (w : World) (hw : Attempted w) :
    (attempts w.trace).length ≤ (recordedPairs w).dedup.length
      ↔ (attempts w.trace).Nodup ∧ NoneLost w := by
  have hsubperm := (recordedPairs_subperm w hw).trans (List.dedup_sublist _).subperm
  constructor
  · -- Then the attempts are the pairs recorded, in some order and each once.
    intro h
    have hperm := hsubperm.perm_of_length_le h
    have hnodup := hperm.nodup (List.nodup_dedup _)
    refine ⟨hnodup, fun i stmt id hid => ?_⟩
    have hk := hperm.mem_iff.mpr ((mem_attempts _ _).mpr ⟨i, stmt, id, hid, rfl⟩)
    rcases (mem_recordedPairs w _).mp (List.mem_dedup.mp hk) with ⟨j, stmt', hs, hkey⟩
    -- The statement that stands for the pair was its only attempt.
    rcases hw j stmt' hs with ⟨id', hid'⟩
    have heq := eq_of_nodup_filterMap Obs.attempt w.trace hnodup _ _ hid' hid stmt.key
      (congrArg some hkey) rfl
    rcases Obs.executed.inj heq with ⟨rfl, rfl, _⟩
    exact hs
  · rintro ⟨hnodup, hkept⟩
    refine (hnodup.subperm (fun k hk => ?_)).length_le
    rcases (mem_attempts _ _).mp hk with ⟨i, stmt, id, hid, rfl⟩
    exact List.mem_dedup.mpr ((mem_recordedPairs w _).mpr ⟨i, stmt, hkept i stmt id hid, rfl⟩)

/-- When the identifiers suffice. As long as there are fewer pairs than
    identifiers, no statement fails for want of one and no more are drawn than
    there are pairs recorded exactly when no pair has reached the database
    twice and no statement that reached it was lost; and statements fail for
    want of one exactly when more than 2 ^ 31 - 1 have reached the database. -/
theorem ids_suffice_iff (c : ServerState) (hc : Reachable dep c)
    (hpairs : (attempts c.shared.trace).dedup.length < maxInteger) :
    (IdsSuffice c.shared ↔ (attempts c.shared.trace).Nodup ∧ NoneLost c.shared) ∧
      (Refused c.shared.trace ↔ maxInteger < (attempts c.shared.trace).length) := by
  have hinv := sequence_inv dep c hc
  have hattempted := standing_attempted dep c hc
  refine ⟨?_, hinv.refused⟩
  rw [← attempts_le_iff c.shared hattempted]
  -- The pairs recorded are pairs attempted, fewer than the identifiers, so the
  -- bound of the sequence is not what stops it.
  have hle := (recordedPairs_subperm c.shared hattempted).length_le
  constructor
  · intro h
    have hbounded := h.bounded
    rw [hinv.drawn] at hbounded
    omega
  · intro h
    refine ⟨?_, ?_⟩
    · rw [hinv.refused]
      omega
    · rw [hinv.drawn]
      omega

end Limits

section Exhaustion

/-- Without an identifier the upsert is refused. -/
theorem upsert_refused (db : Database) (stmt : Upsert) (h : db.drawn = maxInteger) :
    db.upsert dep stmt = (.error .sequenceExhausted, db) := by
  rw [Database.upsert, if_pos h]

/-- `record_event` that runs alone with the sequence used up. -/
theorem recordEvent_refused (body : Json) (i : Nat) (e : EventIn) (w : World)
    (hpending : w.db.pending = []) (hdrawn : w.db.drawn = maxInteger) :
    (PostgresEventStore.recordEvent e.package e.type.value e.timestamp).solo
        (plainServe dep body i) w
      = some (.error (.dbapiError .sequenceExhausted), w.log (.executed i e.stmt none)) := by
  have hlocked : w.db.locked i e.stmt = false := by
    rw [Database.locked, hpending, List.any_nil]
  have hexecute : plainServe dep body i (.execute e.stmt) w
      = some (.error (.dbapiError .sequenceExhausted), w.log (.executed i e.stmt none)) := by
    simp only [plainServe, plainFate, World.serve, fits_stmt, hlocked, Bool.not_false,
      Bool.and_self, if_true, upsert_refused dep w.db e.stmt hdrawn, Database.nextval, hdrawn]
    rfl
  have hrun : (Session.execute ⟨e.package, e.type.value, e.timestamp⟩).solo
      (plainServe dep body i) w = plainServe dep body i (.execute e.stmt) w := solo_call _ _ _
  unfold PostgresEventStore.recordEvent
  rw [bind_eq, solo_bind, hrun, hexecute]

/-- A request to post an event that runs alone with the sequence used up. -/
theorem post_refused (body : Json) (i : Nat) (e : EventIn) (c : ServerState)
    (hfree : c.task i = none) (hpending : c.shared.db.pending = [])
    (hvalid : isValidPackage e.package = true) (hdrawn : c.shared.db.drawn = maxInteger) :
    ∃ d, Reaches (server dep) c d ∧
      d.task i = some (.answered (.postEvent e) (.ok (.http internalServerError))) ∧
      d.shared.trace = c.shared.trace ++ [.started i (.postEvent e),
        .upstream i (packageUrl e.package) (found body), .executed i e.stmt none,
        .answered i (.postEvent e) (.ok (.http internalServerError))] := by
  have hfetch := fetch_alone dep body i e.package (c.shared.log (.started i (.postEvent e)))
    hvalid
  have hrecord := recordEvent_refused dep body i e
    ((c.shared.log (.started i (.postEvent e))).log
      (.upstream i (packageUrl e.package) (found body))) hpending hdrawn
  -- The fetch succeeds, and the failed statement becomes a 500.
  have hsolo : (Request.body dep (.postEvent e)).solo (plainServe dep body i)
      (c.shared.log (.started i (.postEvent e)))
      = some (.ok (.http internalServerError),
          ((c.shared.log (.started i (.postEvent e))).log
            (.upstream i (packageUrl e.package) (found body))).log
              (.executed i e.stmt none)) := by
    simp only [Request.body, handle, postEvent, bind_eq, solo_bind, solo_tryCatch, hfetch,
      hrecord]
    rfl
  rcases reaches_request (server dep) i (.postEvent e) (plainFate body) c _ _ hfree hsolo with
    ⟨d, hd, hsh, htask, _⟩
  refine ⟨d, hd, htask, ?_⟩
  rw [hsh]
  simp only [server, World.log, List.append_assoc, List.cons_append, List.nil_append]

/-- Numpy is uninstalled. -/
def numpyRemoval : EventIn := { numpyInstall 0 with type := .uninstall }

/-- As many installs and uninstalls of numpy as there are identifiers. -/
def numpyYears : List EventIn :=
  List.replicate (2 ^ 30) (numpyInstall 0) ++ List.replicate (2 ^ 30 - 1) numpyRemoval

theorem length_numpyYears : numpyYears.length = maxInteger := by
  rw [numpyYears, List.length_append, List.length_replicate, List.length_replicate]
  decide

theorem mem_numpyYears (e : EventIn) (h : e ∈ numpyYears) :
    e = numpyInstall 0 ∨ e = numpyRemoval := by
  rcases List.mem_append.mp h with h | h
  · exact Or.inl (List.eq_of_mem_replicate h)
  · exact Or.inr (List.eq_of_mem_replicate h)

/-- No pair has more than half of those events. -/
theorem length_eventsFor_numpyYears (tr : List Obs)
    (h : commits tr = numpyYears.map EventIn.stmt) (p t : Str) :
    (eventsFor p t tr).length ≤ 2 ^ 30 := by
  rcases (⟨_, rfl⟩ : ∃ f : Upsert → Option DateTime, f = fun stmt =>
    if stmt.package = p ∧ stmt.eventType = t then some stmt.timestamp else none) with ⟨f, hf⟩
  -- A filter keeps no more of a run of equal statements than there are.
  have hle : ∀ n stmt, ((List.replicate n stmt).filterMap f).length ≤ n := by
    intro n stmt
    refine Nat.le_trans (List.length_filterMap_le _ _) ?_
    rw [List.length_replicate]
  rw [eventsFor_eq, ← hf, h, numpyYears, List.map_append, List.map_replicate, List.map_replicate,
    List.filterMap_append, List.length_append]
  by_cases ht : "install".toList = t
  · -- An install is not an uninstall.
    have hremoval : f numpyRemoval.stmt = none := by
      rw [hf, ← ht]
      exact if_neg (fun hkey => absurd hkey.2 (by decide))
    rw [List.filterMap_replicate_of_none hremoval, List.length_nil]
    exact hle _ _
  · have hinstall : f (numpyInstall 0).stmt = none := by
      rw [hf]
      exact if_neg (fun hkey => ht hkey.2)
    rw [List.filterMap_replicate_of_none hinstall, List.length_nil, Nat.zero_add]
    exact Nat.le_trans (hle _ _) (Nat.sub_le _ _)

/-- An attempt goes back to a request. -/
theorem attempt_started (c : ServerState) (hc : Reachable dep c) (k : Str × Str)
    (hk : k ∈ attempts c.shared.trace) :
    ∃ i e, Obs.started i (.postEvent e) ∈ c.shared.trace ∧ k = e.stmt.key := by
  rcases (mem_attempts _ k).mp hk with ⟨i, stmt, id, ho, rfl⟩
  rcases chronicle_mem _ _ _ (reachable_inv dep c hc).history ho with
    ⟨A, hA, e, hstarted, hstmt⟩
  exact ⟨i, e, ((List.prefix_append _ _).trans hA).subset hstarted, congrArg _ hstmt⟩

/-- Two pairs use up the sequence. After 2 ^ 31 - 1 events of two pairs, each
    with a count no larger than 2 ^ 30, the next request fails because there
    is no identifier for a row that is not going to be inserted. -/
theorem ids_exhausted : ∃ c i, Reachable utcDeployment c ∧
    (attempts c.shared.trace).dedup.length ≤ 2 ∧
    (∀ p t, (eventsFor p t c.shared.trace).length < maxInteger) ∧
    c.task i = some (.answered (.postEvent (numpyInstall 0)) (.ok (.http internalServerError))) ∧
    Refused c.shared.trace ∧ ¬ IdsSuffice c.shared := by
  have hvalid : ∀ e ∈ numpyYears, isValidPackage e.package = true := by
    intro e he
    rcases mem_numpyYears e he with rfl | rfl
    · decide
    · decide
  -- The events are posted one after the other, which uses the sequence up.
  rcases serial_run utcDeployment numpyYears hvalid (Nat.le_of_eq length_numpyYears) with ⟨c, hc⟩
  rcases post_refused utcDeployment .null numpyYears.length (numpyInstall 0) c
    (hc.free _ (Nat.le_refl _)) hc.pending (by decide) (hc.drawn.trans length_numpyYears) with
    ⟨d, hd, htask, htrace⟩
  have hreach := reaches_trans hc.reachable hd
  have hrefused : Refused d.shared.trace := by
    rw [htrace, refused_append]
    exact Or.inr ⟨numpyYears.length, (numpyInstall 0).stmt, by simp only [List.mem_cons,
      true_or, or_true]⟩
  have hcommits : commits d.shared.trace = numpyYears.map EventIn.stmt := by
    rw [htrace, commits_append, hc.commits]
    exact List.append_nil _
  -- Whatever reached the database was an install or an uninstall of numpy.
  have hpairs : (attempts d.shared.trace).dedup
      ⊆ [(numpyInstall 0).stmt.key, numpyRemoval.stmt.key] := by
    intro k hk
    rcases attempt_started utcDeployment d hreach k (List.mem_dedup.mp hk) with
      ⟨i, e, hstarted, rfl⟩
    have he : e = numpyInstall 0 ∨ e = numpyRemoval := by
      rw [htrace] at hstarted
      rcases List.mem_append.mp hstarted with hold | hnew
      · rcases hc.posts i _ hold with ⟨e', he', heq, _⟩
        rw [Request.postEvent.inj heq]
        exact mem_numpyYears e' he'
      · simp only [List.mem_cons, Obs.started.injEq, Request.postEvent.injEq, reduceCtorEq,
          List.not_mem_nil, or_false] at hnew
        exact Or.inl hnew.2
    rcases he with rfl | rfl
    · exact List.mem_cons_self ..
    · exact List.mem_cons_of_mem _ (List.mem_singleton.mpr rfl)
  refine ⟨d, numpyYears.length, hreach, ?_, ?_, htask, hrefused, fun h => h.served hrefused⟩
  · exact ((List.nodup_dedup _).subperm hpairs).length_le
  · intro p t
    exact Nat.lt_of_le_of_lt (length_eventsFor_numpyYears _ hcommits p t) (by decide)

/-- Two installs of numpy, one after the other. -/
def numpyTwice : List (Label Request Fate Env) :=
  [.start 0 (.postEvent (numpyInstall 1)), .act 0 .ok,
    .act 0 (.http { statusCode := 200, body := some (.object []) }), .act 0 .ok, .act 0 .ok,
    .act 0 .ok, .answer 0,
    .start 1 (.postEvent (numpyInstall 2)), .act 1 .ok, .act 1 .ok, .act 1 .ok, .answer 1]

/-- One pair, one row, two identifiers. -/
theorem ids_suffice_iff_numpy : ∃ c, Reachable utcDeployment c ∧
    c.shared.db.table.length = 1 ∧ c.shared.db.drawn = 2 ∧ ¬ IdsSuffice c.shared := by
  rcases reaches_of_run_map numpyTwice (Config.init boot)
      (fun c : ServerState => (attempts c.shared.trace, c.shared.db.table.length,
        c.shared.db.drawn)) _
      (show (run (server utcDeployment) _ _).map _ = some (_, _, _) from rfl) with ⟨c, hc, hobs⟩
  have hattempts := (Prod.mk.inj hobs).1
  have hrest := Prod.mk.inj (Prod.mk.inj hobs).2
  refine ⟨c, hc, hrest.1, hrest.2, fun hsuffice => ?_⟩
  have hnodup := (ids_suffice_iff utcDeployment c hc (by rw [hattempts]; decide)).1.mp hsuffice
  rw [hattempts] at hnodup
  exact absurd hnodup.1 (by decide)

/-- An install of numpy whose commit fails. -/
def numpyLost : List (Label Request Fate Env) :=
  [.start 0 (.postEvent (numpyInstall 1)), .act 0 .ok,
    .act 0 (.http { statusCode := 200, body := some (.object []) }), .act 0 .ok, .act 0 .ok,
    .act 0 (.fail (.dbapiError .other) false), .answer 0]

/-- A statement that is lost takes an identifier with it: one pair, proposed
    once, no row, one identifier. -/
theorem id_lost : ∃ c, Reachable utcDeployment c ∧
    (attempts c.shared.trace).length = 1 ∧ commits c.shared.trace = [] ∧
    c.shared.db.pending = [] ∧ c.shared.db.drawn = 1 ∧ ¬ IdsSuffice c.shared := by
  rcases reaches_of_run_map numpyLost (Config.init boot)
      (fun c : ServerState => ((attempts c.shared.trace).length, commits c.shared.trace,
        c.shared.db.pending, c.shared.db.drawn)) (1, [], [], 1)
      (show (run (server utcDeployment) _ _).map _ = _ from rfl) with ⟨c, hc, hobs⟩
  simp only [Prod.mk.injEq] at hobs
  rcases hobs with ⟨hattempts, hcommits, hpending, hdrawn⟩
  refine ⟨c, hc, hattempts, hcommits, hpending, hdrawn, fun h => ?_⟩
  have hbounded := h.bounded
  rw [hdrawn, recordedPairs_closed _ hpending, hcommits] at hbounded
  exact absurd hbounded (by decide)

end Exhaustion

end KingPi
