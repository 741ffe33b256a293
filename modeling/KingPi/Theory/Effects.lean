import KingPi.Theory.Provenance

/-!
# What a Step Does to the World

Each effect has a fixed number of ways to end, and this module lists them
once, one inversion lemma for each effect, so that no later proof has to take
`World.serve` apart again.

A step that leaves the table and the open transactions alone, and commits
nothing, is quiet. Everything the cache and the upstream do is quiet, and so
is a `SELECT`; only `execute`, `commit` and the end of a transaction are not.

`Rely i` is what the rest of the world may do to request `i` between two of
its own steps. It extends the trace, but commits nothing for `i` and leaves
the transaction of `i` open or closed as it was. `serve_rely` says that the
steps of the other requests are of this kind.

## Main definitions

* `Quiet`: A step that the store does not notice.
* `Rely`: What anybody else may do to a request.
* `Served`: What an effect can do to the world.

## Theorems

* `serve_redisGet`, `serve_redisSet`, `serve_httpGet`, `serve_execute`,
  `serve_commit`, `serve_select`: How each effect can end.
* `serve_cases`: All of them, by what they do to the world.
* `commit_eq`: What a commit does.
* `serve_rely`: The steps of the other requests.
* `serve_extends`: An effect makes one record at most.
-/

namespace KingPi

open Async

/-- A step that commits nothing and leaves the store alone. -/
structure Quiet (w w' : World) : Prop where
  table : w'.db.table = w.db.table
  pending : w'.db.pending = w.db.pending
  trace : ∃ l, w'.trace = w.trace ++ l ∧ ∀ i stmt, Obs.committed i stmt ∉ l
  now : w.now ≤ w'.now

/-- The transaction of a request, if it has one open. -/
def World.openBy (w : World) (i : Nat) : List Pending :=
  w.db.pending.filter (fun x => x.owner == i)

/-- What anybody but request `i` may do to the world. -/
structure Rely (i : Nat) (w w' : World) : Prop where
  trace : w.trace <+: w'.trace
  commits : commitsOf i w'.trace = commitsOf i w.trace
  openBy : w'.openBy i = w.openBy i
  now : w.now ≤ w'.now

section Frames

theorem commitsOf_eq_nil (i : Nat) (l : List Obs) (h : ∀ i stmt, Obs.committed i stmt ∉ l) :
    commitsOf i l = [] := by
  rw [List.eq_nil_iff_forall_not_mem]
  intro stmt hstmt
  exact h i stmt ((mem_commitsOf i l stmt).mp hstmt)

theorem eventsFor_eq_nil (p t : Str) (l : List Obs) (h : ∀ i stmt, Obs.committed i stmt ∉ l) :
    eventsFor p t l = [] := by
  rw [List.eq_nil_iff_forall_not_mem]
  intro d hd
  rcases (mem_eventsFor p t l d).mp hd with ⟨i, hi⟩
  exact h i _ hi

theorem rely_refl (i : Nat) (w : World) : Rely i w w :=
  ⟨List.prefix_refl _, rfl, rfl, Nat.le_refl _⟩

theorem rely_trans (i : Nat) (a b c : World) (h : Rely i a b) (h' : Rely i b c) : Rely i a c :=
  ⟨h.trace.trans h'.trace, h'.commits.trans h.commits, h'.openBy.trans h.openBy,
    h.now.trans h'.now⟩

theorem quiet_rely (i : Nat) (w w' : World) (h : Quiet w w') : Rely i w w' := by
  rcases h with ⟨_, hpending, ⟨l, htrace, hl⟩, hnow⟩
  refine ⟨?_, ?_, ?_, hnow⟩
  · rw [htrace]
    exact List.prefix_append _ _
  · rw [htrace, commitsOf_append, commitsOf_eq_nil i l hl, List.append_nil]
  · rw [World.openBy, World.openBy, hpending]

theorem quiet_eventsFor (p t : Str) (w w' : World) (h : Quiet w w') :
    eventsFor p t w'.trace = eventsFor p t w.trace := by
  rcases h.trace with ⟨l, htrace, hl⟩
  rw [htrace, eventsFor_append, eventsFor_eq_nil p t l hl, List.append_nil]

theorem quiet_log (w : World) (o : Obs) (h : o.commit = none) : Quiet w (w.log o) := by
  refine ⟨rfl, rfl, ⟨[o], rfl, fun i stmt hmem => ?_⟩, Nat.le_refl _⟩
  -- The new record would have to be the commit that it is not.
  rw [← List.mem_singleton.mp hmem] at h
  exact absurd h (by simp only [Obs.commit, reduceCtorEq, not_false_eq_true])

theorem quiet_store (w : World) (i : Nat) (key value : Str) (ex : Int) :
    Quiet w (w.store i key value ex) := by
  refine ⟨rfl, rfl, ⟨[.stored i key value w.now], rfl, fun j stmt hmem => ?_⟩, Nat.le_refl _⟩
  exact absurd (List.mem_singleton.mp hmem) (by simp only [reduceCtorEq, not_false_eq_true])

theorem quiet_env (a : Env) (w w' : World) (h : World.env a w = some w') : Quiet w w' := by
  cases a with
  | tick ms =>
      rw [← Option.some.inj h]
      exact ⟨rfl, rfl, ⟨[], (List.append_nil _).symm, fun _ _ => List.not_mem_nil⟩,
        Nat.le_add_right _ _⟩
  | evict key =>
      rw [← Option.some.inj h]
      exact ⟨rfl, rfl, ⟨[], (List.append_nil _).symm, fun _ _ => List.not_mem_nil⟩,
        Nat.le_refl _⟩

end Frames

section Inversion

variable (dep : Deployment) (i : Nat)

/-- An effect that is open under a condition only. -/
theorem of_ite_some {α : Type} {c : Prop} [Decidable c] {a b : α}
    (h : (if c then some a else none) = some b) : c ∧ a = b := by
  by_cases hc : c
  · rw [if_pos hc] at h
    exact ⟨hc, Option.some.inj h⟩
  · rw [if_neg hc] at h
    exact absurd h (by simp only [reduceCtorEq, not_false_eq_true])

theorem isDbFault_eq (exc : Exc) (h : exc.isDbFault = true) : exc = .dbapiError .other := by
  unfold Exc.isDbFault at h
  split at h
  · rfl
  · exact absurd h (by decide)

theorem serve_redisGet (key : Str) (o : Fate) (w w' : World) (r : Except Exc (Option Str))
    (h : World.serve dep i (.redisGet key) o w = some (r, w')) :
    r = .ok (w.live key) ∧ w' = w.log (.looked i key (w.live key) w.now) ∨
      (∃ exc, r = .error exc ∧ exc.isRedisFault = true) ∧ w' = w := by
  cases o with
  | ok =>
      cases h
      exact Or.inl ⟨rfl, rfl⟩
  | http response => cases h
  | fail exc took =>
      simp only [World.serve] at h
      rcases of_ite_some h with ⟨hexc, heq⟩
      cases heq
      exact Or.inr ⟨⟨exc, rfl, hexc⟩, rfl⟩

theorem serve_redisSet (key value : Str) (ex : Int) (o : Fate) (w w' : World)
    (r : Except Exc Unit) (h : World.serve dep i (.redisSet key value ex) o w = some (r, w')) :
    (r = .ok () ∨ ∃ exc, r = .error exc ∧ exc.isRedisFault = true) ∧
      (w' = w ∨ 0 < ex ∧ w' = w.store i key value ex) := by
  cases o with
  | ok =>
      simp only [World.serve] at h
      -- Redis refuses `SETEX` with an expiry that is not positive.
      by_cases hex : 0 < ex
      · rw [if_pos hex] at h
        cases h
        exact ⟨Or.inl rfl, Or.inr ⟨hex, rfl⟩⟩
      · rw [if_neg hex] at h
        cases h
        exact ⟨Or.inr ⟨.redisError, rfl, rfl⟩, Or.inl rfl⟩
  | http response => cases h
  | fail exc took =>
      simp only [World.serve] at h
      rcases of_ite_some h with ⟨hexc, heq⟩
      cases heq
      -- The connection failed: `took` says whether the command got through first.
      refine ⟨Or.inr ⟨exc, rfl, hexc⟩, ?_⟩
      by_cases hex : (took && decide (0 < ex)) = true
      · rw [if_pos hex]
        rw [Bool.and_eq_true, decide_eq_true_eq] at hex
        exact Or.inr ⟨hex.2, rfl⟩
      · rw [if_neg hex]
        exact Or.inl rfl

theorem serve_httpGet (url : Str) (o : Fate) (w w' : World) (r : Except Exc HttpResponse)
    (h : World.serve dep i (.httpGet url) o w = some (r, w')) :
    w' = w.log (.upstream i url r) ∧ IsReply r := by
  cases o with
  | ok => cases h
  | http response =>
      cases h
      exact ⟨rfl, fun exc hexc => absurd hexc (by simp only [reduceCtorEq, not_false_eq_true])⟩
  | fail exc took =>
      simp only [World.serve] at h
      rcases of_ite_some h with ⟨hexc, heq⟩
      cases heq
      refine ⟨rfl, fun exc' hexc' => ?_⟩
      rw [← Except.error.inj hexc']
      exact hexc

/-- A statement reached the database: it drew an identifier if there was one,
    and everything else but the transaction it may have opened is as it was. -/
theorem serve_execute (stmt : Upsert) (o : Fate) (w w' : World) (r : Except Exc Unit)
    (h : World.serve dep i (.execute stmt) o w = some (r, w')) :
    (r = .ok () ∧ w.db.locked i stmt = false ∧ ∃ row db,
        w.db.upsert dep stmt = (.ok row, db) ∧
        w' = (w.log (.executed i stmt w.db.nextval)).withDb
          { db with pending := ⟨i, stmt, row⟩ :: db.pending }) ∨
      (∃ fault, r = .error (.dbapiError fault)) ∧
        (w' = w ∨ w' = (w.log (.executed i stmt w.db.nextval)).withDb
          { w.db with drawn := w.db.draw.drawn }) := by
  cases o with
  | ok =>
      simp only [World.serve] at h
      -- A statement that has to wait for another transaction is not served.
      by_cases hopen : (Database.fits stmt && !w.db.locked i stmt) = true
      · rw [if_pos hopen] at h
        rw [Bool.and_eq_true, Bool.not_eq_true'] at hopen
        split at h
        · rename_i row db hupsert
          cases h
          exact Or.inl ⟨rfl, hopen.2, row, db, hupsert, rfl⟩
        · rename_i fault db hupsert
          cases h
          rw [upsert_frame dep w.db db stmt _ hupsert]
          exact Or.inr ⟨⟨fault, rfl⟩, Or.inr rfl⟩
      · rw [if_neg hopen] at h
        exact absurd h (by simp only [reduceCtorEq, not_false_eq_true])
  | http response => cases h
  | fail exc took =>
      simp only [World.serve] at h
      rcases of_ite_some h with ⟨hexc, heq⟩
      cases heq
      refine Or.inr ⟨⟨.other, congrArg _ (isDbFault_eq exc hexc)⟩, ?_⟩
      -- A statement that failed on the way drew an identifier if it got there.
      cases took with
      | false => exact Or.inl rfl
      | true =>
          have hdraw : w.db.draw = { w.db with drawn := w.db.draw.drawn } := by
            rw [Database.draw]
            split
            · rfl
            · rfl
          rw [if_pos rfl, hdraw]
          exact Or.inr rfl

theorem serve_commit (o : Fate) (w w' : World) (r : Except Exc Unit)
    (h : World.serve dep i .commit o w = some (r, w')) :
    r = .ok () ∧ w' = w.commit i ∨
      (∃ fault, r = .error (.dbapiError fault)) ∧ (w' = w.commit i ∨ w' = w.rollback i) := by
  cases o with
  | ok =>
      cases h
      exact Or.inl ⟨rfl, rfl⟩
  | http response => cases h
  | fail exc took =>
      simp only [World.serve] at h
      rcases of_ite_some h with ⟨hexc, heq⟩
      cases heq
      refine Or.inr ⟨⟨.other, congrArg _ (isDbFault_eq exc hexc)⟩, ?_⟩
      -- A connection lost at the `COMMIT` leaves it open which way it went.
      cases took with
      | false => exact Or.inr rfl
      | true => exact Or.inl rfl

theorem serve_select (query : Query) (o : Fate) (w w' : World)
    (r : Except Exc (List PackageEvent))
    (h : World.serve dep i (.select query) o w = some (r, w')) :
    r = .ok (w.db.table.filter query.selects) ∧ w' = w.log (.selected i query) ∨
      (∃ fault, r = .error (.dbapiError fault)) ∧ w' = w := by
  cases o with
  | ok =>
      cases h
      exact Or.inl ⟨rfl, rfl⟩
  | http response => cases h
  | fail exc took =>
      simp only [World.serve] at h
      rcases of_ite_some h with ⟨hexc, heq⟩
      cases heq
      exact Or.inr ⟨⟨.other, congrArg _ (isDbFault_eq exc hexc)⟩, rfl⟩

/-- What an effect of a request can do to the world, whatever it answers. -/
inductive Served (w : World) : World → Prop where
  | nothing : Served w w
  | recorded (o : Obs) : o.commit = none → o.attempt = none → Served w (w.log o)
  | stored (key value : Str) (ex : Int) : Served w (w.store i key value ex)
  | executed (stmt : Upsert) (l : List Pending) : (∀ x ∈ l, x.owner = i ∧ x.stmt = stmt) →
      Served w ((w.log (.executed i stmt w.db.nextval)).withDb
        { w.db with drawn := w.db.draw.drawn, pending := l ++ w.db.pending })
  | committed : Served w (w.commit i)
  | rolledBack : Served w (w.rollback i)

theorem serve_cases (e : Eff) (o : Fate) (w w' : World) (r : Except Exc e.Reply)
    (h : World.serve dep i e o w = some (r, w')) : Served i w w' := by
  cases e with
  | redisGet key =>
      rcases serve_redisGet dep i key o w w' r h with ⟨_, rfl⟩ | ⟨_, rfl⟩
      · exact .recorded _ rfl rfl
      · exact .nothing
  | redisSet key value ex =>
      rcases serve_redisSet dep i key value ex o w w' r h with ⟨_, rfl | ⟨_, rfl⟩⟩
      · exact .nothing
      · exact .stored key value ex
  | httpGet url =>
      rw [(serve_httpGet dep i url o w w' r h).1]
      exact .recorded _ rfl rfl
  | execute stmt =>
      rcases serve_execute dep i stmt o w w' r h with
        ⟨_, _, row, db, hupsert, rfl⟩ | ⟨_, rfl | rfl⟩
      · -- The transaction the statement opened is the only one that is new.
        rw [upsert_frame dep w.db db stmt _ hupsert]
        refine .executed stmt [⟨i, stmt, row⟩] (fun x hx => ?_)
        rw [List.mem_singleton.mp hx]
        exact ⟨rfl, rfl⟩
      · exact .nothing
      · exact .executed stmt [] (fun x hx => absurd hx List.not_mem_nil)
  | commit =>
      rcases serve_commit dep i o w w' r h with ⟨_, rfl⟩ | ⟨_, rfl | rfl⟩
      · exact .committed
      · exact .committed
      · exact .rolledBack
  | select query =>
      rcases serve_select dep i query o w w' r h with ⟨_, rfl⟩ | ⟨_, rfl⟩
      · exact .recorded _ rfl rfl
      · exact .nothing

end Inversion

section Transactions

/-- A commit writes the row its transaction has computed, or finds no
    transaction. -/
theorem commit_eq (w : World) (i : Nat) :
    (w.openBy i = [] ∧ w.commit i = w) ∨ ∃ x l, w.openBy i = x :: l ∧
      w.commit i = { w with
        db := { w.db.rollback i with table := Database.put w.db.table x.row },
        trace := w.trace ++ [.committed i x.stmt] } := by
  have hhead : (w.openBy i).head? = w.db.pending.find? (fun x => x.owner == i) :=
    List.head?_filter
  -- `World.commit` looks the transaction up, which is the head of the filter.
  cases hopen : w.openBy i with
  | nil =>
      rw [hopen, List.head?_nil] at hhead
      refine Or.inl ⟨rfl, ?_⟩
      rw [World.commit, ← hhead]
  | cons x l =>
      rw [hopen, List.head?_cons] at hhead
      refine Or.inr ⟨x, l, rfl, ?_⟩
      rw [World.commit, ← hhead]

/-- Ending the transaction of a request leaves the others open. -/
theorem openBy_rollback (w : World) (i j : Nat) (h : j ≠ i) :
    (w.db.rollback i).pending.filter (fun x => x.owner == j) = w.openBy j := by
  rw [World.openBy, Database.rollback, List.filter_filter]
  refine List.filter_congr (fun x _ => ?_)
  -- Two filters in a row: what belongs to `j` is not dropped for `i`.
  by_cases hx : x.owner = j
  · rw [hx, beq_self_eq_true, Bool.true_and, bne_iff_ne]
    exact h
  · rw [beq_eq_false_iff_ne.mpr hx, Bool.false_and]

theorem commitsOf_other (tr : List Obs) (i j : Nat) (stmt : Upsert) (h : j ≠ i) :
    commitsOf j (tr ++ [.committed i stmt]) = commitsOf j tr := by
  have hnone : commitsOf j [.committed i stmt] = [] := by
    rw [List.eq_nil_iff_forall_not_mem]
    intro stmt' hmem
    have := List.mem_singleton.mp ((mem_commitsOf j _ stmt').mp hmem)
    exact h (Obs.committed.inj this).1
  rw [commitsOf_append, hnone, List.append_nil]

theorem rollback_rely (w : World) (i j : Nat) (h : j ≠ i) : Rely j w (w.rollback i) :=
  ⟨List.prefix_refl _, rfl, openBy_rollback w i j h, Nat.le_refl _⟩

theorem commit_rely (w : World) (i j : Nat) (h : j ≠ i) : Rely j w (w.commit i) := by
  rcases commit_eq w i with ⟨_, heq⟩ | ⟨x, l, _, heq⟩
  · rw [heq]
    exact rely_refl j w
  · rw [heq]
    exact ⟨List.prefix_append _ _, commitsOf_other w.trace i j x.stmt h,
      openBy_rollback w i j h, Nat.le_refl _⟩

/-- The steps of the other requests. -/
theorem serve_rely (dep : Deployment) (i j : Nat) (e : Eff) (o : Fate) (w : World)
    (r : Except Exc e.Reply) (w' : World) (hj : j ≠ i)
    (h : World.serve dep i e o w = some (r, w')) : Rely j w w' := by
  cases serve_cases dep i e o w w' r h with
  | nothing => exact rely_refl j w
  | recorded o hcommit _ => exact quiet_rely j _ _ (quiet_log w o hcommit)
  | stored key value ex => exact quiet_rely j _ _ (quiet_store w i key value ex)
  | executed stmt l hl =>
      rcases quiet_rely j w _ (quiet_log w (.executed i stmt w.db.nextval) rfl) with
        ⟨htrace, hcommits, _, hnow⟩
      refine ⟨htrace, hcommits, ?_, hnow⟩
      -- What the statement opened belongs to `i`, so `j` does not see it.
      have hnone : l.filter (fun x => x.owner == j) = [] := by
        rw [List.filter_eq_nil_iff]
        intro x hx
        rw [(hl x hx).1, beq_iff_eq]
        exact Ne.symm hj
      rw [World.openBy, World.withDb, List.filter_append, hnone]
      rfl
  | committed => exact commit_rely w i j hj
  | rolledBack => exact rollback_rely w i j hj

end Transactions

section Records

/-- What a step does to the trace: nothing, or one record. -/
def Extends (w w' : World) : Prop := w'.trace = w.trace ∨ ∃ o, w'.trace = w.trace ++ [o]

theorem commit_extends (w : World) (i : Nat) : Extends w (w.commit i) := by
  rcases commit_eq w i with ⟨_, heq⟩ | ⟨x, l, _, heq⟩
  · rw [heq]
    exact Or.inl rfl
  · rw [heq]
    exact Or.inr ⟨_, rfl⟩

/-- An effect makes one record at most. -/
theorem serve_extends (dep : Deployment) (i : Nat) (e : Eff) (o : Fate) (w w' : World)
    (r : Except Exc e.Reply) (h : World.serve dep i e o w = some (r, w')) : Extends w w' := by
  cases serve_cases dep i e o w w' r h with
  | nothing => exact Or.inl rfl
  | recorded o _ _ => exact Or.inr ⟨o, rfl⟩
  | stored key value ex => exact Or.inr ⟨_, rfl⟩
  | executed stmt l _ => exact Or.inr ⟨_, rfl⟩
  | committed => exact commit_extends w i
  | rolledBack => exact Or.inl rfl

end Records

end KingPi
