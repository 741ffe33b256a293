import KingPi.Async.Progress

/-!
# Simulations

Two systems over different states, where every run of the one is matched by a
run of the other.

`Related` is the shape such a relation takes here: one condition on what is
shared and one on each request. When a step moves a request on both sides, or
on one side only, the conditions on the others are as they were, so that what
is left is the request that moved. `simulates` is the induction over the run:
each step is matched by some number of steps, none included. Some runs may be
left out, as long as a run that is not left out never was.

`advance` runs one task for a number of steps, up to a suspension and not, as
`solo` does, to its end.

## Main definitions

* `Related`: A relation of configurations, request by request.
* `advance`: A task that moves alone for a number of steps.

## Theorems

* `StepOf.reaches`: A step that can be taken is a reachability.
* `StepOf.request`: A request that has arrived stays what it is.
* `simulates`: If every step is matched, every run is.
* `reaches_advance`: The steps of a task that moves alone.
-/

namespace Async

section Steps

variable {E : Type} {R : E → Type} {ε α Q O A σ : Type} {S : System E R ε α Q O A σ}
variable {c d : Config E R ε α Q σ} {l : Label Q O A}

/-- What a step may find is a step that can be taken. -/
theorem StepOf.reaches (h : StepOf S c l d) : Reaches S c d := by
  refine Reaches.step c d l Reaches.refl ?_
  cases h with
  | start i q hfree => simp only [step, hfree]
  | act i o q e k r s htask hserve => simp only [step, htask, hserve]
  | answer i q p r htask hout => simp only [step, htask, hout]
  | abort i q p htask => simp only [step, htask]
  | env a s henv => simp only [step, henv]

/-- A request that has arrived stays what it is. -/
theorem StepOf.request (h : StepOf S c l d) (i : Nat) (t : Task E R ε α Q)
    (ht : c.task i = some t) : ∃ t', d.task i = some t' ∧ t'.request = t.request := by
  -- A task is only ever replaced by one for the same request.
  have hput : ∀ (s : σ) (j : Nat) (t₁ t₂ : Task E R ε α Q), c.task j = some t₁ →
      t₂.request = t₁.request → ∃ t', (c.put s j t₂).task i = some t' ∧ t'.request = t.request := by
    intro s j t₁ t₂ ht₁ hreq
    by_cases hj : i = j
    · subst hj
      rw [ht, Option.some.injEq] at ht₁
      exact ⟨t₂, c.put_task_self _ _ _, hreq.trans (congrArg Task.request ht₁.symm)⟩
    · exact ⟨t, (c.put_task_other _ _ _ _ hj).trans ht, rfl⟩
  cases h with
  | start j q hfree =>
      refine ⟨t, (c.put_task_other _ _ _ _ ?_).trans ht, rfl⟩
      -- A request arrives under a number that is free, and this one is taken.
      rintro rfl
      rw [ht] at hfree
      exact absurd hfree (by simp only [reduceCtorEq, not_false_eq_true])
  | act j o q e k r s htask _ => exact hput _ j _ _ htask rfl
  | answer j q p r htask _ => exact hput _ j _ _ htask rfl
  | abort j q p htask => exact hput _ j _ _ htask rfl
  | env a s _ => exact ⟨t, ht, rfl⟩

/-- Run task `i` alone, one step for each choice of the outside world. -/
def advance (serve : (e : E) → O → σ → Option (Except ε (R e) × σ)) :
    List O → Prog E R ε α → σ → Option (Prog E R ε α × σ)
  | [], p, s => some (p, s)
  | o :: os, .await e k, s => match serve e o s with
    | some (r, s') => advance serve os (k r) s'
    | none => none
  | _ :: _, _, _ => none

/-- The steps of a task that moves alone. -/
theorem reaches_advance (i : Nat) (q : Q) (os : List O) (p p' : Prog E R ε α) (s' : σ)
    (c : Config E R ε α Q σ) (ht : c.task i = some (.running q p))
    (h : advance (S.serve i) os p c.shared = some (p', s')) :
    ∃ d, Reaches S c d ∧ d.shared = s' ∧ d.task i = some (.running q p') ∧
      ∀ j, j ≠ i → d.task j = c.task j := by
  induction os generalizing c p with
  | nil =>
      rw [advance, Option.some.injEq, Prod.mk.injEq] at h
      rw [← h.1, ← h.2]
      exact ⟨c, Reaches.refl, rfl, ht, fun _ _ => rfl⟩
  | cons o os ih =>
      cases p with
      | ret a => cases h
      | raise x => cases h
      | await e k =>
          rw [advance] at h
          split at h
          · rename_i r s hserve
            have hact := StepOf.act (S := S) i o q e k r s ht hserve
            rcases ih (k r) (c.put s i (.running q (k r))) (c.put_task_self _ _ _) h with
              ⟨d, hd, hshared, htask, hother⟩
            refine ⟨d, reaches_trans hact.reaches hd, hshared, htask, fun j hj => ?_⟩
            rw [hother j hj, c.put_task_other _ _ _ _ hj]
          · cases h

end Steps

section Related

variable {E E' : Type} {R : E → Type} {R' : E' → Type} {ε ε' α α' Q Q' O O' A A' σ σ' : Type}
variable {S : System E R ε α Q O A σ} {T : System E' R' ε' α' Q' O' A' σ'}
variable {Shared : σ → σ' → Prop}
variable {Rel : Nat → Option (Task E R ε α Q) → Option (Task E' R' ε' α' Q') → Prop}

/-- A relation of configurations, request by request. -/
structure Related (Shared : σ → σ' → Prop)
    (Rel : Nat → Option (Task E R ε α Q) → Option (Task E' R' ε' α' Q') → Prop)
    (c : Config E R ε α Q σ) (d : Config E' R' ε' α' Q' σ') : Prop where
  shared : Shared c.shared d.shared
  task : ∀ i, Rel i (c.task i) (d.task i)

/-- One request may have moved on either side. -/
theorem related_moved (c c' : Config E R ε α Q σ) (d d' : Config E' R' ε' α' Q' σ') (i : Nat)
    (h : Related Shared Rel c d) (hshared : Shared c'.shared d'.shared)
    (htask : Rel i (c'.task i) (d'.task i)) (hc : ∀ j, j ≠ i → c'.task j = c.task j)
    (hd : ∀ j, j ≠ i → d'.task j = d.task j) : Related Shared Rel c' d' := by
  refine ⟨hshared, fun j => ?_⟩
  by_cases hj : j = i
  · rw [hj]
    exact htask
  · rw [hc j hj, hd j hj]
    exact h.task j

/-- The same request moves on both sides. -/
theorem related_both (c : Config E R ε α Q σ) (d : Config E' R' ε' α' Q' σ') (i : Nat) (s : σ)
    (s' : σ') (t : Task E R ε α Q) (t' : Task E' R' ε' α' Q') (h : Related Shared Rel c d)
    (hshared : Shared s s') (htask : Rel i (some t) (some t')) :
    Related Shared Rel (c.put s i t) (d.put s' i t') := by
  refine related_moved c _ d _ i h hshared ?_ (fun j hj => c.put_task_other _ _ _ _ hj)
    (fun j hj => d.put_task_other _ _ _ _ hj)
  rw [c.put_task_self, d.put_task_self]
  exact htask

/-- A request moves, and the other side does not see it. -/
theorem related_left (c : Config E R ε α Q σ) (d : Config E' R' ε' α' Q' σ') (i : Nat) (s : σ)
    (t : Task E R ε α Q) (h : Related Shared Rel c d) (hshared : Shared s d.shared)
    (htask : Rel i (some t) (d.task i)) : Related Shared Rel (c.put s i t) d := by
  refine related_moved c _ d d i h hshared ?_ (fun j hj => c.put_task_other _ _ _ _ hj)
    (fun _ _ => rfl)
  rw [c.put_task_self]
  exact htask

/-- If every step is matched, every run is. `Ok` leaves runs out. -/
theorem simulates (Ok : Config E R ε α Q σ → Prop)
    (Sim : Config E R ε α Q σ → Config E' R' ε' α' Q' σ' → Prop)
    (hback : ∀ c c' l, StepOf S c l c' → Ok c' → Ok c)
    (c₀ : Config E R ε α Q σ) (d₀ : Config E' R' ε' α' Q' σ') (hstart : Sim c₀ d₀)
    (hstep : ∀ c c' l d, Reaches S c₀ c → Reaches T d₀ d → Ok c' → Sim c d → StepOf S c l c' →
      ∃ d', Reaches T d d' ∧ Sim c' d')
    (c : Config E R ε α Q σ) (hc : Reaches S c₀ c) (hok : Ok c) :
    ∃ d, Reaches T d₀ d ∧ Sim c d := by
  induction hc with
  | refl => exact ⟨d₀, Reaches.refl, hstart⟩
  | step c c' l hc hl ih =>
      -- The run so far is matched, and the match of the last step is put behind it.
      have hl := step_cases c c' l hl
      rcases ih (hback c c' l hl hok) with ⟨d, hd, hsim⟩
      rcases hstep c c' l d hc hd hok hsim hl with ⟨d', hd', hsim'⟩
      exact ⟨d', reaches_trans hd hd', hsim'⟩

end Related

end Async
