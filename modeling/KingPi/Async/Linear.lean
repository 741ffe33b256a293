import Mathlib.Tactic.Common
import Mathlib.Data.List.Infix

/-!
# Linearizability

What the clients of a shared object see of it is a history: the calls they
made and the answers they got, in the order in which that happened. The
history is linearizable if the object might as well have carried out the
calls one at a time: there is an order of them that the object's sequential
specification allows, with the answers that were given, and in which a call
that was answered before another was made comes first. A call that has not
been answered may be left out of it, or be in it with any answer.

The usual way to find such an order is to name, for each call, the moment at
which it takes effect. `Points` is what has to be shown for that: a trace of
the whole system, the records of which are where a call takes effect, and
what the object's state is after each. Calls that were answered have their
moment between the call and the answer, and the order of the moments is then
the order wanted.

## Main definitions

* `Event`: A call or an answer.
* `Legal`: The runs of a sequential specification.
* `Linearizable`: The history might have come from one call at a time.
* `Points`: Where in a trace the calls take effect.

## Theorems

* `Points.linearizable`: Naming the moments is enough.
-/

namespace Async

open scoped List

/-- What the clients see: a call, with a number of its own, or an answer. -/
inductive Event (O R : Type) where
  | inv (i : Nat) (o : O)
  | res (i : Nat) (r : R)

section Spec

variable {σ O R : Type}

/-- The runs of a sequential specification. -/
def Legal (step : σ → O → R → σ → Prop) : σ → List (Nat × O × R) → Prop
  | _, [] => True
  | s, (_, o, r) :: ops => ∃ s', step s o r s' ∧ Legal step s' ops

/-- An order of the calls of a history, with their answers. -/
structure Linearization (step : σ → O → R → σ → Prop) (s : σ) (h : List (Event O R))
    (ops : List (Nat × O × R)) : Prop where
  once : (ops.map Prod.fst).Nodup
  legal : Legal step s ops
  invoked : ∀ i o r, (i, o, r) ∈ ops → Event.inv i o ∈ h ∧ ∀ r', Event.res i r' ∈ h → r' = r
  complete : ∀ i r, Event.res i r ∈ h → ∃ o, (i, o, r) ∈ ops
  realTime : ∀ i j r o, [Event.res i r, Event.inv j o] <+ h → j ∈ ops.map Prod.fst →
    [i, j] <+ ops.map Prod.fst

/-- The history might have come from one call at a time. -/
def Linearizable (step : σ → O → R → σ → Prop) (s : σ) (h : List (Event O R)) : Prop :=
  ∃ ops, Linearization step s h ops

end Spec

section Points

variable {σ O R ρ : Type}

/-- Two elements of a filtered list, in their order, go back to two of the
    list. -/
theorem pair_sublist_filterMap {α β : Type} (f : α → Option β) (l : List α) (b b' : β)
    (h : [b, b'] <+ l.filterMap f) : ∃ A x B y C, l = A ++ x :: (B ++ y :: C) ∧
      f x = some b ∧ f y = some b' := by
  induction l with
  | nil => exact absurd h (by simp only [List.filterMap_nil, List.sublist_nil, reduceCtorEq,
      not_false_eq_true])
  | cons a l ih =>
      cases hfa : f a with
      | none =>
          rw [List.filterMap_cons_none hfa] at h
          rcases ih h with ⟨A, x, B, y, C, rfl, hx, hy⟩
          exact ⟨a :: A, x, B, y, C, rfl, hx, hy⟩
      | some d =>
          rw [List.filterMap_cons_some hfa] at h
          cases h with
          | cons _ h =>
              rcases ih h with ⟨A, x, B, y, C, rfl, hx, hy⟩
              exact ⟨a :: A, x, B, y, C, rfl, hx, hy⟩
          | cons_cons _ h =>
              rcases List.mem_filterMap.mp (List.singleton_sublist.mp h) with ⟨y, hy, hfy⟩
              rcases List.mem_iff_append.mp hy with ⟨B, C, rfl⟩
              exact ⟨[], a, B, y, C, rfl, hfa, hfy⟩

/-- Of two places in a list, the first is in what is before the second. -/
theorem split_earlier {α : Type} (l A B A' B' : List α) (x y : α) (h : l = A ++ x :: B)
    (h' : l = A' ++ y :: B') (hlt : A.length < A'.length) : ∃ D, A' = A ++ x :: D := by
  have hpre : A ++ [x] <+: A' := by
    refine List.prefix_of_prefix_length_le (show A ++ [x] <+: l from ⟨B, ?_⟩) ⟨_, h'.symm⟩ ?_
    · rw [h, List.append_assoc, List.singleton_append]
    · rw [List.length_append, List.length_singleton]
      exact hlt
  rcases hpre with ⟨D, rfl⟩
  exact ⟨D, by rw [List.append_assoc, List.singleton_append]⟩

/-- Where in a trace the calls take effect: `point` says which records are such
    moments, and of which call with which answer; `state` is the object's state
    after a part of the trace. -/
structure Points (step : σ → O → R → σ → Prop) (tr : List ρ) (event : ρ → Option (Event O R))
    (point : ρ → Option (Nat × O × R)) (state : List ρ → σ) : Prop where
  effect : ∀ A x B, tr = A ++ x :: B → ∀ i o r, point x = some (i, o, r) →
    step (state A) o r (state (A ++ [x]))
  still : ∀ A x B, tr = A ++ x :: B → point x = none → state (A ++ [x]) = state A
  once : ∀ A x B y C, tr = A ++ x :: (B ++ y :: C) → ∀ i p p', point x = some (i, p) →
    point y ≠ some (i, p')
  calledOnce : ∀ A x B y C, tr = A ++ x :: (B ++ y :: C) → ∀ i o o', event x = some (.inv i o) →
    event y ≠ some (.inv i o')
  called : ∀ A x B, tr = A ++ x :: B → ∀ i o r, point x = some (i, o, r) →
    ∃ y ∈ A, event y = some (.inv i o)
  unanswered : ∀ A x B, tr = A ++ x :: B → ∀ i p, point x = some (i, p) →
    ∀ y ∈ A, ∀ r, event y ≠ some (.res i r)
  answer : ∀ x ∈ tr, ∀ y ∈ tr, ∀ i o r r', point x = some (i, o, r) →
    event y = some (.res i r') → r' = r
  complete : ∀ y ∈ tr, ∀ i r, event y = some (.res i r) → ∃ x ∈ tr, ∃ o, point x = some (i, o, r)

namespace Points

variable {step : σ → O → R → σ → Prop} {tr : List ρ} {event : ρ → Option (Event O R)}
  {point : ρ → Option (Nat × O × R)} {state : List ρ → σ}

/-- The moments in their order are a run of the specification. -/
theorem legal (P : Points step tr event point state) (A B : List ρ) (h : tr = A ++ B) :
    Legal step (state A) (B.filterMap point) := by
  induction B generalizing A with
  | nil => trivial
  | cons x B ih =>
      have hrest := ih (A ++ [x]) (by rw [h, List.append_assoc, List.singleton_append])
      cases hx : point x with
      | none =>
          rw [List.filterMap_cons_none hx, ← P.still A x B h hx]
          exact hrest
      | some p =>
          rw [List.filterMap_cons_some hx]
          exact ⟨_, P.effect A x B h _ _ _ hx, hrest⟩

/-- No call takes effect twice. -/
theorem nodup (P : Points step tr event point state) (A B : List ρ) (h : tr = A ++ B) :
    ((B.filterMap point).map Prod.fst).Nodup := by
  induction B generalizing A with
  | nil => exact List.nodup_nil
  | cons x B ih =>
      have hrest := ih (A ++ [x]) (by rw [h, List.append_assoc, List.singleton_append])
      cases hx : point x with
      | none =>
          rw [List.filterMap_cons_none hx]
          exact hrest
      | some p =>
          rw [List.filterMap_cons_some hx, List.map_cons]
          refine List.nodup_cons.mpr ⟨fun hmem => ?_, hrest⟩
          rcases List.mem_map.mp hmem with ⟨⟨i, p'⟩, hp', hi⟩
          rcases List.mem_filterMap.mp hp' with ⟨y, hy, hfy⟩
          rcases List.mem_iff_append.mp hy with ⟨C, D, rfl⟩
          rw [show i = p.1 from hi] at hfy
          exact P.once A x C y D h p.1 p.2 p' hx hfy

/-- A call answered before another is made takes effect before it. -/
theorem before (P : Points step tr event point state) (i j : Nat) (r : R) (o : O)
    (h : [Event.res i r, Event.inv j o] <+ tr.filterMap event)
    (hj : j ∈ (tr.filterMap point).map Prod.fst) :
    [i, j] <+ (tr.filterMap point).map Prod.fst := by
  rcases pair_sublist_filterMap event tr _ _ h with ⟨A, x, B, y, C, htr, hx, hy⟩
  have hxmem : x ∈ tr := by
    rw [htr]
    exact List.mem_append_right _ List.mem_cons_self
  rcases P.complete x hxmem i r hx with ⟨p, hp, oi, hpoint⟩
  rcases List.mem_iff_append.mp hp with ⟨A₁, B₁, htr₁⟩
  rcases List.mem_map.mp hj with ⟨⟨j', q⟩, hq, rfl⟩
  rcases List.mem_filterMap.mp hq with ⟨z, hz, hzpoint⟩
  rcases List.mem_iff_append.mp hz with ⟨A₂, B₂, htr₂⟩
  -- The first call has taken effect when it is answered.
  have hfirst : A₁.length ≤ A.length := by
    by_contra hlt
    rcases split_earlier tr A _ A₁ B₁ x p htr htr₁ (Nat.lt_of_not_le hlt) with ⟨D, rfl⟩
    exact P.unanswered _ p B₁ htr₁ i _ hpoint x
      (List.mem_append_right _ List.mem_cons_self) r hx
  -- The second has not before it is made, and it is made once.
  have hsecond : A.length < A₂.length := by
    by_contra hle
    rcases P.called A₂ z B₂ htr₂ j' q.1 q.2 hzpoint with ⟨y', hy', hinv⟩
    have hin : A₂ <+: tr := ⟨_, htr₂.symm⟩
    have hpre : A₂ <+: A := List.prefix_of_prefix_length_le hin ⟨_, htr.symm⟩ (Nat.le_of_not_lt hle)
    rcases List.mem_iff_append.mp (hpre.subset hy') with ⟨D, D', rfl⟩
    refine P.calledOnce D y' (D' ++ x :: B) y C ?_ j' q.1 o hinv hy
    rw [htr]
    simp only [List.append_assoc, List.cons_append]
  rcases split_earlier tr A₁ B₁ A₂ B₂ p z htr₁ htr₂ (Nat.lt_of_le_of_lt hfirst hsecond) with
    ⟨D, rfl⟩
  have hsub : [p, z] <+ tr := by
    rw [htr₂, List.append_assoc, List.cons_append]
    refine List.Sublist.trans ?_ (List.sublist_append_right _ _)
    exact List.Sublist.cons_cons p (List.Sublist.trans
      (List.singleton_sublist.mpr List.mem_cons_self) (List.sublist_append_right _ _))
  have hmap := (hsub.filterMap point).map Prod.fst
  rw [List.filterMap_cons_some hpoint, List.filterMap_cons_some hzpoint] at hmap
  exact hmap

/-- Naming the moments is enough. -/
theorem linearizable (P : Points step tr event point state) :
    Linearizable step (state []) (tr.filterMap event) := by
  refine ⟨tr.filterMap point, P.nodup [] tr rfl, P.legal [] tr rfl, ?_, ?_, P.before⟩
  · intro i o r hmem
    rcases List.mem_filterMap.mp hmem with ⟨x, hx, hpoint⟩
    rcases List.mem_iff_append.mp hx with ⟨A, B, htr⟩
    refine ⟨?_, fun r' hres => ?_⟩
    · rcases P.called A x B htr i o r hpoint with ⟨y, hy, hinv⟩
      refine List.mem_filterMap.mpr ⟨y, ?_, hinv⟩
      rw [htr]
      exact List.mem_append_left _ hy
    · rcases List.mem_filterMap.mp hres with ⟨y, hy, hevent⟩
      exact P.answer x hx y hy i o r r' hpoint hevent
  · intro i r hres
    rcases List.mem_filterMap.mp hres with ⟨y, hy, hevent⟩
    rcases P.complete y hy i r hevent with ⟨x, hx, o, hpoint⟩
    exact ⟨o, List.mem_filterMap.mpr ⟨x, hx, hpoint⟩⟩

end Points

end Points

end Async
