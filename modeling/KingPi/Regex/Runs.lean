import KingPi.Regex.Pattern
import Mathlib.Data.List.Chain

/-!
# Cutting at Runs

A list can be cut at its maximal runs of a class of elements. `Cuts` says what
that means: a piece without the class, a run that ends where the class ends,
and then the rest, cut in the same way. `cut` computes the pieces in one scan,
with the flag `collapse` has.

The two belong together. Collapsing the runs to a single separator is joining
the pieces with it, which is `collapse_eq_intercalate`, so splitting a
collapsed list at the separator gives the pieces back and nothing about them is
lost. What is lost is what the runs were, and `collapse_eq_self` says that this
is all there is to lose.

## Main definitions

* `Cuts`: A list is cut into pieces at its maximal runs.
* `cut`: The pieces, computed.
* `Spaced`: No two elements of the class are next to each other.

## Theorems

* `cuts_iff`: The scan computes the one way to cut a list.
* `collapse_eq_intercalate`: Collapsing the runs joins the pieces.
* `splitOn_collapse`: Splitting gives the pieces back.
* `collapse_inj`: Lists collapse alike when they have the same pieces.
* `spaced_collapse`: No two separators are left next to each other.
* `collapse_eq_self`: A list with single separators stays as it is.
-/

namespace Regex

section Cut

variable {α : Type} (p : α → Bool)

/-- A list is cut into pieces at its maximal runs of a class. -/
inductive Cuts : List α → List (List α) → Prop where
  | last (x : List α) : (∀ c ∈ x, p c = false) → Cuts x [x]
  | run (x r s : List α) (l : List (List α)) : (∀ c ∈ x, p c = false) → r ≠ [] →
      (∀ c ∈ r, p c = true) → (∀ c, s.head? = some c → p c = false) → Cuts s l →
      Cuts (x ++ r ++ s) (x :: l)

/-- The pieces between the maximal runs of a class. The flag says that the
    element before belonged to a run. -/
def cut : Bool → List α → List (List α)
  | _, [] => [[]]
  | inRun, c :: cs =>
    if p c then (if inRun then cut true cs else [] :: cut true cs)
    else (cut false cs).modifyHead (List.cons c)

theorem cut_cons_pos (b : Bool) (c : α) (cs : List α) (h : p c = true) :
    cut p b (c :: cs) = if b then cut p true cs else [] :: cut p true cs := by
  rw [cut, if_pos h]

theorem cut_cons_neg (b : Bool) (c : α) (cs : List α) (h : p c = false) :
    cut p b (c :: cs) = (cut p false cs).modifyHead (List.cons c) := by
  rw [cut, if_neg (by rw [h]; exact Bool.false_ne_true)]

theorem cut_ne_nil (b : Bool) (s : List α) : cut p b s ≠ [] := by
  induction s generalizing b with
  | nil => exact List.cons_ne_nil _ _
  | cons c cs ih =>
      cases hc : p c with
      | true =>
          rw [cut_cons_pos p b c cs hc]
          cases b with
          | true => exact ih true
          | false => exact List.cons_ne_nil _ _
      | false =>
          rw [cut_cons_neg p b c cs hc, ne_eq, List.modifyHead_eq_nil_iff]
          exact ih false

/-- No piece has an element of the class. -/
theorem mem_cut (b : Bool) (s x : List α) (hx : x ∈ cut p b s) : ∀ c ∈ x, p c = false := by
  induction s generalizing b x with
  | nil =>
      rw [List.mem_singleton.mp hx]
      exact fun c hc => absurd hc List.not_mem_nil
  | cons d s ih =>
      cases hd : p d with
      | true =>
          rw [cut_cons_pos p b d s hd] at hx
          cases b with
          | true => exact ih true x hx
          | false =>
              rcases List.mem_cons.mp hx with rfl | hx
              · exact fun c hc => absurd hc List.not_mem_nil
              · exact ih true x hx
      | false =>
          rw [cut_cons_neg p b d s hd] at hx
          -- The first piece has grown by `d`, the others are as they were.
          cases hl : cut p false s with
          | nil => exact absurd hl (cut_ne_nil p false s)
          | cons y l =>
              rw [hl, List.modifyHead_cons] at hx
              rcases List.mem_cons.mp hx with rfl | hx
              · intro c hc
                rcases List.mem_cons.mp hc with rfl | hc
                · exact hd
                · exact ih false y (by rw [hl]; exact List.mem_cons_self) c hc
              · exact ih false x (by rw [hl]; exact List.mem_cons_of_mem y hx)

/-- At an element outside the class the flag does not matter. -/
theorem cut_flag (b : Bool) (s : List α) (h : ∀ c, s.head? = some c → p c = false) :
    cut p b s = cut p false s := by
  cases s with
  | nil => rfl
  | cons c cs =>
      have hc := h c rfl
      rw [cut_cons_neg p b c cs hc, cut_cons_neg p false c cs hc]

/-- The rest of a run is passed over. -/
theorem cut_run (r s : List α) (hr : ∀ c ∈ r, p c = true) : cut p true (r ++ s) = cut p true s := by
  induction r with
  | nil => rfl
  | cons c r ih =>
      rw [List.cons_append, cut_cons_pos p true c _ (hr c List.mem_cons_self), if_pos rfl]
      exact ih (fun d hd => hr d (List.mem_cons_of_mem c hd))

/-- A piece at the front is the first piece. -/
theorem cut_append (x s : List α) (l : List (List α)) (hx : ∀ c ∈ x, p c = false)
    (hs : cut p false s = [] :: l) : cut p false (x ++ s) = x :: l := by
  induction x with
  | nil => exact hs
  | cons c x ih =>
      rw [List.cons_append, cut_cons_neg p false c _ (hx c List.mem_cons_self),
        ih (fun d hd => hx d (List.mem_cons_of_mem c hd)), List.modifyHead_cons]

/-- Rewriting the elements, each within the class or outside of it, rewrites
    the pieces. -/
theorem cut_map (f : α → α) (b : Bool) (s : List α) (hp : ∀ c ∈ s, p (f c) = p c) :
    cut p b (s.map f) = (cut p b s).map (List.map f) := by
  induction s generalizing b with
  | nil => rfl
  | cons c s ih =>
      have hc := hp c List.mem_cons_self
      have hs := fun b => ih b (fun d hd => hp d (List.mem_cons_of_mem c hd))
      rw [List.map_cons]
      cases hpc : p c with
      | false =>
          rw [cut_cons_neg p b (f c) _ (hc.trans hpc), cut_cons_neg p b c s hpc, hs]
          cases cut p false s with
          | nil => rfl
          | cons x l => rfl
      | true =>
          rw [cut_cons_pos p b (f c) _ (hc.trans hpc), cut_cons_pos p b c s hpc, hs]
          cases b with
          | true => rfl
          | false => rfl

theorem cut_of_cuts (s : List α) (l : List (List α)) (h : Cuts p s l) : cut p false s = l := by
  induction h with
  | last x hx =>
      have hcut := cut_append p x [] [] hx rfl
      rw [List.append_nil] at hcut
      exact hcut
  | run x r s l hx hne hr hs _ ih =>
      cases r with
      | nil => exact absurd rfl hne
      | cons c r =>
          rw [List.append_assoc]
          refine cut_append p x _ l hx ?_
          rw [List.cons_append, cut_cons_pos p false c _ (hr c List.mem_cons_self),
            if_neg Bool.false_ne_true, cut_run p r s (fun d hd => hr d (List.mem_cons_of_mem c hd)),
            cut_flag p true s hs, ih]

/-- An element outside the class joins the first piece. -/
theorem cuts_cons_neg (c : α) (s : List α) (l : List (List α)) (hc : p c = false)
    (h : Cuts p s l) : Cuts p (c :: s) (l.modifyHead (List.cons c)) := by
  cases h with
  | last _ hx => exact Cuts.last _ (List.forall_mem_cons.mpr ⟨hc, hx⟩)
  | run x r s l hx hne hr hs hl =>
      exact Cuts.run (c :: x) r s l (List.forall_mem_cons.mpr ⟨hc, hx⟩) hne hr hs hl

/-- An element of the class in front of a run joins the run. -/
theorem cuts_cons_run (c d : α) (s : List α) (l : List (List α)) (hc : p c = true)
    (hd : p d = true) (h : Cuts p (d :: s) l) : Cuts p (c :: d :: s) l := by
  generalize hds : d :: s = t at h
  cases h with
  | last _ hx =>
      rw [← hds] at hx
      rw [hx d List.mem_cons_self] at hd
      exact absurd hd Bool.false_ne_true
  | run x r s' l hx hne hr hs hl =>
      cases x with
      | nil =>
          exact Cuts.run [] (c :: r) s' l hx (List.cons_ne_nil _ _)
            (List.forall_mem_cons.mpr ⟨hc, hr⟩) hs hl
      | cons e x =>
          -- A piece in front would start with `d`.
          rw [List.cons_append, List.cons_append, List.cons.injEq] at hds
          rw [hds.1, hx e List.mem_cons_self] at hd
          exact absurd hd Bool.false_ne_true

theorem cuts_cut (s : List α) : Cuts p s (cut p false s) := by
  induction s with
  | nil => exact Cuts.last [] (fun c hc => absurd hc List.not_mem_nil)
  | cons c s ih =>
      cases hc : p c with
      | false =>
          rw [cut_cons_neg p false c s hc]
          exact cuts_cons_neg p c s _ hc ih
      | true =>
          rw [cut_cons_pos p false c s hc, if_neg Bool.false_ne_true]
          cases s with
          | nil =>
              refine Cuts.run [] [c] [] _ (fun d hd => absurd hd List.not_mem_nil)
                (List.cons_ne_nil _ _) (List.forall_mem_singleton.mpr hc) (fun d hd => ?_) ih
              exact absurd hd (by simp only [List.head?_nil, reduceCtorEq, not_false_eq_true])
          | cons d t =>
              -- The run ends here, or it goes on.
              cases hd : p d with
              | false =>
                  have hhead : ∀ e, (d :: t).head? = some e → p e = false := by
                    intro e he
                    rw [← Option.some.inj he]
                    exact hd
                  rw [cut_flag p true (d :: t) hhead]
                  exact Cuts.run [] [c] (d :: t) _ (fun e he => absurd he List.not_mem_nil)
                    (List.cons_ne_nil _ _) (List.forall_mem_singleton.mpr hc) hhead ih
              | true =>
                  rw [cut_cons_pos p false d t hd, if_neg Bool.false_ne_true] at ih
                  rw [cut_cons_pos p true d t hd, if_pos rfl]
                  exact cuts_cons_run p c d t _ hc hd ih

/-- The scan computes the one way to cut a list. -/
theorem cuts_iff (s : List α) (l : List (List α)) : Cuts p s l ↔ cut p false s = l := by
  constructor
  · exact cut_of_cuts p s l
  · rintro rfl
    exact cuts_cut p s

end Cut

section Collapse

variable (p : Char → Bool) (d : Char)

theorem intercalate_modifyHead (c : Char) (l : List (List Char)) (h : l ≠ []) :
    [d].intercalate (l.modifyHead (List.cons c)) = c :: [d].intercalate l := by
  cases l with
  | nil => exact absurd rfl h
  | cons x l =>
      cases l with
      | nil => simp only [List.modifyHead_cons, List.intercalate_singleton]
      | cons y l => simp only [List.modifyHead_cons, List.intercalate_cons_cons, List.cons_append]

/-- Collapsing the runs to a separator joins the pieces with it. -/
theorem collapse_eq_intercalate (b : Bool) (s : List Char) :
    collapse p [d] b s = [d].intercalate (cut p b s) := by
  induction s generalizing b with
  | nil => rfl
  | cons c s ih =>
      cases hc : p c with
      | false =>
          rw [cut_cons_neg p b c s hc, intercalate_modifyHead d c _ (cut_ne_nil p false s), ← ih]
          simp only [collapse, hc, Bool.false_eq_true, if_false]
      | true =>
          rw [cut_cons_pos p b c s hc]
          cases b with
          | true =>
              rw [if_pos rfl, ← ih]
              simp only [collapse, hc, if_true, List.nil_append]
          | false =>
              -- A run begins: the piece before it is done, and a separator is written.
              rw [if_neg Bool.false_ne_true,
                List.intercalate_cons_of_ne_nil (cut_ne_nil p true s), ← ih]
              simp only [collapse, hc, if_true, Bool.false_eq_true, if_false, List.nil_append]

/-- Splitting at the separator gives the pieces back. -/
theorem splitOn_collapse (hd : p d = true) (b : Bool) (s : List Char) :
    (collapse p [d] b s).splitOn d = cut p b s := by
  rw [collapse_eq_intercalate]
  refine List.splitOn_intercalate d (fun x hx hmem => ?_) (cut_ne_nil p b s)
  rw [mem_cut p b s x hx d hmem] at hd
  exact absurd hd Bool.false_ne_true

/-- Lists collapse alike exactly when they have the same pieces. -/
theorem collapse_inj (hd : p d = true) (b : Bool) (s t : List Char) :
    collapse p [d] b s = collapse p [d] b t ↔ cut p b s = cut p b t := by
  constructor
  · intro h
    rw [← splitOn_collapse p d hd, ← splitOn_collapse p d hd, h]
  · intro h
    rw [collapse_eq_intercalate, collapse_eq_intercalate, h]

/-- Rewriting the characters, each within the class or outside of it, and
    collapsing commute. -/
theorem collapse_map (f : Char → Char) (repl : List Char) (hrepl : repl.map f = repl) (b : Bool)
    (s : List Char) (hp : ∀ c ∈ s, p (f c) = p c) :
    collapse p repl b (s.map f) = (collapse p repl b s).map f := by
  induction s generalizing b with
  | nil => rfl
  | cons c s ih =>
      have hc := hp c List.mem_cons_self
      have hs := fun b => ih b (fun d hd => hp d (List.mem_cons_of_mem c hd))
      cases hpc : p c with
      | false =>
          rw [hpc] at hc
          simp only [List.map_cons, collapse, hc, hpc, Bool.false_eq_true, if_false, hs]
      | true =>
          rw [hpc] at hc
          cases b with
          | true => simp only [List.map_cons, collapse, hc, hpc, if_true, List.nil_append, hs]
          | false => simp only [List.map_cons, collapse, hc, hpc, if_true, Bool.false_eq_true,
              if_false, List.map_append, hrepl, hs]

/-- What is left of a list is separators and its elements outside the class. -/
theorem mem_collapse (repl : List Char) (b : Bool) (s : List Char) (c : Char)
    (h : c ∈ collapse p repl b s) : c ∈ repl ∨ c ∈ s ∧ p c = false := by
  induction s generalizing b with
  | nil => exact absurd h List.not_mem_nil
  | cons e s ih =>
      cases he : p e with
      | true =>
          simp only [collapse, he, if_true] at h
          rcases List.mem_append.mp h with h | h
          · cases b with
            | true => exact absurd h List.not_mem_nil
            | false => exact Or.inl h
          · exact (ih true h).imp_right (fun hs => ⟨List.mem_cons_of_mem e hs.1, hs.2⟩)
      | false =>
          simp only [collapse, he, Bool.false_eq_true, if_false] at h
          rcases List.mem_cons.mp h with rfl | h
          · exact Or.inr ⟨List.mem_cons_self, he⟩
          · exact (ih false h).imp_right (fun hs => ⟨List.mem_cons_of_mem e hs.1, hs.2⟩)

/-- Collapsing the runs to one character makes nothing longer. -/
theorem length_collapse_le (b : Bool) (s : List Char) :
    (collapse p [d] b s).length ≤ s.length := by
  induction s generalizing b with
  | nil => exact Nat.le_refl _
  | cons c s ih =>
      cases hc : p c with
      | false =>
          simp only [collapse, hc, Bool.false_eq_true, if_false, List.length_cons]
          exact Nat.succ_le_succ (ih false)
      | true =>
          have htail := ih true
          cases b with
          | true =>
              simp only [collapse, hc, if_true, List.nil_append, List.length_cons]
              omega
          | false =>
              simp only [collapse, hc, if_true, Bool.false_eq_true, if_false, List.length_cons,
                List.singleton_append]
              omega

/-- No two elements of the class are next to each other. -/
def Spaced (s : List Char) : Prop := s.IsChain (fun c e => p c = false ∨ p e = false)

/-- After collapsing, no two separators are next to each other, and none comes
    first where a run was under way. -/
theorem spaced_collapse (s : List Char) :
    Spaced p (collapse p [d] false s) ∧ Spaced p (collapse p [d] true s) ∧
      ∀ c, (collapse p [d] true s).head? = some c → p c = false := by
  induction s with
  | nil => exact ⟨List.IsChain.nil, List.IsChain.nil, fun c hc => absurd hc (by
      simp only [collapse, List.head?_nil, reduceCtorEq, not_false_eq_true])⟩
  | cons c s ih =>
      rcases ih with ⟨hfalse, htrue, hhead⟩
      cases hc : p c with
      | false =>
          have hcons : Spaced p (c :: collapse p [d] false s) :=
            List.isChain_cons.mpr ⟨fun e _ => Or.inl hc, hfalse⟩
          simp only [collapse, hc, Bool.false_eq_true, if_false]
          refine ⟨hcons, hcons, fun e he => ?_⟩
          rw [← Option.some.inj he]
          exact hc
      | true =>
          simp only [collapse, hc, if_true, Bool.false_eq_true, if_false, List.nil_append,
            List.singleton_append]
          refine ⟨List.isChain_cons.mpr ⟨fun e he => Or.inr (hhead e he), htrue⟩, htrue, hhead⟩

/-- A list with single separators, all of them `d`, stays as it is. -/
theorem collapse_eq_self (s : List Char) (hs : Spaced p s) (hd : ∀ c ∈ s, p c = true → c = d) :
    collapse p [d] false s = s := by
  induction s with
  | nil => rfl
  | cons c s ih =>
      rcases List.isChain_cons.mp hs with ⟨hhead, htail⟩
      have hrest := ih htail (fun e he => hd e (List.mem_cons_of_mem c he))
      cases hc : p c with
      | false => simp only [collapse, hc, Bool.false_eq_true, if_false, hrest]
      | true =>
          -- The next character is no separator, so no run is under way for it.
          have hflag : collapse p [d] true s = collapse p [d] false s := by
            cases s with
            | nil => rfl
            | cons e s =>
                have he := (hhead e rfl).resolve_left (ne_false_of_eq_true hc)
                simp only [collapse, he, Bool.false_eq_true, if_false]
          simp only [collapse, hc, if_true, Bool.false_eq_true, if_false, List.singleton_append,
            hflag, hrest]
          rw [hd c List.mem_cons_self hc]

end Collapse

end Regex
