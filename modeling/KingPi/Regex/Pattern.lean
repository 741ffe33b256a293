import Mathlib.Tactic.Common

/-!
# Backtracking Patterns

The part of Python's `re` that matters for whole-name patterns: character
classes, sequence, the optional group, the greedy star and plus, and the two
anchors.

A match is a search through positions. `ends r x` lists every position a
match of `r` from `x` can end at, in the order a backtracking matcher tries
them, so the first element is what `re` reports and emptiness is failure.
Keeping the order matters for substitution, where the text replaced is the
preferred match and not just any; membership alone settles `re.match`.

The anchors follow `re` without flags. `^` holds at the start of the string
only. `$` holds at the end, and also just before a newline that ends the
string.

A greedy loop takes its body as often as it can before the rest is tried. An
iteration that consumes nothing would repeat forever, so it is not taken,
which is what `re` does as well; the length of the remaining text then bounds
the number of iterations.

## Main definitions

* `Pattern`: The syntax of patterns.
* `Pos`: A position in a string.
* `ends`: Where a match can end, in order of preference.
* `matchesStart`: Python's `re.match`, as a truth value.
* `sub`: Python's `re.sub`, for a pattern that never matches empty.
* `collapse`: Replacing every maximal run of a class.

## Theorems

* `matchesStart_iff`: A string matches when the search finds anything.
* `mem_ends_star`: A star of a class consumes any number of its characters.
* `ends_star_head`: Its preferred match takes as many as there are.
* `sub_plus`: Substituting a plus of a class replaces its maximal runs.
-/

namespace Regex

/-- The syntax of patterns. -/
inductive Pattern where
  | chars (p : Char → Bool)
  | seq (a b : Pattern)
  | opt (a : Pattern)
  | star (a : Pattern)
  | plus (a : Pattern)
  | bol
  | eol

/-- A position: the text still to come, and whether any came before it. -/
structure Pos where
  atStart : Bool
  rest : List Char

/-- The greedy loop: one more iteration is preferred to none. -/
def iterate (f : Pos → List Pos) : Nat → Pos → List Pos
  | 0, x => [x]
  | n + 1, x =>
    ((f x).filter (fun y => y.rest.length < x.rest.length)).flatMap (iterate f n) ++ [x]

/-- Every position where a match from here can end, preferred ones first. -/
def ends : Pattern → Pos → List Pos
  | .chars p, x => match x.rest with
    | [] => []
    | c :: cs => if p c then [⟨false, cs⟩] else []
  | .seq a b, x => (ends a x).flatMap (ends b)
  | .opt a, x => ends a x ++ [x]
  | .star a, x => iterate (ends a) x.rest.length x
  | .plus a, x => (ends a x).flatMap (fun y => iterate (ends a) y.rest.length y)
  | .bol, x => if x.atStart then [x] else []
  | .eol, x => if x.rest = [] ∨ x.rest = ['\n'] then [x] else []

/-- Python's `re.match`: does the pattern match at the start of the string? -/
def matchesStart (r : Pattern) (s : List Char) : Bool := !(ends r ⟨true, s⟩).isEmpty

/-- Python's `re.sub` from a position on. A match that consumes nothing is
    not taken, so this is `re.sub` for a pattern that has none. -/
def subFrom (r : Pattern) (repl : List Char) : Nat → Pos → List Char
  | 0, x => x.rest
  | n + 1, x => match x.rest with
    | [] => []
    | c :: cs => match (ends r x).head? with
      | some y =>
        if y.rest.length < x.rest.length then repl ++ subFrom r repl n y
        else c :: subFrom r repl n ⟨false, cs⟩
      | none => c :: subFrom r repl n ⟨false, cs⟩

/-- Python's `re.sub`. -/
def sub (r : Pattern) (repl s : List Char) : List Char := subFrom r repl s.length ⟨true, s⟩

/-- Replace every maximal run of a class. The flag says that the character
    before belonged to the run. -/
def collapse (p : Char → Bool) (repl : List Char) : Bool → List Char → List Char
  | _, [] => []
  | inRun, c :: cs =>
    if p c then (if inRun then [] else repl) ++ collapse p repl true cs
    else c :: collapse p repl false cs

section Equations

theorem iterate_succ (f : Pos → List Pos) (n : Nat) (x : Pos) : iterate f (n + 1) x =
    ((f x).filter (fun y => y.rest.length < x.rest.length)).flatMap (iterate f n) ++ [x] := rfl

theorem ends_chars_nil (p : Char → Bool) (b : Bool) : ends (.chars p) ⟨b, []⟩ = [] := rfl

theorem ends_chars_cons (p : Char → Bool) (b : Bool) (c : Char) (cs : List Char) :
    ends (.chars p) ⟨b, c :: cs⟩ = if p c then [⟨false, cs⟩] else [] := rfl

theorem ends_seq (a b : Pattern) (x : Pos) :
    ends (.seq a b) x = (ends a x).flatMap (ends b) := rfl

theorem ends_opt (a : Pattern) (x : Pos) : ends (.opt a) x = ends a x ++ [x] := rfl

theorem ends_plus (a : Pattern) (x : Pos) :
    ends (.plus a) x = (ends a x).flatMap (fun y => iterate (ends a) y.rest.length y) := rfl

theorem ends_bol (x : Pos) : ends .bol x = if x.atStart then [x] else [] := rfl

theorem ends_eol (x : Pos) :
    ends .eol x = if x.rest = [] ∨ x.rest = ['\n'] then [x] else [] := rfl

theorem subFrom_cons (r : Pattern) (repl : List Char) (n : Nat) (b : Bool) (c : Char)
    (cs : List Char) : subFrom r repl (n + 1) ⟨b, c :: cs⟩ = match (ends r ⟨b, c :: cs⟩).head? with
      | some y =>
        if y.rest.length < (c :: cs).length then repl ++ subFrom r repl n y
        else c :: subFrom r repl n ⟨false, cs⟩
      | none => c :: subFrom r repl n ⟨false, cs⟩ := rfl

theorem collapse_cons (p : Char → Bool) (repl : List Char) (inRun : Bool) (c : Char)
    (cs : List Char) : collapse p repl inRun (c :: cs) =
      if p c then (if inRun then [] else repl) ++ collapse p repl true cs
      else c :: collapse p repl false cs := rfl

end Equations

section Membership

theorem mem_ends_chars (p : Char → Bool) (x y : Pos) :
    y ∈ ends (.chars p) x ↔ ∃ c cs, x.rest = c :: cs ∧ p c = true ∧ y = ⟨false, cs⟩ := by
  rcases x with ⟨b, s⟩
  cases s with
  | nil =>
      simp only [ends_chars_nil, List.not_mem_nil, reduceCtorEq, false_and, exists_false]
  | cons c cs =>
      simp only [ends_chars_cons, List.cons.injEq]
      constructor
      · intro h
        split at h
        · rename_i hc
          exact ⟨c, cs, ⟨rfl, rfl⟩, hc, List.mem_singleton.mp h⟩
        · exact absurd h List.not_mem_nil
      · rintro ⟨d, ds, ⟨rfl, rfl⟩, hd, rfl⟩
        rw [if_pos hd]
        exact List.mem_singleton.mpr rfl

theorem mem_ends_seq (a b : Pattern) (x y : Pos) :
    y ∈ ends (.seq a b) x ↔ ∃ z, z ∈ ends a x ∧ y ∈ ends b z := by
  rw [ends_seq, List.mem_flatMap]

theorem mem_ends_opt (a : Pattern) (x y : Pos) :
    y ∈ ends (.opt a) x ↔ y ∈ ends a x ∨ y = x := by
  rw [ends_opt, List.mem_append, List.mem_singleton]

theorem mem_ends_bol (x y : Pos) : y ∈ ends .bol x ↔ x.atStart = true ∧ y = x := by
  rw [ends_bol]
  split <;> simp_all only [List.mem_singleton, true_and, List.not_mem_nil, false_and,
    Bool.false_eq_true]

theorem mem_ends_eol (x y : Pos) :
    y ∈ ends .eol x ↔ (x.rest = [] ∨ x.rest = ['\n']) ∧ y = x := by
  rw [ends_eol]
  split <;> simp_all only [List.mem_singleton, true_and, List.not_mem_nil, false_and]

/-- A string matches when the search from its start finds anything. -/
theorem matchesStart_iff (r : Pattern) (s : List Char) :
    matchesStart r s = true ↔ ∃ y, y ∈ ends r ⟨true, s⟩ := by
  rw [matchesStart, Bool.not_eq_true', List.isEmpty_eq_false_iff_exists_mem]

end Membership

section Star

variable (p : Char → Bool)

theorem ends_chars_cons_pos (b : Bool) (c : Char) (cs : List Char) (h : p c = true) :
    ends (.chars p) ⟨b, c :: cs⟩ = [⟨false, cs⟩] := by
  rw [ends_chars_cons, if_pos h]

theorem ends_chars_cons_neg (b : Bool) (c : Char) (cs : List Char) (h : p c = false) :
    ends (.chars p) ⟨b, c :: cs⟩ = [] := by
  rw [ends_chars_cons, if_neg (Bool.eq_false_iff.mp h)]

/-- One turn of the loop over a class: a character of the class is taken
    first, then the loop may stop here. -/
theorem iterate_chars_cons (n : Nat) (b : Bool) (c : Char) (cs : List Char)
    (h : p c = true) :
    iterate (ends (.chars p)) (n + 1) ⟨b, c :: cs⟩
      = iterate (ends (.chars p)) n ⟨false, cs⟩ ++ [⟨b, c :: cs⟩] := by
  rw [iterate_succ, ends_chars_cons_pos p b c cs h]
  have hlt : cs.length < (c :: cs).length := by
    rw [List.length_cons]
    omega
  simp only [hlt, decide_true, List.filter_cons_of_pos, List.filter_nil, List.flatMap_cons,
    List.flatMap_nil, List.append_nil]

theorem iterate_chars_stop (n : Nat) (b : Bool) (s : List Char)
    (h : ∀ c cs, s = c :: cs → p c = false) :
    iterate (ends (.chars p)) n ⟨b, s⟩ = [⟨b, s⟩] := by
  cases n with
  | zero => rfl
  | succ n =>
      cases s with
      | nil => rw [iterate_succ, ends_chars_nil, List.filter_nil, List.flatMap_nil, List.nil_append]
      | cons c cs =>
          rw [iterate_succ, ends_chars_cons_neg p b c cs (h c cs rfl)]
          simp only [List.filter_nil, List.flatMap_nil, List.nil_append]

/-- A star of a class consumes any number of its characters, and nothing
    else. -/
theorem mem_ends_star (x y : Pos) :
    y ∈ ends (.star (.chars p)) x
      ↔ ∃ pre, x.rest = pre ++ y.rest ∧ (∀ c ∈ pre, p c = true) ∧
          y.atStart = (x.atStart && pre.isEmpty) := by
  rcases x with ⟨b, s⟩
  rcases y with ⟨b', t⟩
  change _ ∈ iterate (ends (.chars p)) s.length ⟨b, s⟩ ↔ _
  induction s generalizing b with
  | nil =>
      rw [iterate_chars_stop p _ b [] (fun c cs h => absurd h (by simp only [reduceCtorEq,
        not_false_eq_true]))]
      simp only [List.mem_singleton, Pos.mk.injEq]
      constructor
      · rintro ⟨rfl, rfl⟩
        refine ⟨[], rfl, fun c hc => absurd hc List.not_mem_nil, ?_⟩
        simp only [List.isEmpty_nil, Bool.and_true]
      · rintro ⟨pre, hs, -, hb⟩
        rcases List.append_eq_nil_iff.mp hs.symm with ⟨rfl, rfl⟩
        simpa only [List.isEmpty_nil, Bool.and_true, and_true] using hb
  | cons c cs ih =>
      cases hc : p c with
      -- The loop cannot enter, so it ends where it started.
      | false =>
          rw [iterate_chars_stop p _ b (c :: cs) (fun d ds h => by
            rw [List.cons.injEq] at h
            rw [← h.1]
            exact hc)]
          simp only [List.mem_singleton, Pos.mk.injEq]
          constructor
          · rintro ⟨rfl, rfl⟩
            refine ⟨[], rfl, fun c hc => absurd hc List.not_mem_nil, ?_⟩
            simp only [List.isEmpty_nil, Bool.and_true]
          · rintro ⟨pre, hs, hpre, hb⟩
            cases pre with
            | nil => exact ⟨by simpa only [List.isEmpty_nil, Bool.and_true] using hb, hs.symm⟩
            | cons d pre =>
                -- The first character would have to be in the class.
                rw [List.cons_append, List.cons.injEq] at hs
                have hd := hpre d List.mem_cons_self
                rw [← hs.1, hc] at hd
                exact absurd hd (by simp only [Bool.false_eq_true, not_false_eq_true])
      -- The loop takes `c` and goes on, or stops before it.
      | true =>
          rw [List.length_cons, iterate_chars_cons p _ b c cs hc]
          simp only [List.mem_append, List.mem_singleton, Pos.mk.injEq, ih false]
          constructor
          · rintro (⟨pre, hs, hpre, hb⟩ | ⟨rfl, rfl⟩)
            · refine ⟨c :: pre, by rw [hs, List.cons_append], ?_, ?_⟩
              · intro d hd
                rcases List.mem_cons.mp hd with rfl | hd
                · exact hc
                · exact hpre d hd
              · simpa only [List.isEmpty_cons, Bool.and_false, Bool.false_and] using hb
            · refine ⟨[], rfl, fun d hd => absurd hd List.not_mem_nil, ?_⟩
              simp only [List.isEmpty_nil, Bool.and_true]
          · rintro ⟨pre, hs, hpre, hb⟩
            cases pre with
            | nil =>
                exact Or.inr ⟨by simpa only [List.isEmpty_nil, Bool.and_true] using hb,
                  hs.symm⟩
            | cons d pre =>
                rw [List.cons_append, List.cons.injEq] at hs
                refine Or.inl ⟨pre, hs.2, fun e he => hpre e (List.mem_cons_of_mem d he), ?_⟩
                simpa only [List.isEmpty_cons, Bool.and_false, Bool.false_and] using hb

/-- The preferred match of a star takes the whole run of its class. -/
theorem ends_star_head (b : Bool) (s : List Char) :
    ∃ b', (iterate (ends (.chars p)) s.length ⟨b, s⟩).head? = some ⟨b', s.dropWhile p⟩ := by
  induction s generalizing b with
  | nil => exact ⟨b, rfl⟩
  | cons c cs ih =>
      cases hc : p c with
      | false =>
          rw [iterate_chars_stop p _ b (c :: cs) (fun d ds h => by
            rw [List.cons.injEq] at h
            rw [← h.1]
            exact hc), List.dropWhile_cons_of_neg (by simp only [hc, Bool.false_eq_true,
            not_false_eq_true])]
          exact ⟨b, rfl⟩
      -- One more turn is preferred to stopping, so the head is that of the rest.
      | true =>
          rw [List.length_cons, iterate_chars_cons p _ b c cs hc,
            List.dropWhile_cons_of_pos hc]
          rcases ih false with ⟨b', hb'⟩
          exact ⟨b', by rw [List.head?_append, hb', Option.some_or]⟩

end Star

section Sub

variable (p : Char → Bool) (repl : List Char)

/-- Inside a run nothing is written until the run ends. -/
theorem collapse_true (s : List Char) :
    collapse p repl true s = collapse p repl false (s.dropWhile p) := by
  induction s with
  | nil => rfl
  | cons c cs ih =>
      cases hc : p c with
      | false =>
          rw [List.dropWhile_cons_of_neg (by simp only [hc, Bool.false_eq_true,
            not_false_eq_true])]
          rw [collapse_cons, collapse_cons, if_neg (Bool.eq_false_iff.mp hc),
            if_neg (Bool.eq_false_iff.mp hc)]
      | true =>
          rw [List.dropWhile_cons_of_pos hc, ← ih]
          rw [collapse_cons, if_pos hc, if_pos rfl, List.nil_append]

/-- The preferred match of a plus of a class, at a character of the class,
    takes the whole run. -/
theorem ends_plus_head (b : Bool) (c : Char) (cs : List Char) (hc : p c = true) :
    ∃ b', (ends (.plus (.chars p)) ⟨b, c :: cs⟩).head? = some ⟨b', cs.dropWhile p⟩ := by
  rcases ends_star_head p false cs with ⟨b', hb'⟩
  refine ⟨b', ?_⟩
  rw [ends_plus, ends_chars_cons_pos p b c cs hc]
  simpa only [List.flatMap_cons, List.flatMap_nil, List.append_nil] using hb'

theorem subFrom_plus (n : Nat) (b : Bool) (s : List Char) (hn : s.length ≤ n) :
    subFrom (.plus (.chars p)) repl n ⟨b, s⟩ = collapse p repl false s := by
  induction n generalizing b s with
  -- Induction on the fuel, which is never less than the text that is left.
  | zero =>
      have hs : s = [] := List.eq_nil_of_length_eq_zero (by omega)
      rw [hs]
      rfl
  | succ n ih =>
      cases s with
      | nil => rfl
      | cons c cs =>
          rw [List.length_cons] at hn
          cases hc : p c with
          | false =>
              have hends : ends (.plus (.chars p)) ⟨b, c :: cs⟩ = [] := by
                rw [ends_plus, ends_chars_cons_neg p b c cs hc, List.flatMap_nil]
              simp only [subFrom_cons, hends, List.head?_nil, collapse_cons, hc, Bool.false_eq_true,
                if_false]
              rw [ih false cs (by omega)]
          -- The match takes the run, and `collapse` writes nothing more until its end.
          | true =>
              rcases ends_plus_head p b c cs hc with ⟨b', hb'⟩
              have hlen : (cs.dropWhile p).length ≤ cs.length :=
                (List.dropWhile_sublist p).length_le
              have hlt : (cs.dropWhile p).length < (c :: cs).length := by
                rw [List.length_cons]
                omega
              simp only [subFrom_cons, hb', hlt, if_true, collapse_cons, hc, Bool.false_eq_true,
                if_false]
              rw [ih b' _ (by omega), collapse_true]

/-- Substituting a plus of a class replaces each of its maximal runs. -/
theorem sub_plus (s : List Char) :
    sub (.plus (.chars p)) repl s = collapse p repl false s :=
  subFrom_plus p repl s.length true s (Nat.le_refl _)

end Sub

end Regex
