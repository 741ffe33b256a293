import KingPi.Core.Name
import Mathlib.Data.List.Forall2

/-!
# Normal Forms

What two names have to have in common to share a cache key. PEP 503 compares
names piece by piece: runs of `-`, `_` and `.` separate the pieces and are all
the same, and the pieces are compared without regard to the case of ASCII
letters. `normalizePackageName` is meant to give two names one normal form
exactly when that comparison succeeds.

The interesting direction is that the normal form forgets nothing else. It is
the pieces in lower case, joined with dashes, and since no piece has a dash the
pieces can be read back from it. The rest says that the normal form is itself a
name, in the shape one expects, and does not change when it is normalized
again.

All of this is about names the guard accepts, which are ASCII. A trailing
newline that the guard lets through belongs to the last piece.

## Main definitions

* `SameLetter`: Two characters are equal up to the case of ASCII letters.
* `SamePieces`: Two strings have the same pieces.
* `NormalShape`: What a normal form looks like.

## Theorems

* `normalize_eq_iff`: Two names share a normal form when they have the same
  pieces.
* `normalize_shape`: The shape of a normal form.
* `normalize_exact`: Both, for accepted names.
-/

namespace KingPi

open Regex

/-- Two characters are equal up to the case of ASCII letters. -/
def SameLetter (c d : Char) : Prop := c.toLower = d.toLower

/-- Cut at their maximal runs of separators, two strings have as many pieces,
    and these are equal up to the case of ASCII letters. -/
def SamePieces (a b : Str) : Prop :=
  ∃ l m, Cuts isSep a l ∧ Cuts isSep b m ∧ List.Forall₂ (List.Forall₂ SameLetter) l m

/-- What a normal form `n` of a name `a` looks like. -/
structure NormalShape (a n : Str) : Prop where
  valid : isValidPackage n = true
  plain : ∀ c ∈ n, c ≠ '_' ∧ c ≠ '.' ∧ c.isUpper = false
  single : ¬ ['-', '-'] <:+: n
  short : n.length ≤ a.length
  fixed : normalizePackageName n = n

section Letters

/-- On ASCII, folding is the lowercase of letters. It keeps the separators,
    leaves no capital, and changes nothing else. -/
theorem lower_ascii (c : Char) (h : isAscii c = true) : foldChar c = c.toLower ∧
    isSep c.toLower = isSep c ∧ c.toLower.isUpper = false ∧
    (c.isUpper = false → c.toLower = c) := by
  refine ascii_cases c h ?_
  decide +kernel

end Letters

section Pieces

/-- The normal form of an ASCII name: lower case first, then single dashes. -/
theorem normalize_eq_lower (a : Str) (ha : ∀ c ∈ a, isAscii c = true) :
    normalizePackageName a = collapse isSep ['-'] false (a.map Char.toLower) := by
  have hfold : a.map Char.toLower = a.map foldChar :=
    List.map_congr_left (fun c hc => (lower_ascii c (ha c hc)).1.symm)
  have hsep : ∀ c ∈ a, isSep (foldChar c) = isSep c := fun c hc => by
    rw [(lower_ascii c (ha c hc)).1, (lower_ascii c (ha c hc)).2.1]
  rw [normalize_eq_map a (fun c hc => Or.inl (ha c hc)), collapseSeps, hfold,
    collapse_map isSep foldChar ['-'] (by decide) false a hsep]

theorem map_eq_map_iff {α β : Type} (f : α → β) (l m : List α) :
    l.map f = m.map f ↔ List.Forall₂ (fun x y => f x = f y) l m := by
  rw [← List.forall₂_eq_eq_eq, List.forall₂_map_left_iff, List.forall₂_map_right_iff]

/-- Pieces in lower case are equal when the pieces are, up to case. -/
theorem lower_pieces_iff (l m : List Str) :
    l.map (List.map Char.toLower) = m.map (List.map Char.toLower) ↔
      List.Forall₂ (List.Forall₂ SameLetter) l m := by
  rw [map_eq_map_iff]
  simp only [map_eq_map_iff]
  rfl

/-- Two names share a normal form exactly when they have the same pieces. -/
theorem normalize_eq_iff (a b : Str) (ha : ∀ c ∈ a, isAscii c = true)
    (hb : ∀ c ∈ b, isAscii c = true) :
    normalizePackageName a = normalizePackageName b ↔ SamePieces a b := by
  -- The pieces are read back from the normal form by splitting it at the dashes.
  rw [normalize_eq_lower a ha, normalize_eq_lower b hb, collapse_inj isSep '-' (by decide),
    cut_map isSep _ false a (fun c hc => (lower_ascii c (ha c hc)).2.1),
    cut_map isSep _ false b (fun c hc => (lower_ascii c (hb c hc)).2.1), lower_pieces_iff]
  simp only [SamePieces, cuts_iff, exists_and_left, exists_eq_left']

end Pieces

section Shape

/-- The characters of a normal form: dashes, and characters that are neither
    separators nor capitals. -/
theorem mem_normalize (a : Str) (ha : ∀ c ∈ a, isAscii c = true) :
    ∀ c ∈ normalizePackageName a, c = '-' ∨ isSep c = false ∧ c.isUpper = false := by
  intro c hc
  rw [normalize_eq_lower a ha] at hc
  rcases mem_collapse isSep ['-'] false _ c hc with hdash | ⟨hmem, hsep⟩
  · exact Or.inl (List.mem_singleton.mp hdash)
  · rcases List.mem_map.mp hmem with ⟨d, hd, rfl⟩
    exact Or.inr ⟨hsep, (lower_ascii d (ha d hd)).2.2.1⟩

theorem spaced_normalize (a : Str) (ha : ∀ c ∈ a, isAscii c = true) :
    Spaced isSep (normalizePackageName a) := by
  rw [normalize_eq_lower a ha]
  exact (spaced_collapse isSep '-' _).1

/-- Names that are spaced, in lower case and without other separators than the
    dash are their own normal forms. -/
theorem normalize_eq_self (n : Str) (hn : ∀ c ∈ n, isAscii c = true) (hs : Spaced isSep n)
    (hc : ∀ c ∈ n, c = '-' ∨ isSep c = false ∧ c.isUpper = false) :
    normalizePackageName n = n := by
  have hlower : n.map Char.toLower = n := by
    refine (List.map_congr_left (fun c hmem => ?_)).trans (List.map_id n)
    rcases hc c hmem with rfl | ⟨_, hup⟩
    · decide
    · exact (lower_ascii c (hn c hmem)).2.2.2 hup
  rw [normalize_eq_lower n hn, hlower]
  refine collapse_eq_self isSep '-' n hs (fun c hmem hsep => ?_)
  rcases hc c hmem with hdash | ⟨hother, _⟩
  · exact hdash
  · rw [hsep] at hother
    exact absurd hother.symm Bool.false_ne_true

/-- The shape of a normal form. -/
theorem normalize_shape (a : Str) (h : isValidPackage a = true) :
    NormalShape a (normalizePackageName a) := by
  have ha := isAscii_of_valid a h
  have hvalid : isValidPackage (normalizePackageName a) = true := by
    rw [isValidPackage_normalize, map_unKelvin_of_ascii a ha]
    exact h
  have hmem := mem_normalize a ha
  have hspaced := spaced_normalize a ha
  refine ⟨hvalid, ?_, ?_, ?_, ?_⟩
  · intro c hc
    rcases hmem c hc with rfl | ⟨hsep, hup⟩
    · decide
    · refine ⟨?_, ?_, hup⟩
      · rintro rfl
        exact absurd hsep (by decide)
      · rintro rfl
        exact absurd hsep (by decide)
  · rintro ⟨s, t, hst⟩
    -- Two dashes in a row would be two separators in a row.
    rw [← hst] at hspaced
    have hdashes := hspaced.left_of_append.right_of_append
    exact absurd (List.isChain_cons_cons.mp hdashes).1 (by decide)
  · rw [normalize_eq_lower a ha]
    exact (length_collapse_le isSep '-' false _).trans (Nat.le_of_eq (List.length_map _))
  · exact normalize_eq_self _ (isAscii_of_valid _ hvalid) hspaced hmem

end Shape

/-- Two names share a cache key exactly when PEP 503 makes them one package.
    For names the guard accepts, the normal forms are the same exactly when the
    pieces are; and a normal form is an accepted name in lower case with single
    dashes for its separators, no longer than the name, and its own normal
    form. -/
theorem normalize_exact (a b : Str) (ha : isValidPackage a = true)
    (hb : isValidPackage b = true) :
    (normalizePackageName a = normalizePackageName b ↔ SamePieces a b) ∧
      NormalShape a (normalizePackageName a) :=
  ⟨normalize_eq_iff a b (isAscii_of_valid a ha) (isAscii_of_valid b hb), normalize_shape a ha⟩

/-- Two spellings of one name. -/
theorem normalize_exact_zope : SamePieces "Zope.Interface".toList "zope__interface".toList ∧
    NormalShape "Zope.Interface".toList "zope-interface".toList := by
  have hexact := normalize_exact "Zope.Interface".toList "zope__interface".toList (by decide)
    (by decide)
  have hnormal : normalizePackageName "Zope.Interface".toList = "zope-interface".toList := by
    decide +kernel
  rw [hnormal] at hexact
  exact ⟨hexact.1.mp (by decide +kernel), hexact.2⟩

end KingPi
