import KingPi.Core.Unicode

/-!
# Python Strings

A Python string as the list of its characters, and `str.lower` on it.

Lowercasing is that of all of Unicode. It is not a map over characters: a
capital sigma becomes a final sigma at the end of a word, so `lowerChar` sees
what comes before and after, and a dotted capital I becomes two characters.
Outside of these two a character goes to its simple lowercase mapping.

What the name handling needs to know is how this meets ASCII. On ASCII it is
the familiar map. Beyond ASCII nothing maps into ASCII, with one exception:
the Kelvin sign, whose lowercase is the letter k. `lowerChar_ascii` and
`lowerChar_notAscii` are these two halves, and both come down to a check of
the table's ranges.

## Main definitions

* `Str`: Python strings.
* `finalSigma`: The context in which a capital sigma becomes final.
* `lowerChar`: The lowercase of a character in its context.
* `lower`: Python's `str.lower`.
* `foldChar`: Its action on ASCII and the Kelvin sign.

## Theorems

* `lowerChar_ascii`: On ASCII and the Kelvin sign, lowercasing is `foldChar`.
* `lowerChar_notAscii`: Any other character's lowercase is not all ASCII.
* `lower_eq_map`: A string of such characters is lowercased character by
  character.
-/

namespace KingPi

open Unicode

/-- Python strings. -/
abbrev Str := List Char

/-- Is the character in one of the table's ranges? -/
def inRanges (table : List (Nat × Nat)) (c : Char) : Bool :=
  table.any (fun r => decide (r.1 ≤ c.toNat) && decide (c.toNat ≤ r.2))

/-- The range of the lowercase table a character lies in. -/
def caseRange (n : Nat) : Option CaseRange :=
  lowerRanges.find? (fun r => decide (r.lo ≤ n) && decide (n ≤ r.hi) && (n - r.lo) % r.stride == 0)

/-- The simple lowercase mapping, on code points. -/
def lowerCode (n : Nat) : Nat :=
  match caseRange n with
  | some r => r.target + (n - r.lo)
  | none => n

/-- A capital sigma becomes final after a cased character and not before
    one. `before` is what precedes it, nearest character first. -/
def finalSigma (before after : Str) : Bool :=
  match before.dropWhile (inRanges caseIgnorableRanges) with
  | [] => false
  | c :: _ => inRanges casedRanges c &&
    match after.dropWhile (inRanges caseIgnorableRanges) with
    | [] => true
    | d :: _ => !inRanges casedRanges d

/-- The lowercase of a character in its context. -/
def lowerChar (before after : Str) (c : Char) : Str :=
  if c = 'Σ' then [if finalSigma before after then 'ς' else 'σ']
  else if c = 'İ' then ['i', '\u0307']
  else [Char.ofNat (lowerCode c.toNat)]

/-- Lowercase a string whose reversed left context is given. -/
def lowerFrom : Str → Str → Str
  | _, [] => []
  | before, c :: after => lowerChar before after c ++ lowerFrom (c :: before) after

/-- Python's `str.lower`. -/
def lower (s : Str) : Str := lowerFrom [] s

/-- The Kelvin sign, the one character beyond ASCII whose lowercase is in
    ASCII. -/
def kelvinSign : Char := '\u212A'

/-- An ASCII character. -/
def isAscii (c : Char) : Bool := c.toNat < 128

/-- What holds of the 128 ASCII characters one by one holds of them all. -/
@[elab_as_elim]
theorem ascii_cases {motive : Char → Prop} (c : Char) (hc : isAscii c = true)
    (table : ∀ n, n < 128 → motive (Char.ofNat n)) : motive c := by
  have hrow := table c.toNat (decide_eq_true_iff.mp hc)
  rw [Char.ofNat_toNat] at hrow
  exact hrow

/-- Lowercasing restricted to ASCII and the Kelvin sign. -/
def foldChar (c : Char) : Char :=
  if c = kelvinSign then 'k'
  else if 65 ≤ c.toNat ∧ c.toNat ≤ 90 then Char.ofNat (c.toNat + 32)
  else c

/-- What every range of the table satisfies: its images are characters, and
    they are beyond ASCII unless the range is the Latin capitals or the
    Kelvin sign. -/
def RangeOk (r : CaseRange) : Prop :=
  (r.target + (r.hi - r.lo) < 0xD800 ∨ 0xDFFF < r.target) ∧
    r.target + (r.hi - r.lo) < 0x110000 ∧
    (128 ≤ r.target ∨ r.hi < 128 ∨ r.lo = 0x212A ∧ r.hi = 0x212A)

instance (r : CaseRange) : Decidable (RangeOk r) :=
  inferInstanceAs (Decidable (_ ∧ _ ∧ _))

theorem lowerRanges_ok : ∀ r ∈ lowerRanges, RangeOk r := by decide +kernel

theorem caseRange_some (n : Nat) (r : CaseRange) (h : caseRange n = some r) :
    RangeOk r ∧ r.lo ≤ n ∧ n ≤ r.hi := by
  have hin := List.find?_some h
  rw [Bool.and_eq_true, Bool.and_eq_true, decide_eq_true_iff, decide_eq_true_iff] at hin
  exact ⟨lowerRanges_ok r (List.mem_of_find?_eq_some h), hin.1.1, hin.1.2⟩

theorem lowerCode_ascii : ∀ n, n < 128 →
    lowerCode n = if 65 ≤ n ∧ n ≤ 90 then n + 32 else n := by decide +kernel

/-- Beyond ASCII the simple mapping stays beyond ASCII, the Kelvin sign
    apart. -/
theorem lowerCode_notAscii (n : Nat) (h : 128 ≤ n) (hk : n ≠ 0x212A) :
    128 ≤ lowerCode n := by
  rw [lowerCode]
  cases hr : caseRange n with
  | none => exact h
  | some r =>
      rcases caseRange_some n r hr with ⟨⟨_, _, himg⟩, hlo, hhi⟩
      simp only
      omega

theorem toNat_ofNat (n : Nat) (h : n.isValidChar) : (Char.ofNat n).toNat = n := by
  rw [Char.ofNat, dif_pos h]
  rfl

/-- The simple mapping of a character is a character. -/
theorem lowerCode_valid (c : Char) : (lowerCode c.toNat).isValidChar := by
  rw [lowerCode]
  cases hr : caseRange c.toNat with
  | none => exact c.valid
  | some r =>
      rcases caseRange_some _ r hr with ⟨⟨hgap, hmax, _⟩, hlo, hhi⟩
      simp only [Nat.isValidChar]
      omega

theorem foldChar_of_notKelvin (c : Char) (h : c ≠ kelvinSign) :
    foldChar c = if 65 ≤ c.toNat ∧ c.toNat ≤ 90 then Char.ofNat (c.toNat + 32) else c := by
  rw [foldChar, if_neg h]

/-- On ASCII and the Kelvin sign, lowercasing is `foldChar`. -/
theorem lowerChar_ascii (before after : Str) (c : Char)
    (h : isAscii c = true ∨ c = kelvinSign) : lowerChar before after c = [foldChar c] := by
  rcases h with h | rfl
  · rw [isAscii, decide_eq_true_iff] at h
    -- The two special cases of `lower` are beyond ASCII.
    have hsigma : c ≠ 'Σ' := by
      rintro rfl
      exact absurd h (by decide)
    have hdot : c ≠ 'İ' := by
      rintro rfl
      exact absurd h (by decide)
    have hkelvin : c ≠ kelvinSign := by
      rintro rfl
      exact absurd h (by decide)
    rw [lowerChar, if_neg hsigma, if_neg hdot, lowerCode_ascii _ h,
      foldChar_of_notKelvin c hkelvin]
    by_cases hup : 65 ≤ c.toNat ∧ c.toNat ≤ 90
    · rw [if_pos hup, if_pos hup]
    · rw [if_neg hup, if_neg hup, Char.ofNat_toNat]
  · have hlow : [Char.ofNat (lowerCode kelvinSign.toNat)] = [foldChar kelvinSign] := by
      decide +kernel
    rw [lowerChar, if_neg (by decide), if_neg (by decide), hlow]

/-- Any other character's lowercase is not all ASCII. -/
theorem lowerChar_notAscii (before after : Str) (c : Char) (h : isAscii c = false)
    (hk : c ≠ kelvinSign) : ∃ d ∈ lowerChar before after c, isAscii d = false := by
  rw [isAscii, decide_eq_false_iff_not] at h
  rw [lowerChar]
  -- Both sigmas, and the dot of the capital I, are beyond ASCII.
  by_cases hsigma : c = 'Σ'
  · rw [if_pos hsigma]
    cases finalSigma before after with
    | true => exact ⟨'ς', List.mem_singleton.mpr rfl, by decide⟩
    | false => exact ⟨'σ', List.mem_singleton.mpr rfl, by decide⟩
  · rw [if_neg hsigma]
    by_cases hdot : c = 'İ'
    · rw [if_pos hdot]
      exact ⟨'\u0307', List.mem_cons_of_mem _ (List.mem_singleton.mpr rfl), by decide⟩
    · rw [if_neg hdot]
      refine ⟨_, List.mem_singleton.mpr rfl, ?_⟩
      have hcode : c.toNat ≠ 0x212A := fun hc => hk (Char.toNat_inj.mp hc)
      have hlow := lowerCode_notAscii c.toNat (by omega) hcode
      rw [isAscii, decide_eq_false_iff_not, toNat_ofNat _ (lowerCode_valid c)]
      omega

/-- A string of ASCII characters and Kelvin signs is lowercased character by
    character. -/
theorem lowerFrom_eq_map (before s : Str)
    (h : ∀ c ∈ s, isAscii c = true ∨ c = kelvinSign) :
    lowerFrom before s = s.map foldChar := by
  induction s generalizing before with
  | nil => rfl
  | cons c s ih =>
      rw [lowerFrom, lowerChar_ascii _ _ c (h c List.mem_cons_self), ih _ (fun d hd =>
        h d (List.mem_cons_of_mem c hd)), List.map_cons, List.singleton_append]

theorem lower_eq_map (s : Str) (h : ∀ c ∈ s, isAscii c = true ∨ c = kelvinSign) :
    lower s = s.map foldChar :=
  lowerFrom_eq_map [] s h

/-- A string whose lowercase is all ASCII has only ASCII characters and
    Kelvin signs. -/
theorem ascii_of_lowerFrom (before s : Str)
    (h : ∀ d ∈ lowerFrom before s, isAscii d = true) :
    ∀ c ∈ s, isAscii c = true ∨ c = kelvinSign := by
  induction s generalizing before with
  | nil => exact fun c hc => absurd hc List.not_mem_nil
  | cons b s ih =>
      intro c hc
      rw [lowerFrom] at h
      rcases List.mem_cons.mp hc with rfl | hc
      · cases hasc : isAscii c with
        | true => exact Or.inl rfl
        | false =>
            by_cases hk : c = kelvinSign
            · exact Or.inr hk
            · -- A character beyond both would leave one beyond ASCII in the result.
              rcases lowerChar_notAscii before s c hasc hk with ⟨d, hd, hnot⟩
              rw [h d (List.mem_append_left _ hd)] at hnot
              exact absurd hnot (by simp only [Bool.true_eq_false, not_false_eq_true])
      · exact ih _ (fun d hd => h d (List.mem_append_right _ hd)) c hc

theorem ascii_of_lower (s : Str) (h : ∀ d ∈ lower s, isAscii d = true) :
    ∀ c ∈ s, isAscii c = true ∨ c = kelvinSign :=
  ascii_of_lowerFrom [] s h

end KingPi
