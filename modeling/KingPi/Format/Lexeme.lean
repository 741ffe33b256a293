import Mathlib.Tactic.Common

/-!
# Lexemes

The two lexemes of JSON text that take some reading: numbers and strings.

A number is read by its shape, an integer with an optional fraction and an
optional exponent, each part as long as it can be. Reading a number in front of
more text is therefore a question of where it stops, and `scanNumber_append`
answers it once: text that could not belong to a number is left alone.

A string is written in ASCII. What is printable stands for itself, a few
characters have an escape of their own, and everything else is written as
`\u` and four hexadecimal digits, in two such units when one cannot hold it.
Reading is more liberal than writing, and undoes it.

The strings here hold characters, that is Unicode scalar values. Python's may
also hold half of a surrogate pair on its own, and Python reads an escape of
one. Such a text is outside this module: nothing is read from it. It is outside
what can be read back too, as two halves on their own are written like a pair.

## Main definitions

* `scanNumber`: A number in front of a text.
* `Stops`: A text in which a number cannot go on.
* `unicodeEscape`: A character in `\u` escapes.
* `quote`: A string as it is written.
* `scanString`: A string in front of a text.

## Theorems

* `scanNumber_eq`: What is read and what is left make up the text.
* `scanNumber_append`: A number does not read what cannot belong to it.
* `scanUnicode_escape`: A `\u` escape is read back.
* `scanString_quote`: A string is read back.
* `quote_printable`: A string is written in printable ASCII.
-/

namespace Lexeme

section Numbers

/-- An ASCII digit. -/
def isDigit (c : Char) : Bool := '0' ≤ c && c ≤ '9'

/-- A character a number can have after its first digit. -/
def isNumberChar (c : Char) : Bool := isDigit c || ['.', 'e', 'E', '+', '-'].contains c

/-- `0|[1-9]\d*` -/
def scanNat : List Char → Option (List Char × List Char)
  | [] => none
  | c :: s =>
    if c = '0' then some (['0'], s)
    else if isDigit c then some (c :: s.takeWhile isDigit, s.dropWhile isDigit)
    else none

/-- `-?(?:0|[1-9]\d*)` -/
def scanInt : List Char → Option (List Char × List Char)
  | [] => none
  | c :: s => if c = '-' then (scanNat s).map (fun r => ('-' :: r.1, r.2)) else scanNat (c :: s)

/-- `(\.\d+)?` -/
def scanFraction : List Char → List Char × List Char
  | [] => ([], [])
  | c :: s =>
    if c = '.' ∧ s.takeWhile isDigit ≠ [] then ('.' :: s.takeWhile isDigit, s.dropWhile isDigit)
    else ([], c :: s)

/-- `[-+]?` -/
def scanSign : List Char → List Char × List Char
  | [] => ([], [])
  | c :: s => if c = '-' ∨ c = '+' then ([c], s) else ([], c :: s)

/-- `([eE][-+]?\d+)?` -/
def scanExponent : List Char → List Char × List Char
  | [] => ([], [])
  | c :: s =>
    if (c = 'e' ∨ c = 'E') ∧ (scanSign s).2.takeWhile isDigit ≠ [] then
      (c :: (scanSign s).1 ++ (scanSign s).2.takeWhile isDigit, (scanSign s).2.dropWhile isDigit)
    else ([], c :: s)

/-- A number in front of a text, and the text after it. -/
def scanNumber (s : List Char) : Option (List Char × List Char) :=
  (scanInt s).map fun r =>
    (r.1 ++ (scanFraction r.2).1 ++ (scanExponent (scanFraction r.2).2).1,
      (scanExponent (scanFraction r.2).2).2)

/-- A text in which a number cannot go on. -/
def Stops (s : List Char) : Prop := ∀ c, s.head? = some c → isNumberChar c = false

theorem stops_nil : Stops [] := fun _ h => absurd h (by simp only [List.head?_nil, reduceCtorEq,
  not_false_eq_true])

theorem stops_cons (c : Char) (s : List Char) (h : isNumberChar c = false) : Stops (c :: s) := by
  intro d hd
  rw [← Option.some.inj hd]
  exact h

/-- Where a number stops there is no digit, no point, no exponent and no sign. -/
theorem stops_head (c : Char) (s : List Char) (h : Stops (c :: s)) :
    isDigit c = false ∧ c ≠ '.' ∧ c ≠ 'e' ∧ c ≠ 'E' ∧ c ≠ '+' ∧ c ≠ '-' := by
  have hc := h c rfl
  simp only [isNumberChar, Bool.or_eq_false_iff, List.contains_eq_mem, decide_eq_false_iff_not,
    List.mem_cons, List.not_mem_nil, or_false, not_or] at hc
  exact hc

section Whole

theorem scanNat_eq (s l t : List Char) (h : scanNat s = some (l, t)) : s = l ++ t := by
  cases s with
  | nil => exact absurd h (by simp only [scanNat, reduceCtorEq, not_false_eq_true])
  | cons c s =>
      rw [scanNat] at h
      split at h
      · next hc =>
          cases h
          rw [hc]
          rfl
      · split at h
        · cases h
          rw [List.cons_append, List.takeWhile_append_dropWhile]
        · exact absurd h (by simp only [reduceCtorEq, not_false_eq_true])

theorem scanInt_eq (s l t : List Char) (h : scanInt s = some (l, t)) : s = l ++ t := by
  cases s with
  | nil => exact absurd h (by simp only [scanInt, reduceCtorEq, not_false_eq_true])
  | cons c s =>
      rw [scanInt] at h
      split at h
      · next hc =>
          rcases Option.map_eq_some_iff.mp h with ⟨⟨l', t'⟩, hnat, heq⟩
          cases heq
          rw [hc, scanNat_eq s l' t' hnat]
          rfl
      · exact scanNat_eq _ l t h

theorem scanFraction_eq (s : List Char) : s = (scanFraction s).1 ++ (scanFraction s).2 := by
  cases s with
  | nil => rfl
  | cons c s =>
      rw [scanFraction]
      split
      · next hc => rw [List.cons_append, List.takeWhile_append_dropWhile, hc.1]
      · rfl

theorem scanSign_eq (s : List Char) : s = (scanSign s).1 ++ (scanSign s).2 := by
  cases s with
  | nil => rfl
  | cons c s =>
      rw [scanSign]
      split
      · rfl
      · rfl

theorem scanExponent_eq (s : List Char) : s = (scanExponent s).1 ++ (scanExponent s).2 := by
  cases s with
  | nil => rfl
  | cons c s =>
      rw [scanExponent]
      split
      · rw [List.cons_append, List.cons_append, List.append_assoc,
          List.takeWhile_append_dropWhile, ← scanSign_eq]
      · rfl

/-- What is read and what is left make up the text. -/
theorem scanNumber_eq (s l t : List Char) (h : scanNumber s = some (l, t)) : s = l ++ t := by
  rcases Option.map_eq_some_iff.mp h with ⟨⟨i, u⟩, hint, heq⟩
  cases heq
  rw [List.append_assoc, List.append_assoc, ← scanExponent_eq, ← scanFraction_eq]
  exact scanInt_eq s i u hint

theorem scanNat_ne_nil (s l t : List Char) (h : scanNat s = some (l, t)) : l ≠ [] := by
  cases s with
  | nil => exact absurd h (by simp only [scanNat, reduceCtorEq, not_false_eq_true])
  | cons c s =>
      rw [scanNat] at h
      split at h
      · cases h
        exact List.cons_ne_nil _ _
      · split at h
        · cases h
          exact List.cons_ne_nil _ _
        · exact absurd h (by simp only [reduceCtorEq, not_false_eq_true])

theorem scanInt_ne_nil (s l t : List Char) (h : scanInt s = some (l, t)) : l ≠ [] := by
  cases s with
  | nil => exact absurd h (by simp only [scanInt, reduceCtorEq, not_false_eq_true])
  | cons c s =>
      rw [scanInt] at h
      split at h
      · rcases Option.map_eq_some_iff.mp h with ⟨r, _, heq⟩
        cases heq
        exact List.cons_ne_nil _ _
      · exact scanNat_ne_nil _ l t h

/-- A number is not empty. -/
theorem scanNumber_length (s l t : List Char) (h : scanNumber s = some (l, t)) :
    t.length < s.length := by
  have heq := scanNumber_eq s l t h
  -- Its integer part is not empty, and the other two may be.
  have hpos : 0 < l.length := by
    rcases Option.map_eq_some_iff.mp h with ⟨⟨i, u⟩, hint, heq'⟩
    cases heq'
    have := List.length_pos_iff.mpr (scanInt_ne_nil s i u hint)
    simp only [List.length_append]
    omega
  rw [heq, List.length_append]
  omega

end Whole

section Characters

theorem digits_all (s : List Char) : (s.takeWhile isDigit).all isNumberChar = true := by
  rw [List.all_eq_true]
  intro c hc
  rw [isNumberChar, List.all_eq_true.mp List.all_takeWhile c hc]
  rfl

theorem scanNat_all (s l t : List Char) (h : scanNat s = some (l, t)) :
    l.all isNumberChar = true := by
  cases s with
  | nil => exact absurd h (by simp only [scanNat, reduceCtorEq, not_false_eq_true])
  | cons c s =>
      rw [scanNat] at h
      split at h
      · cases h
        rfl
      · split at h
        · next hdigit =>
            cases h
            rw [List.all_cons, digits_all, isNumberChar, hdigit]
            rfl
        · exact absurd h (by simp only [reduceCtorEq, not_false_eq_true])

theorem scanInt_all (s l t : List Char) (h : scanInt s = some (l, t)) :
    l.all isNumberChar = true := by
  cases s with
  | nil => exact absurd h (by simp only [scanInt, reduceCtorEq, not_false_eq_true])
  | cons c s =>
      rw [scanInt] at h
      split at h
      · rcases Option.map_eq_some_iff.mp h with ⟨⟨l', t'⟩, hnat, heq⟩
        cases heq
        rw [List.all_cons, scanNat_all s l' t' hnat]
        rfl
      · exact scanNat_all _ l t h

theorem scanFraction_all (s : List Char) : (scanFraction s).1.all isNumberChar = true := by
  cases s with
  | nil => rfl
  | cons c s =>
      rw [scanFraction]
      split
      · rw [List.all_cons, digits_all]
        rfl
      · rfl

theorem scanSign_all (s : List Char) : (scanSign s).1.all isNumberChar = true := by
  cases s with
  | nil => rfl
  | cons c s =>
      rw [scanSign]
      split
      · next hsign =>
          rcases hsign with rfl | rfl
          · rfl
          · rfl
      · rfl

theorem scanExponent_all (s : List Char) : (scanExponent s).1.all isNumberChar = true := by
  cases s with
  | nil => rfl
  | cons c s =>
      rw [scanExponent]
      split
      · next he =>
          rw [List.cons_append, List.all_cons, List.all_append, scanSign_all, digits_all]
          rcases he.1 with rfl | rfl
          · rfl
          · rfl
      · rfl

/-- A number is made of the characters of numbers. -/
theorem scanNumber_all (s l t : List Char) (h : scanNumber s = some (l, t)) :
    l.all isNumberChar = true := by
  rcases Option.map_eq_some_iff.mp h with ⟨⟨i, u⟩, hint, heq⟩
  cases heq
  rw [List.all_append, List.all_append, scanInt_all s i u hint, scanFraction_all,
    scanExponent_all]
  rfl

end Characters

section Append

variable (rest : List Char) (h : Stops rest)

include h

/-- A run of digits ends where a number stops. -/
theorem digits_append (s : List Char) :
    (s ++ rest).takeWhile isDigit = s.takeWhile isDigit ∧
      (s ++ rest).dropWhile isDigit = s.dropWhile isDigit ++ rest := by
  induction s with
  | nil =>
      cases rest with
      | nil => exact ⟨rfl, rfl⟩
      | cons c s =>
          -- No digit comes next, so nothing is added to the run.
          have hc := (stops_head c s h).1
          exact ⟨List.takeWhile_cons_of_neg (by rw [hc]; exact Bool.false_ne_true),
            List.dropWhile_cons_of_neg (by rw [hc]; exact Bool.false_ne_true)⟩
  | cons c s ih =>
      rw [List.cons_append, List.takeWhile_cons, List.takeWhile_cons, List.dropWhile_cons,
        List.dropWhile_cons, ih.1, ih.2]
      cases isDigit c with
      | false => exact ⟨rfl, rfl⟩
      | true => exact ⟨rfl, rfl⟩

theorem scanNat_append (s l t : List Char) (hs : scanNat s = some (l, t)) :
    scanNat (s ++ rest) = some (l, t ++ rest) := by
  cases s with
  | nil => exact absurd hs (by simp only [scanNat, reduceCtorEq, not_false_eq_true])
  | cons c s =>
      rw [scanNat] at hs
      rw [List.cons_append, scanNat, (digits_append rest h s).1, (digits_append rest h s).2]
      -- A zero is a number of its own; any other digit begins a run.
      by_cases hzero : c = '0'
      · rw [if_pos hzero] at hs ⊢
        cases hs
        rfl
      · rw [if_neg hzero] at hs ⊢
        by_cases hdigit : isDigit c = true
        · rw [if_pos hdigit] at hs ⊢
          cases hs
          rfl
        · rw [if_neg hdigit] at hs
          exact absurd hs (by simp only [reduceCtorEq, not_false_eq_true])

theorem scanInt_append (s l t : List Char) (hs : scanInt s = some (l, t)) :
    scanInt (s ++ rest) = some (l, t ++ rest) := by
  cases s with
  | nil => exact absurd hs (by simp only [scanInt, reduceCtorEq, not_false_eq_true])
  | cons c s =>
      rw [scanInt] at hs
      rw [List.cons_append, scanInt]
      by_cases hminus : c = '-'
      · rw [if_pos hminus] at hs ⊢
        rcases Option.map_eq_some_iff.mp hs with ⟨⟨l', t'⟩, hnat, heq⟩
        cases heq
        rw [scanNat_append rest h s l' t' hnat]
        rfl
      · rw [if_neg hminus] at hs ⊢
        exact scanNat_append rest h (c :: s) l t hs

theorem scanFraction_append (s : List Char) :
    scanFraction (s ++ rest) = ((scanFraction s).1, (scanFraction s).2 ++ rest) := by
  cases s with
  | nil =>
      cases rest with
      | nil => rfl
      | cons c s => exact if_neg (fun hc => (stops_head c s h).2.1 hc.1)
  | cons c s =>
      rw [List.cons_append, scanFraction, scanFraction, (digits_append rest h s).1,
        (digits_append rest h s).2]
      split
      · rfl
      · rfl

theorem scanSign_append (s : List Char) :
    scanSign (s ++ rest) = ((scanSign s).1, (scanSign s).2 ++ rest) := by
  cases s with
  | nil =>
      cases rest with
      | nil => rfl
      | cons c s =>
          -- What follows is no sign, so none is read.
          have hc := (stops_head c s h).2.2.2.2
          exact if_neg (fun hsign => hsign.elim hc.2 hc.1)
  | cons c s =>
      rw [List.cons_append, scanSign, scanSign]
      split
      · rfl
      · rfl

theorem scanExponent_append (s : List Char) :
    scanExponent (s ++ rest) = ((scanExponent s).1, (scanExponent s).2 ++ rest) := by
  cases s with
  | nil =>
      cases rest with
      | nil => rfl
      | cons c s =>
          have hc := (stops_head c s h).2.2
          exact if_neg (fun he => he.1.elim hc.1 hc.2.1)
  | cons c s =>
      rw [List.cons_append, scanExponent, scanExponent, scanSign_append rest h s]
      -- The digits behind the sign decide whether there is an exponent.
      simp only [(digits_append rest h (scanSign s).2).1,
        (digits_append rest h (scanSign s).2).2]
      split
      · rfl
      · rfl

/-- A number does not read what cannot belong to it. -/
theorem scanNumber_append (s l t : List Char) (hs : scanNumber s = some (l, t)) :
    scanNumber (s ++ rest) = some (l, t ++ rest) := by
  rcases Option.map_eq_some_iff.mp hs with ⟨⟨i, u⟩, hint, heq⟩
  cases heq
  rw [scanNumber, scanInt_append rest h s i u hint, Option.map_some, scanFraction_append rest h,
    scanExponent_append rest h]

end Append

end Numbers

section Strings

/-- A hexadecimal digit, as it is written. -/
def hexDigit (n : Nat) : Char := if n < 10 then Char.ofNat (48 + n) else Char.ofNat (87 + n)

/-- A hexadecimal digit, as it is read. -/
def hexValue (c : Char) : Option Nat :=
  if '0' ≤ c ∧ c ≤ '9' then some (c.toNat - 48)
  else if 'a' ≤ c ∧ c ≤ 'f' then some (c.toNat - 87)
  else if 'A' ≤ c ∧ c ≤ 'F' then some (c.toNat - 55)
  else none

/-- A code unit in four hexadecimal digits. -/
def hex4 (n : Nat) : List Char :=
  [hexDigit (n / 4096 % 16), hexDigit (n / 256 % 16), hexDigit (n / 16 % 16), hexDigit (n % 16)]

/-- The four hexadecimal digits in front of a text. -/
def scanHex4 : List Char → Option (Nat × List Char)
  | a :: b :: c :: d :: s => match hexValue a, hexValue b, hexValue c, hexValue d with
    | some a, some b, some c, some d => some (((a * 16 + b) * 16 + c) * 16 + d, s)
    | _, _, _, _ => none
  | _ => none

/-- A character in `\u` escapes: one, or two that hold the halves of its code
    point. -/
def unicodeEscape (c : Char) : List Char :=
  if c.toNat < 0x10000 then '\\' :: 'u' :: hex4 c.toNat
  else '\\' :: 'u' :: hex4 (0xD800 + (c.toNat - 0x10000) / 1024) ++
    '\\' :: 'u' :: hex4 (0xDC00 + (c.toNat - 0x10000) % 1024)

/-- The character of a `\u` escape whose backslash and letter have been read.
    The first half of a pair needs the second. Half a pair on its own, which
    Python reads, is no character, and is not read here. -/
def scanUnicode (s : List Char) : Option (Char × List Char) :=
  match scanHex4 s with
  | none => none
  | some (u, s) =>
    if 0xD800 ≤ u ∧ u ≤ 0xDBFF then
      match s with
      | '\\' :: 'u' :: s => match scanHex4 s with
        | none => none
        | some (v, s) =>
          if 0xDC00 ≤ v ∧ v ≤ 0xDFFF then
            some (Char.ofNat (0x10000 + (u - 0xD800) * 1024 + (v - 0xDC00)), s)
          else none
      | _ => none
    else if 0xDC00 ≤ u ∧ u ≤ 0xDFFF then none
    else some (Char.ofNat u, s)

/-- The escapes of one letter, and what they stand for. -/
def shortEscapes : List (Char × Char) :=
  [('"', '"'), ('\\', '\\'), ('/', '/'), ('b', '\x08'), ('f', '\x0c'), ('n', '\n'), ('r', '\r'),
    ('t', '\t')]

/-- A character as it is written. The slash is read in its escape but not
    written so. -/
def escape (c : Char) : List Char :=
  match shortEscapes.find? (fun e => e.2 == c && e.1 != '/') with
  | some e => ['\\', e.1]
  | none => if ' ' ≤ c ∧ c ≤ '~' then [c] else unicodeEscape c

/-- A string as it is written. -/
def quote (s : List Char) : List Char := '"' :: s.flatMap escape ++ ['"']

/-- The character of an escape whose backslash has been read. -/
def scanEscape : List Char → Option (Char × List Char)
  | [] => none
  | c :: s => if c = 'u' then scanUnicode s else (shortEscapes.lookup c).map (fun d => (d, s))

/-- A string whose opening quote has been read. A control character has to be
    escaped. The first argument bounds the number of characters. -/
def scanString : Nat → List Char → Option (List Char × List Char)
  | 0, _ => none
  | _ + 1, [] => none
  | n + 1, c :: s =>
    if c = '"' then some ([], s)
    else if c = '\\' then match scanEscape s with
      | none => none
      | some (d, s) => (scanString n s).map (fun r => (d :: r.1, r.2))
    else if c < ' ' then none
    else (scanString n s).map (fun r => (c :: r.1, r.2))

theorem hexValue_hexDigit : ∀ n, n < 16 → hexValue (hexDigit n) = some n := by decide

theorem scanHex4_digits (a b c d : Nat) (ha : a < 16) (hb : b < 16) (hc : c < 16) (hd : d < 16)
    (s : List Char) : scanHex4 (hexDigit a :: hexDigit b :: hexDigit c :: hexDigit d :: s) =
      some (((a * 16 + b) * 16 + c) * 16 + d, s) := by
  simp only [scanHex4, hexValue_hexDigit a ha, hexValue_hexDigit b hb, hexValue_hexDigit c hc,
    hexValue_hexDigit d hd]

/-- Four digits are read back. -/
theorem scanHex4_hex4 (n : Nat) (hn : n < 0x10000) (rest : List Char) :
    scanHex4 (hex4 n ++ rest) = some (n, rest) := by
  have hdigit : ∀ m, m % 16 < 16 := fun m => Nat.mod_lt m (by decide)
  -- The digits are those of base 16.
  have hvalue : ((n / 4096 % 16 * 16 + n / 256 % 16) * 16 + n / 16 % 16) * 16 + n % 16 = n := by
    omega
  have hscan : scanHex4 (hex4 n ++ rest) =
      some (((n / 4096 % 16 * 16 + n / 256 % 16) * 16 + n / 16 % 16) * 16 + n % 16, rest) :=
    scanHex4_digits _ _ _ _ (hdigit _) (hdigit _) (hdigit _) (hdigit _) rest
  rw [hscan, hvalue]

/-- A unit that is no half of a pair is a character. -/
theorem scanUnicode_single (n : Nat) (hn : n < 0x10000) (hvalid : n < 0xD800 ∨ 0xDFFF < n)
    (rest : List Char) : scanUnicode (hex4 n ++ rest) = some (Char.ofNat n, rest) := by
  rw [scanUnicode, scanHex4_hex4 _ hn]
  simp only
  rw [if_neg (by omega), if_neg (by omega)]

/-- Two halves are put together. -/
theorem scanUnicode_pair (u v : Nat) (hu : 0xD800 ≤ u ∧ u ≤ 0xDBFF) (hv : 0xDC00 ≤ v ∧ v ≤ 0xDFFF)
    (rest : List Char) : scanUnicode (hex4 u ++ '\\' :: 'u' :: (hex4 v ++ rest)) =
      some (Char.ofNat (0x10000 + (u - 0xD800) * 1024 + (v - 0xDC00)), rest) := by
  rw [scanUnicode, scanHex4_hex4 _ (by omega)]
  simp only
  rw [if_pos hu, scanHex4_hex4 _ (by omega)]
  simp only
  rw [if_pos hv]

/-- A `\u` escape is read back. -/
theorem scanUnicode_escape (c : Char) (rest : List Char) :
    ∃ s, unicodeEscape c ++ rest = '\\' :: 'u' :: s ∧ scanUnicode s = some (c, rest) := by
  -- A character is no half of a pair, so one unit is read as what it is.
  have hvalid : c.toNat < 0xD800 ∨ 0xDFFF < c.toNat ∧ c.toNat < 0x110000 := c.valid
  rw [unicodeEscape]
  by_cases hsmall : c.toNat < 0x10000
  · have hscan := scanUnicode_single c.toNat hsmall (hvalid.imp_right And.left) rest
    rw [Char.ofNat_toNat] at hscan
    rw [if_pos hsmall]
    exact ⟨_, rfl, hscan⟩
  · -- The code point is put together from its halves.
    have hpoint : 0x10000 + (0xD800 + (c.toNat - 0x10000) / 1024 - 0xD800) * 1024 +
        (0xDC00 + (c.toNat - 0x10000) % 1024 - 0xDC00) = c.toNat := by
      omega
    have hscan := scanUnicode_pair (0xD800 + (c.toNat - 0x10000) / 1024)
      (0xDC00 + (c.toNat - 0x10000) % 1024) (by omega) (by omega) rest
    rw [hpoint, Char.ofNat_toNat] at hscan
    rw [if_neg hsmall, List.append_assoc]
    exact ⟨_, rfl, hscan⟩

theorem shortEscapes_lookup : ∀ e ∈ shortEscapes, e.1 ≠ 'u' ∧ shortEscapes.lookup e.1 = some e.2 :=
  by decide

/-- A character with a short escape is not written otherwise, and an escape of
    one letter never is a `\u`. -/
theorem escape_cases (c : Char) :
    (∃ e, e ≠ 'u' ∧ shortEscapes.lookup e = some c ∧ escape c = ['\\', e]) ∨
      (escape c = [c] ∧ ' ' ≤ c ∧ c ≤ '~' ∧ c ≠ '"' ∧ c ≠ '\\') ∨
      escape c = unicodeEscape c := by
  rw [escape]
  cases hfind : shortEscapes.find? (fun e => e.2 == c && e.1 != '/') with
  | some e =>
      have he := List.find?_some hfind
      rw [Bool.and_eq_true, beq_iff_eq] at he
      -- The escape that was found is the one that is looked up when it is read.
      rcases shortEscapes_lookup e (List.mem_of_find?_eq_some hfind) with ⟨hu, hlookup⟩
      exact Or.inl ⟨e.1, hu, by rw [hlookup, he.1], rfl⟩
  | none =>
      rw [List.find?_eq_none] at hfind
      by_cases hplain : ' ' ≤ c ∧ c ≤ '~'
      · -- The quote and the backslash are printable but have an escape.
        refine Or.inr (Or.inl ⟨if_pos hplain, hplain.1, hplain.2, ?_, ?_⟩)
        · rintro rfl
          exact hfind ('"', '"') (by decide) (by decide)
        · rintro rfl
          exact hfind ('\\', '\\') (by decide) (by decide)
      · exact Or.inr (Or.inr (if_neg hplain))

/-- One character of a string is read back. -/
theorem scanString_escape (n : Nat) (c : Char) (rest : List Char) :
    scanString (n + 1) (escape c ++ rest) =
      (scanString n rest).map (fun r => (c :: r.1, r.2)) := by
  rcases escape_cases c with ⟨e, hu, hlookup, heq⟩ | ⟨heq, hlow, _, hquote, hback⟩ | heq
  · rw [heq, List.cons_append, scanString, if_neg (by decide), if_pos rfl]
    simp only [List.cons_append, List.nil_append, scanEscape, if_neg hu, hlookup, Option.map_some]
  · rw [heq, List.cons_append, scanString, if_neg hquote, if_neg hback,
      if_neg (Char.not_lt.mpr hlow), List.nil_append]
  -- The letter of the escape is no short one.
  · rcases scanUnicode_escape c rest with ⟨s, hs, hscan⟩
    rw [heq, hs, scanString, if_neg (by decide), if_pos rfl]
    simp only [scanEscape, if_true, hscan]

theorem scanString_flatMap (s : List Char) (n : Nat) (hn : s.length ≤ n) (rest : List Char) :
    scanString (n + 1) (s.flatMap escape ++ '"' :: rest) = some (s, rest) := by
  induction s generalizing n with
  | nil => rfl
  | cons c s ih =>
      rw [List.length_cons] at hn
      rcases Nat.exists_eq_add_of_le' (Nat.le_trans (Nat.le_add_left 1 s.length) hn) with ⟨m, rfl⟩
      rw [List.flatMap_cons, List.append_assoc, scanString_escape, ih m (by omega)]
      rfl

theorem length_escape_pos (c : Char) : 1 ≤ (escape c).length := by
  rcases escape_cases c with ⟨e, _, _, heq⟩ | ⟨heq, _⟩ | heq
  · rw [heq]
    exact Nat.le_add_left 1 _
  · rw [heq]
    exact Nat.le_refl 1
  · rw [heq, unicodeEscape]
    split
    · exact Nat.le_add_left 1 _
    · rw [List.length_append]
      exact Nat.le_add_right_of_le (Nat.le_add_left 1 _)

/-- A string is read back, with as many steps as there are characters in the
    text. -/
theorem scanString_quote (s rest : List Char) : ∃ t, quote s ++ rest = '"' :: t ∧
    scanString t.length t = some (s, rest) := by
  refine ⟨s.flatMap escape ++ '"' :: rest, ?_, ?_⟩
  · rw [quote, List.append_assoc]
    rfl
  -- No character is written as nothing, so the text is at least as long.
  · have hlength : s.length ≤ (s.flatMap escape).length + rest.length := by
      refine Nat.le_add_right_of_le ?_
      induction s with
      | nil => exact Nat.le_refl 0
      | cons c s ih =>
          rw [List.flatMap_cons, List.length_append, List.length_cons]
          have := length_escape_pos c
          omega
    rw [List.length_append, List.length_cons, ← Nat.add_assoc]
    exact scanString_flatMap s _ hlength rest

section Bounds

theorem scanHex4_length (s t : List Char) (n : Nat) (h : scanHex4 s = some (n, t)) :
    t.length < s.length := by
  unfold scanHex4 at h
  split at h
  · next a b c d u =>
      split at h
      · cases h
        simp only [List.length_cons]
        omega
      · exact absurd h (by simp only [reduceCtorEq, not_false_eq_true])
  · exact absurd h (by simp only [reduceCtorEq, not_false_eq_true])

theorem scanUnicode_length (s t : List Char) (c : Char) (h : scanUnicode s = some (c, t)) :
    t.length < s.length := by
  unfold scanUnicode at h
  split at h
  · exact absurd h (by simp only [reduceCtorEq, not_false_eq_true])
  · next u s₁ hu =>
      have hlen := scanHex4_length s s₁ u hu
      split at h
      · split at h
        · next s₂ =>
            split at h
            · exact absurd h (by simp only [reduceCtorEq, not_false_eq_true])
            · next v s₃ hv =>
                -- The second half takes six characters more.
                have hlen' := scanHex4_length s₂ s₃ v hv
                split at h
                · rw [Option.some.injEq, Prod.mk.injEq] at h
                  rw [← h.2]
                  simp only [List.length_cons] at hlen
                  omega
                · exact absurd h (by simp only [reduceCtorEq, not_false_eq_true])
        · exact absurd h (by simp only [reduceCtorEq, not_false_eq_true])
      · split at h
        · exact absurd h (by simp only [reduceCtorEq, not_false_eq_true])
        · rw [Option.some.injEq, Prod.mk.injEq] at h
          rw [← h.2]
          exact hlen

theorem scanEscape_length (s t : List Char) (c : Char) (h : scanEscape s = some (c, t)) :
    t.length < s.length := by
  cases s with
  | nil => exact absurd h (by simp only [scanEscape, reduceCtorEq, not_false_eq_true])
  | cons d s =>
      rw [scanEscape] at h
      rw [List.length_cons]
      split at h
      · have := scanUnicode_length s t c h
        omega
      · rcases Option.map_eq_some_iff.mp h with ⟨e, _, heq⟩
        cases heq
        omega

/-- A string takes no more steps than it has characters in the text, so any
    bound above that gives the same. -/
theorem scanString_bound (n : Nat) (s l t : List Char) (h : scanString n s = some (l, t)) :
    t.length < s.length ∧ ∀ m, s.length - t.length ≤ m → scanString m s = some (l, t) := by
  induction n generalizing s l with
  | zero => exact absurd h (by simp only [scanString, reduceCtorEq, not_false_eq_true])
  | succ n ih =>
      cases s with
      | nil => exact absurd h (by simp only [scanString, reduceCtorEq, not_false_eq_true])
      | cons c s =>
          rw [scanString] at h
          -- One step, and the rest by induction.
          have hgo : ∀ m, (c :: s).length - t.length ≤ m → t.length ≤ s.length →
              ∃ k, m = k + 1 ∧ s.length - t.length ≤ k := by
            intro m hm hle
            rw [List.length_cons] at hm
            exact ⟨m - 1, by omega, by omega⟩
          by_cases hquote : c = '"'
          · rw [if_pos hquote] at h
            cases h
            refine ⟨Nat.lt_succ_self _, fun m hm => ?_⟩
            rcases hgo m hm (Nat.le_refl _) with ⟨k, rfl, _⟩
            rw [scanString, if_pos hquote]
          · rw [if_neg hquote] at h
            by_cases hback : c = '\\'
            · rw [if_pos hback] at h
              split at h
              · exact absurd h (by simp only [reduceCtorEq, not_false_eq_true])
              · next d u hesc =>
                  rcases Option.map_eq_some_iff.mp h with ⟨r, hr, heq⟩
                  cases heq
                  -- An escape takes several characters and one step.
                  have hlen := scanEscape_length s u d hesc
                  rcases ih u r.1 hr with ⟨hlt, hall⟩
                  refine ⟨by rw [List.length_cons]; omega, fun m hm => ?_⟩
                  rcases hgo m hm (by omega) with ⟨k, rfl, hk⟩
                  rw [scanString, if_neg hquote, if_pos hback]
                  simp only [hesc, hall k (by omega), Option.map_some]
            · rw [if_neg hback] at h
              by_cases hcontrol : c < ' '
              · rw [if_pos hcontrol] at h
                exact absurd h (by simp only [reduceCtorEq, not_false_eq_true])
              · rw [if_neg hcontrol] at h
                rcases Option.map_eq_some_iff.mp h with ⟨r, hr, heq⟩
                cases heq
                rcases ih s r.1 hr with ⟨hlt, hall⟩
                refine ⟨by rw [List.length_cons]; omega, fun m hm => ?_⟩
                rcases hgo m hm (by omega) with ⟨k, rfl, hk⟩
                rw [scanString, if_neg hquote, if_neg hback, if_neg hcontrol, hall k hk]
                rfl

end Bounds

/-- A printable ASCII character. -/
def isPrintable (c : Char) : Bool := ' ' ≤ c && c ≤ '~'

theorem hexDigit_printable : ∀ n, n < 16 → isPrintable (hexDigit n) = true := by decide

theorem hex4_printable (n : Nat) : (hex4 n).all isPrintable = true := by
  have hdigit : ∀ m, isPrintable (hexDigit (m % 16)) = true :=
    fun m => hexDigit_printable _ (Nat.mod_lt m (by decide))
  simp only [hex4, List.all_cons, hdigit, List.all_nil, Bool.and_self]

theorem shortEscapes_printable : ∀ e ∈ shortEscapes, isPrintable e.1 = true := by decide

theorem escape_printable (c : Char) : (escape c).all isPrintable = true := by
  -- A backslash and a letter are printable, and so is what comes after them.
  have hu : ∀ l, ('\\' :: 'u' :: l).all isPrintable = l.all isPrintable := fun _ => rfl
  rcases escape_cases c with ⟨e, _, hlookup, heq⟩ | ⟨heq, hlow, hhigh, _⟩ | heq
  · have he : isPrintable e = true := by
      rcases List.lookup_eq_some_iff.mp hlookup with ⟨l, m, hl, _⟩
      refine shortEscapes_printable (e, c) ?_
      rw [hl]
      exact List.mem_append_right l List.mem_cons_self
    rw [heq]
    simp only [List.all_cons, he, List.all_nil, Bool.and_true]
    rfl
  · rw [heq]
    simp only [List.all_cons, List.all_nil, isPrintable, hlow, hhigh, decide_true, Bool.and_self]
  · rw [heq, unicodeEscape]
    split
    · rw [hu, hex4_printable]
    · rw [List.all_append, hu, hu, hex4_printable, hex4_printable, Bool.and_self]

theorem numberChar_printable (c : Char) (h : isNumberChar c = true) : isPrintable c = true := by
  simp only [isNumberChar, isDigit, Bool.or_eq_true, Bool.and_eq_true, decide_eq_true_eq,
    List.contains_eq_mem, List.mem_cons, List.not_mem_nil, or_false] at h
  rcases h with ⟨hlow, hhigh⟩ | rfl | rfl | rfl | rfl | rfl
  · rw [isPrintable, Bool.and_eq_true, decide_eq_true_eq, decide_eq_true_eq]
    exact ⟨Char.le_trans (show ' ' ≤ '0' by decide) hlow,
      Char.le_trans hhigh (show '9' ≤ '~' by decide)⟩
  · rfl
  · rfl
  · rfl
  · rfl
  · rfl

/-- A string is written in printable ASCII. -/
theorem quote_printable (s : List Char) : (quote s).all isPrintable = true := by
  have hbody : (s.flatMap escape).all isPrintable = true := by
    rw [List.all_flatMap, List.all_eq_true]
    exact fun c _ => escape_printable c
  rw [quote, List.all_append, List.all_cons, hbody]
  rfl

end Strings

end Lexeme
