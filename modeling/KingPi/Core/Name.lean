import KingPi.Core.Text
import KingPi.Regex.Runs

/-!
# Package Names

The two things the server does to a package name: the guard of `PyPIClient`,
which decides whether a name may go into an upstream URL, and the PEP 503
normalization of `PyPICacheClient`, which turns a name into its cache key.

Both are regular expressions in the source and both are kept as patterns
here. The guard is anchored with `$`, which also matches before a newline
that ends the string, so a name followed by one newline passes; `isName`
below says so.

`isName` reads the guard as a scan from left to right, which is the form that
meets the normalization: collapsing the separators and folding the case do
not change what the scan sees. `isValidPackage_normalize` is that fact. It is
stated for every string, and there the Kelvin sign shows up, because the
normalization takes it to the letter k while the guard does not know it.

## Main definitions

* `validPackageRe`: `_VALID_PACKAGE_RE` of `pypi_client.py`.
* `isValidPackage`: The guard.
* `normalizeRe`: `_NORMALIZE_RE` of `pypi_cache_client.py`.
* `normalizePackageName`: The PEP 503 normal form.
* `packageUrl`: The upstream URL of a package.
* `cacheKey`: The cache key of a package.
* `isName`: The guard as a scan.
* `unKelvin`: Writing every Kelvin sign as the letter it stands for.

## Theorems

* `isValidPackage_eq`: The guard is the scan.
* `normalize_eq_collapse`: The normal form collapses, then lowercases.
* `isValidPackage_normalize`: The guard judges a normal form as it judges the
  name with its Kelvin signs written out.
* `isAscii_of_valid`: A name that passes the guard is ASCII.
* `normalize_eq_map`: Normal forms of ASCII names.
-/

namespace KingPi

open Regex

/-- `[a-zA-Z0-9]` -/
def isAlnum (c : Char) : Bool :=
  (97 ≤ c.toNat && c.toNat ≤ 122) || (65 ≤ c.toNat && c.toNat ≤ 90) ||
    (48 ≤ c.toNat && c.toNat ≤ 57)

/-- `[-_.]` -/
def isSep (c : Char) : Bool := c == '-' || c == '_' || c == '.'

/-- `[a-zA-Z0-9._-]` -/
def isNameChar (c : Char) : Bool := isAlnum c || isSep c

/-- `^[a-zA-Z0-9]([a-zA-Z0-9._-]*[a-zA-Z0-9])?$` -/
def validPackageRe : Pattern :=
  .seq .bol (.seq (.chars isAlnum)
    (.seq (.opt (.seq (.star (.chars isNameChar)) (.chars isAlnum))) .eol))

/-- The guard: `_VALID_PACKAGE_RE.match(package)`. -/
def isValidPackage (package : Str) : Bool := matchesStart validPackageRe package

/-- `[-_.]+` -/
def normalizeRe : Pattern := .plus (.chars isSep)

/-- `_NORMALIZE_RE.sub("-", name).lower()` -/
def normalizePackageName (name : Str) : Str := lower (sub normalizeRe ['-'] name)

/-- `PYPI_BASE_URL` -/
def pypiBaseUrl : Str := "https://pypi.org/pypi".toList

/-- `f"{PYPI_BASE_URL}/{package}/json"` -/
def packageUrl (package : Str) : Str := pypiBaseUrl ++ "/".toList ++ package ++ "/json".toList

/-- `f"pypi:package:{normalize_package_name(package)}"` -/
def cacheKey (package : Str) : Str := "pypi:package:".toList ++ normalizePackageName package

/-- The guard after its first character. The flag says that the character
    before may end the name. -/
def isNameTail : Bool → Str → Bool
  | b, [] => b
  | b, c :: cs => if c = '\n' ∧ cs = [] then b else isNameChar c && isNameTail (isAlnum c) cs

/-- The guard as a scan from left to right. -/
def isName : Str → Bool
  | [] => false
  | c :: cs => isAlnum c && isNameTail true cs

theorem isNameChar_newline : isNameChar '\n' = false := by decide

theorem isNameChar_of_alnum (c : Char) (h : isAlnum c = true) : isNameChar c = true := by
  rw [isNameChar, h, Bool.true_or]

/-- What the scan accepts: a tail of name characters ending in a letter or
    digit, then at most a newline. -/
theorem isNameTail_iff (b : Bool) (s : Str) :
    isNameTail b s = true ↔ ∃ t, (t = [] ∨ t = ['\n']) ∧
      ((s = t ∧ b = true) ∨ ∃ pre d, s = pre ++ d :: t ∧
        (∀ e ∈ pre, isNameChar e = true) ∧ isAlnum d = true) := by
  induction s generalizing b with
  | nil =>
      rw [isNameTail]
      constructor
      · intro hb
        exact ⟨[], Or.inl rfl, Or.inl ⟨rfl, hb⟩⟩
      · rintro ⟨t, _, ⟨_, hb⟩ | ⟨pre, d, hs, _⟩⟩
        · exact hb
        · exact absurd hs.symm (by simp only [List.append_eq_nil_iff, reduceCtorEq, and_false,
            not_false_eq_true])
  | cons c cs ih =>
      rw [isNameTail]
      -- A newline at the end is not scanned: the flag decides there, as `$` does.
      by_cases hend : c = '\n' ∧ cs = []
      · rcases hend with ⟨rfl, rfl⟩
        rw [if_pos ⟨rfl, rfl⟩]
        constructor
        · intro hb
          exact ⟨['\n'], Or.inr rfl, Or.inl ⟨rfl, hb⟩⟩
        · rintro ⟨t, ht, ⟨_, hb⟩ | ⟨pre, d, hs, hpre, hd⟩⟩
          · exact hb
          · -- The newline would have to be a name character.
            cases pre with
            | nil =>
                rw [List.nil_append, List.cons.injEq] at hs
                rw [← hs.1] at hd
                exact absurd hd (by decide)
            | cons e pre =>
                rw [List.cons_append, List.cons.injEq] at hs
                have he := hpre e List.mem_cons_self
                rw [← hs.1, isNameChar_newline] at he
                exact absurd he (by simp only [Bool.false_eq_true, not_false_eq_true])
      · rw [if_neg hend, Bool.and_eq_true, ih]
        constructor
        · -- The tail ends here if `c` is a letter or digit, or further on.
          rintro ⟨hc, t, ht, ⟨rfl, hal⟩ | ⟨pre, d, rfl, hpre, hd⟩⟩
          · exact ⟨cs, ht, Or.inr ⟨[], c, rfl, fun e he => absurd he List.not_mem_nil, hal⟩⟩
          · refine ⟨t, ht, Or.inr ⟨c :: pre, d, rfl, ?_, hd⟩⟩
            intro e he
            rcases List.mem_cons.mp he with rfl | he
            · exact hc
            · exact hpre e he
        · rintro ⟨t, ht, ⟨rfl, _⟩ | ⟨pre, d, hs, hpre, hd⟩⟩
          · rcases ht with ht | ht
            · exact absurd ht (by simp only [reduceCtorEq, not_false_eq_true])
            · rw [List.cons.injEq] at ht
              exact absurd ht hend
          · cases pre with
            | nil =>
                rw [List.nil_append, List.cons.injEq] at hs
                rcases hs with ⟨rfl, rfl⟩
                exact ⟨isNameChar_of_alnum c hd, cs, ht, Or.inl ⟨rfl, hd⟩⟩
            | cons e pre =>
                rw [List.cons_append, List.cons.injEq] at hs
                rcases hs with ⟨rfl, rfl⟩
                exact ⟨hpre c List.mem_cons_self, t, ht,
                  Or.inr ⟨pre, d, rfl, fun e he => hpre e (List.mem_cons_of_mem c he), hd⟩⟩

/-- What the guard accepts, read off the pattern. -/
theorem isValidPackage_iff (s : Str) :
    isValidPackage s = true ↔ ∃ c cs t, s = c :: cs ∧ isAlnum c = true ∧
      (t = [] ∨ t = ['\n']) ∧ (cs = t ∨ ∃ pre d, cs = pre ++ d :: t ∧
        (∀ e ∈ pre, isNameChar e = true) ∧ isAlnum d = true) := by
  simp only [isValidPackage, validPackageRe, matchesStart_iff, mem_ends_seq, mem_ends_bol,
    mem_ends_chars, mem_ends_opt, mem_ends_star, mem_ends_eol]
  constructor
  · -- From a match to the shape: the group took part in it or did not.
    rintro ⟨y, _, ⟨-, rfl⟩, _, ⟨c, cs, hs, hc, rfl⟩, z, hz, heol, -⟩
    rcases hz with ⟨x, ⟨pre, hx, hpre, -⟩, d, ds, hxd, hd, rfl⟩ | rfl
    · rw [hxd] at hx
      exact ⟨c, cs, ds, hs, hc, heol, Or.inr ⟨pre, d, hx, hpre, hd⟩⟩
    · exact ⟨c, cs, cs, hs, hc, heol, Or.inl rfl⟩
  · -- From the shape to a match, by naming the position after each part.
    rintro ⟨c, cs, t, hs, hc, ht, rfl | ⟨pre, d, hcs, hpre, hd⟩⟩
    · exact ⟨⟨false, cs⟩, _, ⟨trivial, rfl⟩, ⟨false, cs⟩, ⟨c, cs, hs, hc, rfl⟩, ⟨false, cs⟩,
        Or.inr rfl, ht, rfl⟩
    · exact ⟨⟨false, t⟩, _, ⟨trivial, rfl⟩, ⟨false, cs⟩, ⟨c, cs, hs, hc, rfl⟩, ⟨false, t⟩,
        Or.inl ⟨⟨false, d :: t⟩, ⟨pre, hcs, hpre, rfl⟩, d, t, rfl, hd, rfl⟩, ht, rfl⟩

/-- The guard is the scan. -/
theorem isValidPackage_eq (s : Str) : isValidPackage s = isName s := by
  rw [Bool.eq_iff_iff, isValidPackage_iff]
  cases s with
  | nil =>
      constructor
      · rintro ⟨c, cs, t, hs, -⟩
        exact absurd hs (by simp only [reduceCtorEq, not_false_eq_true])
      · intro h
        exact absurd h (by simp only [isName, Bool.false_eq_true, not_false_eq_true])
  | cons c cs =>
      rw [isName, Bool.and_eq_true, isNameTail_iff]
      constructor
      · rintro ⟨c', cs', t, hs, hc, ht, htail⟩
        rw [List.cons.injEq] at hs
        rcases hs with ⟨rfl, rfl⟩
        rcases htail with rfl | htail
        · exact ⟨hc, cs, ht, Or.inl ⟨rfl, rfl⟩⟩
        · exact ⟨hc, t, ht, Or.inr htail⟩
      · rintro ⟨hc, t, ht, ⟨rfl, -⟩ | htail⟩
        · exact ⟨c, cs, cs, rfl, hc, ht, Or.inl rfl⟩
        · exact ⟨c, cs, t, rfl, hc, ht, Or.inr htail⟩

/-- Write every Kelvin sign as the letter it stands for. -/
def unKelvin (c : Char) : Char := if c = kelvinSign then 'k' else c

theorem unKelvin_of_ascii (c : Char) (h : isAscii c = true) : unKelvin c = c := by
  rw [unKelvin, if_neg]
  rintro rfl
  exact absurd h (by decide)

theorem map_unKelvin_of_ascii (s : Str) (h : ∀ c ∈ s, isAscii c = true) :
    s.map unKelvin = s := by
  rw [List.map_congr_left (fun c hc => unKelvin_of_ascii c (h c hc)), List.map_id']

theorem isAscii_of_nameChar (c : Char) (h : isNameChar c = true) : isAscii c = true := by
  rw [isAscii, decide_eq_true_iff]
  simp only [isNameChar, isAlnum, isSep, Bool.or_eq_true, Bool.and_eq_true, decide_eq_true_iff,
    beq_iff_eq] at h
  rcases h with h | h
  · omega
  · rcases h with (rfl | rfl) | rfl <;> decide

theorem mem_isNameTail (b : Bool) (s : Str) (h : isNameTail b s = true) :
    ∀ c ∈ s, isNameChar c = true ∨ c = '\n' := by
  induction s generalizing b with
  | nil => exact fun c hc => absurd hc List.not_mem_nil
  | cons d s ih =>
      intro c hc
      rw [isNameTail] at h
      by_cases hend : d = '\n' ∧ s = []
      · rw [hend.1, hend.2, List.mem_singleton] at hc
        exact Or.inr hc
      · rw [if_neg hend, Bool.and_eq_true] at h
        rcases List.mem_cons.mp hc with rfl | hc
        · exact Or.inl h.1
        · exact ih _ h.2 c hc

/-- What a name is made of. -/
theorem mem_isName (s : Str) (h : isName s = true) :
    ∀ c ∈ s, isNameChar c = true ∨ c = '\n' := by
  cases s with
  | nil => exact fun c hc => absurd hc List.not_mem_nil
  | cons d s =>
      intro c hc
      rw [isName, Bool.and_eq_true] at h
      rcases List.mem_cons.mp hc with rfl | hc
      · exact Or.inl (isNameChar_of_alnum c h.1)
      · exact mem_isNameTail true s h.2 c hc

theorem isAscii_of_isName (s : Str) (h : isName s = true) : ∀ c ∈ s, isAscii c = true := by
  intro c hc
  rcases mem_isName s h c hc with hchar | rfl
  · exact isAscii_of_nameChar c hchar
  · decide

/-- A name that passes the guard is ASCII. -/
theorem isAscii_of_valid (s : Str) (h : isValidPackage s = true) : ∀ c ∈ s, isAscii c = true := by
  rw [isValidPackage_eq] at h
  exact isAscii_of_isName s h

section Fold

/-- The scan sees a letter, a digit or a separator the same before and after
    folding. -/
theorem toNat_foldChar (c : Char) (hk : c ≠ kelvinSign) :
    (foldChar c).toNat = if 65 ≤ c.toNat ∧ c.toNat ≤ 90 then c.toNat + 32 else c.toNat := by
  rw [foldChar_of_notKelvin c hk]
  by_cases hup : 65 ≤ c.toNat ∧ c.toNat ≤ 90
  · rw [if_pos hup, if_pos hup, toNat_ofNat _ (by simp only [Nat.isValidChar]; omega)]
  · rw [if_neg hup, if_neg hup]

theorem foldChar_upper_ne (c d : Char) (hup : 65 ≤ c.toNat ∧ c.toNat ≤ 90)
    (hd : d.toNat < 97) : foldChar c ≠ d := by
  intro h
  have hk : c ≠ kelvinSign := by
    rintro rfl
    exact absurd hup.2 (by decide)
  have hnat := toNat_foldChar c hk
  rw [if_pos hup, h] at hnat
  omega

theorem foldChar_eq_self (c : Char) (hk : c ≠ kelvinSign)
    (hup : ¬ (65 ≤ c.toNat ∧ c.toNat ≤ 90)) : foldChar c = c := by
  rw [foldChar_of_notKelvin c hk, if_neg hup]

theorem isAlnum_foldChar (c : Char) : isAlnum (foldChar c) = isAlnum (unKelvin c) := by
  by_cases hk : c = kelvinSign
  · rw [hk]
    decide
  · rw [unKelvin, if_neg hk, isAlnum, isAlnum, toNat_foldChar c hk, Bool.eq_iff_iff]
    simp only [Bool.or_eq_true, Bool.and_eq_true, decide_eq_true_iff]
    by_cases hup : 65 ≤ c.toNat ∧ c.toNat ≤ 90
    · rw [if_pos hup]
      omega
    · rw [if_neg hup]

/-- Folding moves no character to or from one below the capital letters. -/
theorem foldChar_eq_iff (c d : Char) (hd : d.toNat < 65) : foldChar c = d ↔ unKelvin c = d := by
  by_cases hk : c = kelvinSign
  · rw [hk, foldChar, if_pos rfl, unKelvin, if_pos rfl]
  · rw [unKelvin, if_neg hk]
    by_cases hup : 65 ≤ c.toNat ∧ c.toNat ≤ 90
    · constructor
      · exact fun h => absurd h (foldChar_upper_ne c d hup (by omega))
      · rintro rfl
        omega
    · rw [foldChar_eq_self c hk hup]

theorem isSep_foldChar (c : Char) : isSep (foldChar c) = isSep (unKelvin c) := by
  rw [Bool.eq_iff_iff]
  simp only [isSep, Bool.or_eq_true, beq_iff_eq]
  rw [foldChar_eq_iff c '-' (by decide), foldChar_eq_iff c '.' (by decide)]
  -- The underscore lies between the two cases, so it is taken by hand.
  have hund : foldChar c = '_' ↔ unKelvin c = '_' := by
    by_cases hk : c = kelvinSign
    · rw [hk]
      decide
    · rw [unKelvin, if_neg hk]
      by_cases hup : 65 ≤ c.toNat ∧ c.toNat ≤ 90
      · constructor
        · exact fun h => absurd h (foldChar_upper_ne c '_' hup (by decide))
        · rintro rfl
          exact absurd hup.2 (by decide)
      · rw [foldChar_eq_self c hk hup]
  rw [hund]

/-- The scan sees of a character whether it is a letter or digit, a separator
    or a newline, and nothing else. -/
theorem isNameTail_map_congr (f g : Char → Char)
    (halnum : ∀ c, isAlnum (f c) = isAlnum (g c)) (hsep : ∀ c, isSep (f c) = isSep (g c))
    (hnewline : ∀ c, f c = '\n' ↔ g c = '\n') (b : Bool) (s : Str) :
    isNameTail b (s.map f) = isNameTail b (s.map g) := by
  induction s generalizing b with
  | nil => rfl
  | cons c s ih =>
      simp only [List.map_cons, isNameTail, List.map_eq_nil_iff, isNameChar, halnum, hsep,
        hnewline, ih]

theorem isName_map_congr (f g : Char → Char)
    (halnum : ∀ c, isAlnum (f c) = isAlnum (g c)) (hsep : ∀ c, isSep (f c) = isSep (g c))
    (hnewline : ∀ c, f c = '\n' ↔ g c = '\n') (s : Str) :
    isName (s.map f) = isName (s.map g) := by
  cases s with
  | nil => rfl
  | cons c s => rw [List.map_cons, List.map_cons, isName, isName, halnum,
      isNameTail_map_congr f g halnum hsep hnewline]

theorem isName_map_foldChar (s : Str) : isName (s.map foldChar) = isName (s.map unKelvin) :=
  isName_map_congr foldChar unKelvin isAlnum_foldChar isSep_foldChar
    (fun c => foldChar_eq_iff c '\n' (by decide)) s

/-- The scan judges a lowercased string as it judges the string with its
    Kelvin signs written out. -/
theorem isName_lower (s : Str) : isName (lower s) = isName (s.map unKelvin) := by
  by_cases hs : ∀ c ∈ s, isAscii c = true ∨ c = kelvinSign
  · rw [lower_eq_map s hs, isName_map_foldChar]
  · -- A character beyond both survives on each side, and neither is a name.
    have hleft : isName (lower s) = false := by
      by_contra h
      exact hs (ascii_of_lower s (isAscii_of_isName _ (Bool.of_not_eq_false h)))
    have hright : isName (s.map unKelvin) = false := by
      by_contra h
      refine hs (fun c hc => ?_)
      by_cases hk : c = kelvinSign
      · exact Or.inr hk
      · have hasc := isAscii_of_isName _ (Bool.of_not_eq_false h) (unKelvin c)
          (List.mem_map_of_mem hc)
        rw [unKelvin, if_neg hk] at hasc
        exact Or.inl hasc
    rw [hleft, hright]

end Fold

section Collapse

/-- The runs of separators of a name, each written as one dash. -/
def collapseSeps : Bool → Str → Str := collapse isSep ['-']

theorem collapseSeps_cons_sep (b : Bool) (c : Char) (s : Str) (h : isSep c = true) :
    collapseSeps b (c :: s) = (if b then [] else ['-']) ++ collapseSeps true s := by
  simp only [collapseSeps, collapse, h, if_true]

theorem collapseSeps_cons_other (b : Bool) (c : Char) (s : Str) (h : isSep c = false) :
    collapseSeps b (c :: s) = c :: collapseSeps false s := by
  simp only [collapseSeps, collapse, h, Bool.false_eq_true, if_false]

/-- The normal form collapses the separators, then lowercases. -/
theorem normalize_eq_collapse (s : Str) :
    normalizePackageName s = lower (collapseSeps false s) := by
  rw [normalizePackageName, normalizeRe, sub_plus, collapseSeps]

theorem isAlnum_of_sep (c : Char) (h : isSep c = true) : isAlnum c = false := by
  simp only [isSep, Bool.or_eq_true, beq_iff_eq] at h
  rcases h with (rfl | rfl) | rfl <;> decide

theorem ne_newline_of_sep (c : Char) (h : isSep c = true) : c ≠ '\n' := by
  rintro rfl
  exact absurd h (by decide)

theorem collapseSeps_eq_nil_iff (s : Str) : collapseSeps false s = [] ↔ s = [] := by
  cases s with
  | nil => exact Iff.rfl
  | cons c s =>
      cases hc : isSep c with
      | true => simp only [collapseSeps_cons_sep false c s hc, Bool.false_eq_true, if_false,
          List.cons_append, reduceCtorEq]
      | false => simp only [collapseSeps_cons_other false c s hc, reduceCtorEq]

/-- Past a separator the scan forgets whether the name could have ended
    before it. -/
theorem isNameTail_cons_sep (b : Bool) (c : Char) (s : Str) (h : isSep c = true) :
    isNameTail b (c :: s) = isNameTail false s := by
  rw [isNameTail, if_neg (fun hend => ne_newline_of_sep c h hend.1), isAlnum_of_sep c h,
    isNameChar, h, Bool.or_true, Bool.true_and]

/-- Collapsing the separators does not change what the scan sees. Inside a
    run the scan is past a separator already, so the rest of the run says
    nothing new. -/
theorem isNameTail_collapse (s : Str) :
    (∀ b, isNameTail b (collapseSeps false s) = isNameTail b s) ∧
      isNameTail false (collapseSeps true s) = isNameTail false s := by
  induction s with
  | nil => exact ⟨fun _ => rfl, rfl⟩
  | cons c s ih =>
      cases hc : isSep c with
      | true =>
          refine ⟨fun b => ?_, ?_⟩
          · rw [collapseSeps_cons_sep false c s hc, isNameTail_cons_sep b c s hc, ← ih.2]
            exact isNameTail_cons_sep b '-' _ (by decide)
          · rw [collapseSeps_cons_sep true c s hc, isNameTail_cons_sep false c s hc, ← ih.2]
            rfl
      | false =>
          have hstep : ∀ b, isNameTail b (c :: collapseSeps false s) = isNameTail b (c :: s) := by
            intro b
            rw [isNameTail, isNameTail, ih.1]
            simp only [collapseSeps_eq_nil_iff]
          refine ⟨fun b => ?_, ?_⟩
          · rw [collapseSeps_cons_other false c s hc, hstep]
          · rw [collapseSeps_cons_other true c s hc, hstep]

theorem isName_collapse (s : Str) : isName (collapseSeps false s) = isName s := by
  cases s with
  | nil => rfl
  | cons c s =>
      cases hc : isSep c with
      | true =>
          rw [collapseSeps_cons_sep false c s hc, isName, isAlnum_of_sep c hc, Bool.false_and]
          rfl
      | false =>
          rw [collapseSeps_cons_other false c s hc, isName, isName, (isNameTail_collapse s).1]

theorem isSep_unKelvin (c : Char) : isSep (unKelvin c) = isSep c := by
  by_cases hk : c = kelvinSign
  · rw [hk]
    decide
  · rw [unKelvin, if_neg hk]

theorem collapseSeps_map_unKelvin (b : Bool) (s : Str) :
    collapseSeps b (s.map unKelvin) = (collapseSeps b s).map unKelvin :=
  collapse_map isSep unKelvin ['-'] (by decide) b s (fun c _ => isSep_unKelvin c)

/-- The guard judges a normal form as it judges the name with its Kelvin
    signs written out. -/
theorem isValidPackage_normalize (s : Str) :
    isValidPackage (normalizePackageName s) = isValidPackage (s.map unKelvin) := by
  rw [isValidPackage_eq, isValidPackage_eq, normalize_eq_collapse, isName_lower,
    ← collapseSeps_map_unKelvin, isName_collapse]

/-- The characters of a collapsed name are a dash or its own. -/
theorem mem_collapseSeps (b : Bool) (s : Str) (c : Char) (h : c ∈ collapseSeps b s) :
    c = '-' ∨ c ∈ s := by
  rcases mem_collapse isSep ['-'] b s c h with hdash | hc
  · exact Or.inl (List.mem_singleton.mp hdash)
  · exact Or.inr hc.1

theorem mem_of_not_sep (b : Bool) (s : Str) (c : Char) (h : c ∈ s) (hc : isSep c = false) :
    c ∈ collapseSeps b s := by
  induction s generalizing b with
  | nil => exact absurd h List.not_mem_nil
  | cons d s ih =>
      cases hd : isSep d with
      | true =>
          rw [collapseSeps_cons_sep b d s hd]
          rcases List.mem_cons.mp h with rfl | h
          · rw [hc] at hd
            exact absurd hd (by simp only [Bool.false_eq_true, not_false_eq_true])
          · exact List.mem_append_right _ (ih true h)
      | false =>
          rw [collapseSeps_cons_other b d s hd]
          rcases List.mem_cons.mp h with rfl | h
          · exact List.mem_cons_self
          · exact List.mem_cons_of_mem d (ih false h)

/-- A name of ASCII characters and Kelvin signs is normalized character by
    character once its separators are collapsed. -/
theorem normalize_eq_map (s : Str) (h : ∀ c ∈ s, isAscii c = true ∨ c = kelvinSign) :
    normalizePackageName s = (collapseSeps false s).map foldChar := by
  rw [normalize_eq_collapse]
  refine lower_eq_map _ (fun c hc => ?_)
  rcases mem_collapseSeps false s c hc with rfl | hc
  · exact Or.inl (by decide)
  · exact h c hc

/-- Writing the Kelvin signs out does not change the normal form. -/
theorem normalize_map_unKelvin (s : Str) (h : ∀ c ∈ s, isAscii c = true ∨ c = kelvinSign) :
    normalizePackageName (s.map unKelvin) = normalizePackageName s := by
  -- Both spell the same letter in lowercase.
  have hfold : ∀ c, foldChar (unKelvin c) = foldChar c := by
    intro c
    by_cases hk : c = kelvinSign
    · rw [hk]
      decide
    · rw [unKelvin, if_neg hk]
  have hascii : ∀ c ∈ s.map unKelvin, isAscii c = true ∨ c = kelvinSign := by
    intro c hc
    rcases List.mem_map.mp hc with ⟨d, hd, rfl⟩
    by_cases hk : d = kelvinSign
    · exact Or.inl (by rw [hk]; decide)
    · rw [unKelvin, if_neg hk]
      exact h d hd
  rw [normalize_eq_map _ hascii, normalize_eq_map s h, collapseSeps_map_unKelvin, List.map_map]
  exact List.map_congr_left (fun c _ => hfold c)

/-- A name whose normal form is ASCII consists of ASCII characters and Kelvin
    signs. -/
theorem ascii_of_normalize (s : Str) (h : ∀ d ∈ normalizePackageName s, isAscii d = true) :
    ∀ c ∈ s, isAscii c = true ∨ c = kelvinSign := by
  rw [normalize_eq_collapse] at h
  intro c hc
  cases hsep : isSep c with
  | true => exact Or.inl (isAscii_of_nameChar c (by rw [isNameChar, hsep, Bool.or_true]))
  | false => exact ascii_of_lower _ h c (mem_of_not_sep false s c hc hsep)

end Collapse

end KingPi
