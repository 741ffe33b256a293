import KingPi.Theory.Provenance

/-!
# The Grammar of Package Names

What the guard `_VALID_PACKAGE_RE` says, against what it is meant to say. The
names PyPI knows are made of ASCII letters, digits, dots, underscores and
dashes, and begin and end with a letter or a digit. The pattern spells this
out between `^` and `$`, and is wrong about one thing: `$` matches at the end
of the string, and also just before a newline that ends it. A name with one
newline after it passes, and is asked for upstream.

`guard_exact_iff` says that this is the only difference. For every string that
is not a name followed by a newline, a request is made exactly when the string
is a name, and anything else raises `ValueError` before any call.

The newline does no harm to the request. `request_stays` is about every string
that gets through: the name cannot leave its segment of the URL's path, since
nothing it is made of has a meaning there.

## Main definitions

* `IsLetterOrDigit`: The ASCII letters and digits.
* `IsPackageName`: The names of the grammar.
* `GuardExact`: The client agrees with the grammar about a string.
* `isPlain`: The characters without a meaning of their own in a URL.
* `StaysOnPyPI`: The URL of a name leads to the metadata of that name.

## Theorems

* `isValidPackage_iff_name`: The guard in terms of the grammar.
* `fetchPackageInfo_calls`: The calls of the client.
* `guard_exact_iff`: Where the client agrees with the grammar.
* `request_stays`: No name steers the request elsewhere.
-/

namespace KingPi

open Async Prog

/-- An ASCII letter or digit. -/
def IsLetterOrDigit (c : Char) : Prop :=
  'a' ≤ c ∧ c ≤ 'z' ∨ 'A' ≤ c ∧ c ≤ 'Z' ∨ '0' ≤ c ∧ c ≤ '9'

instance (c : Char) : Decidable (IsLetterOrDigit c) :=
  inferInstanceAs (Decidable (_ ∨ _))

/-- The names of the grammar. -/
structure IsPackageName (s : Str) : Prop where
  nonempty : s ≠ []
  chars : ∀ c ∈ s, IsLetterOrDigit c ∨ c = '.' ∨ c = '_' ∨ c = '-'
  first : ∀ c, s.head? = some c → IsLetterOrDigit c
  last : ∀ c, s.getLast? = some c → IsLetterOrDigit c

/-- The client agrees with the grammar about a string: it asks upstream
    exactly for names, and raises `ValueError` for anything else, whatever its
    calls would be answered with. -/
structure GuardExact (s : Str) : Prop where
  issues : ∀ answer, (∃ url, Eff.httpGet url ∈ (PyPIClient.fetchPackageInfo s).calls answer) ↔
    IsPackageName s
  rejects : ¬ IsPackageName s → ∀ answer, (PyPIClient.fetchPackageInfo s).calls answer = [] ∧
    ∃ exc, (PyPIClient.fetchPackageInfo s).eval answer = .error exc ∧ exc.isValueError = true

/-- A character that is not one of those with a meaning of their own in a
    URL. -/
def isPlain (c : Char) : Bool := !(['?', '#', '%', '@', '\\'].contains c)

/-- The URL of a name leads to the metadata of that name. -/
structure StaysOnPyPI (s url : Str) : Prop where
  plain : ∀ c ∈ url, isPlain c = true
  segments : url.splitOn '/' =
    ["https:".toList, [], "pypi.org".toList, "pypi".toList, s, "json".toList]
  nonempty : s ≠ []
  notHere : s ≠ ".".toList
  notParent : s ≠ "..".toList

section Guard

theorem isAlnum_iff (c : Char) : isAlnum c = true ↔ IsLetterOrDigit c := by
  have hvals : 'a'.toNat = 97 ∧ 'z'.toNat = 122 ∧ 'A'.toNat = 65 ∧ 'Z'.toNat = 90 ∧
      '0'.toNat = 48 ∧ '9'.toNat = 57 := by decide
  have hle : ∀ d e : Char, d ≤ e ↔ d.toNat ≤ e.toNat := fun _ _ => Iff.rfl
  simp only [isAlnum, IsLetterOrDigit, hle, Bool.or_eq_true, Bool.and_eq_true, decide_eq_true_iff]
  omega

theorem isNameChar_iff (c : Char) :
    isNameChar c = true ↔ IsLetterOrDigit c ∨ c = '.' ∨ c = '_' ∨ c = '-' := by
  simp only [isNameChar, isSep, isAlnum_iff, Bool.or_eq_true, beq_iff_eq]
  tauto

/-- The grammar in the order the pattern reads it. -/
theorem isPackageName_iff (s : Str) : IsPackageName s ↔ ∃ c cs, s = c :: cs ∧ isAlnum c = true ∧
    (cs = [] ∨ ∃ mid d, cs = mid ++ [d] ∧ (∀ e ∈ mid, isNameChar e = true) ∧
      isAlnum d = true) := by
  constructor
  · -- The first character is split off, and of what is left the last one.
    rintro ⟨hne, hchars, hfirst, hlast⟩
    rcases List.exists_cons_of_ne_nil hne with ⟨c, cs, rfl⟩
    refine ⟨c, cs, rfl, (isAlnum_iff c).mpr (hfirst c rfl), ?_⟩
    rcases List.eq_nil_or_concat' cs with rfl | ⟨mid, d, rfl⟩
    · exact Or.inl rfl
    · refine Or.inr ⟨mid, d, rfl, fun e he => ?_, ?_⟩
      · rw [isNameChar_iff]
        exact hchars e (List.mem_cons_of_mem c (List.mem_append_left [d] he))
      · rw [isAlnum_iff]
        refine hlast d ?_
        rw [← List.cons_append]
        exact List.getLast?_concat
  · -- One character is first and last at once, more have one for each end.
    rintro ⟨c, cs, rfl, hc, htail⟩
    have hcname := (isNameChar_iff c).mp (isNameChar_of_alnum c hc)
    rw [isAlnum_iff] at hc
    rcases htail with rfl | ⟨mid, d, rfl, hmid, hd⟩
    · refine ⟨List.cons_ne_nil c [], fun e he => ?_, fun e he => ?_, fun e he => ?_⟩
      · rw [List.mem_singleton.mp he]
        exact hcname
      · rw [← Option.some.inj he]
        exact hc
      · rw [← Option.some.inj he]
        exact hc
    · have hdname := (isNameChar_iff d).mp (isNameChar_of_alnum d hd)
      rw [isAlnum_iff] at hd
      refine ⟨List.cons_ne_nil c _, fun e he => ?_, fun e he => ?_, fun e he => ?_⟩
      · rcases List.mem_cons.mp he with rfl | he
        · exact hcname
        · rcases List.mem_append.mp he with he | he
          · exact (isNameChar_iff e).mp (hmid e he)
          · rw [List.mem_singleton.mp he]
            exact hdname
      · rw [← Option.some.inj he]
        exact hc
      · rw [← List.cons_append, List.getLast?_concat] at he
        rw [← Option.some.inj he]
        exact hd

/-- The guard in terms of the grammar: a name, or a name and a newline. -/
theorem isValidPackage_iff_name (s : Str) : isValidPackage s = true ↔
    ∃ t, IsPackageName t ∧ (s = t ∨ s = t ++ ['\n']) := by
  rw [isValidPackage_iff]
  constructor
  · rintro ⟨c, cs, t, rfl, hc, ht, htail⟩
    rcases htail with rfl | ⟨mid, d, rfl, hmid, hd⟩
    · refine ⟨[c], (isPackageName_iff _).mpr ⟨c, [], rfl, hc, Or.inl rfl⟩, ?_⟩
      rcases ht with rfl | rfl
      · exact Or.inl rfl
      · exact Or.inr rfl
    · refine ⟨c :: (mid ++ [d]), (isPackageName_iff _).mpr
        ⟨c, _, rfl, hc, Or.inr ⟨mid, d, rfl, hmid, hd⟩⟩, ?_⟩
      rcases ht with rfl | rfl
      · exact Or.inl rfl
      · right
        rw [List.cons_append, List.append_assoc]
        rfl
  · rintro ⟨t, hname, hs⟩
    rcases (isPackageName_iff t).mp hname with ⟨c, cs, rfl, hc, htail⟩
    -- What `$` leaves unread is nothing, or the newline.
    have hrest : ∃ u, (u = [] ∨ u = ['\n']) ∧ s = c :: cs ++ u := by
      rcases hs with rfl | rfl
      · exact ⟨[], Or.inl rfl, (List.append_nil _).symm⟩
      · exact ⟨['\n'], Or.inr rfl, rfl⟩
    rcases hrest with ⟨u, hu, rfl⟩
    refine ⟨c, cs ++ u, u, rfl, hc, hu, ?_⟩
    rcases htail with rfl | ⟨mid, d, rfl, hmid, hd⟩
    · exact Or.inl rfl
    · refine Or.inr ⟨mid, d, ?_, hmid, hd⟩
      rw [List.append_assoc]
      rfl

/-- A name does not end in a newline. -/
theorem not_name_newline (t : Str) : ¬ IsPackageName (t ++ ['\n']) := by
  intro h
  exact absurd (h.last '\n' List.getLast?_concat) (by decide)

/-- The calls of the client: one request for what passes the guard, and none
    for anything else. -/
theorem fetchPackageInfo_calls (s : Str) (answer : (e : Eff) → Except Exc e.Reply) :
    (PyPIClient.fetchPackageInfo s).calls answer =
      if isValidPackage s = true then [Eff.httpGet (packageUrl s)] else [] := by
  cases hs : isValidPackage s with
  | false =>
      rw [PyPIClient.fetchPackageInfo_invalid s hs, calls_raise, if_neg Bool.false_ne_true]
  | true =>
      have hcalls : (Httpx.get (packageUrl s)).calls answer = [Eff.httpGet (packageUrl s)] :=
        calls_call answer _
      rw [PyPIClient.fetchPackageInfo_valid s hs, calls_bind, hcalls, if_pos rfl]
      -- Once there is a response, nothing else is awaited.
      cases (Httpx.get (packageUrl s)).eval answer with
      | error exc => rfl
      | ok response =>
          dsimp only
          split
          · rw [calls_fromExcept]
            rfl
          · split <;> rfl

theorem issues_iff (s : Str) (answer : (e : Eff) → Except Exc e.Reply) :
    (∃ url, Eff.httpGet url ∈ (PyPIClient.fetchPackageInfo s).calls answer) ↔
      isValidPackage s = true := by
  rw [fetchPackageInfo_calls]
  split
  · next hs => exact ⟨fun _ => hs, fun _ => ⟨_, List.mem_singleton_self _⟩⟩
  · next hs => exact ⟨fun ⟨_, hmem⟩ => absurd hmem List.not_mem_nil, fun h => absurd h hs⟩

end Guard

/-- Where the client agrees with the grammar: about every string but the names
    with a newline after them. -/
theorem guard_exact_iff (s : Str) : GuardExact s ↔ ∀ t, IsPackageName t → s ≠ t ++ ['\n'] := by
  constructor
  · rintro hexact t ht rfl
    -- The guard lets the newline pass, so a request is issued.
    have hvalid := (isValidPackage_iff_name _).mpr ⟨t, ht, Or.inr rfl⟩
    have hissues := (issues_iff _ (fun _ => .error .timeoutException)).mpr hvalid
    exact not_name_newline t ((hexact.issues _).mp hissues)
  · intro hnewline
    have hvalid : isValidPackage s = true ↔ IsPackageName s := by
      rw [isValidPackage_iff_name]
      constructor
      · rintro ⟨t, ht, rfl | hs⟩
        · exact ht
        · exact absurd hs (hnewline t ht)
      · exact fun hs => ⟨s, hs, Or.inl rfl⟩
    refine ⟨fun answer => (issues_iff s answer).trans hvalid, fun hs answer => ?_⟩
    have hinvalid : isValidPackage s = false := Bool.eq_false_iff.mpr (mt hvalid.mp hs)
    rw [PyPIClient.fetchPackageInfo_invalid s hinvalid]
    exact ⟨rfl, _, rfl, rfl⟩

/-- The guard lets a newline pass: the string is not a name, the request is
    made whatever it is answered with, and a response is returned like one for
    the name. -/
theorem guard_newline : ¬ IsPackageName "numpy\n".toList ∧
    (∀ answer, (PyPIClient.fetchPackageInfo "numpy\n".toList).calls answer =
      [.httpGet "https://pypi.org/pypi/numpy\n/json".toList]) ∧
    ¬ GuardExact "numpy\n".toList := by
  have hname : ¬ IsPackageName "numpy\n".toList := not_name_newline "numpy".toList
  have hvalid : isValidPackage "numpy\n".toList = true := by decide
  refine ⟨hname, fun answer => ?_, fun hexact => hname ?_⟩
  · rw [fetchPackageInfo_calls, if_pos hvalid]
    rfl
  · exact (hexact.issues (fun _ => .error .timeoutException)).mp ((issues_iff _ _).mpr hvalid)

section Url

/-- What a string that passes the guard is made of. -/
theorem mem_valid (s : Str) (h : isValidPackage s = true) :
    ∀ c ∈ s, isNameChar c = true ∨ c = '\n' := by
  rw [isValidPackage_eq] at h
  exact mem_isName s h

/-- The characters of the base URL, segment by segment. -/
theorem pypiBaseUrl_eq : pypiBaseUrl = ['h', 't', 't', 'p', 's', ':'] ++ '/' :: ([] ++
    '/' :: (['p', 'y', 'p', 'i', '.', 'o', 'r', 'g'] ++ '/' :: ['p', 'y', 'p', 'i'])) :=
  String.toList_ofList

theorem isPlain_iff (c : Char) :
    isPlain c = true ↔ c ≠ '?' ∧ c ≠ '#' ∧ c ≠ '%' ∧ c ≠ '@' ∧ c ≠ '\\' := by
  simp only [isPlain, Bool.not_eq_true', List.contains_eq_mem, decide_eq_false_iff_not,
    List.mem_cons, List.not_mem_nil, or_false, not_or, ne_eq]

theorem urlText_plain : (pypiBaseUrl ++ "/".toList ++ "/json".toList).all isPlain = true := by
  rw [pypiBaseUrl_eq]
  rfl

/-- Nothing a name is made of is special, nor is a newline. -/
theorem name_plain (s : Str) (h : isValidPackage s = true) : ∀ c ∈ s, isPlain c = true := by
  intro c hc
  have hspecial : ∀ d, isNameChar d = false → d ≠ '\n' → c ≠ d := by
    rintro d hd hne rfl
    rcases mem_valid s h c hc with hname | hnewline
    · rw [hd] at hname
      exact Bool.false_ne_true hname
    · exact hne hnewline
  exact (isPlain_iff c).mpr ⟨hspecial _ (by decide) (by decide), hspecial _ (by decide) (by decide),
    hspecial _ (by decide) (by decide), hspecial _ (by decide) (by decide),
    hspecial _ (by decide) (by decide)⟩

/-- No special character is in the URL: neither in the name nor in the text
    around it. -/
theorem plain_packageUrl (s : Str) (h : isValidPackage s = true) :
    ∀ c ∈ packageUrl s, isPlain c = true := by
  intro c hc
  have hsplit : c ∈ s ∨ c ∈ pypiBaseUrl ++ "/".toList ++ "/json".toList := by
    simp only [packageUrl, List.mem_append] at hc ⊢
    tauto
  rcases hsplit with hc | hc
  · exact name_plain s h c hc
  · exact List.all_eq_true.mp urlText_plain c hc

theorem slash_not_mem (s : Str) (h : isValidPackage s = true) : '/' ∉ s := by
  intro hmem
  rcases mem_valid s h '/' hmem with hname | hnewline
  · exact absurd hname (by decide)
  · exact absurd hnewline (by decide)

/-- The URL, as the segments it is joined from. -/
theorem packageUrl_eq_intercalate (s : Str) : packageUrl s = ['/'].intercalate
    ["https:".toList, [], "pypi.org".toList, "pypi".toList, s, "json".toList] := by
  rw [packageUrl, pypiBaseUrl_eq]
  simp only [List.intercalate_cons_cons, List.intercalate_singleton, List.append_assoc,
    List.cons_append, List.nil_append]
  rfl

theorem splitOn_packageUrl (s : Str) (h : isValidPackage s = true) :
    (packageUrl s).splitOn '/' =
      ["https:".toList, [], "pypi.org".toList, "pypi".toList, s, "json".toList] := by
  rw [packageUrl_eq_intercalate]
  refine List.splitOn_intercalate '/' (fun segment hseg => ?_) (List.cons_ne_nil _ _)
  simp only [List.mem_cons, List.not_mem_nil, or_false] at hseg
  rcases hseg with rfl | rfl | rfl | rfl | rfl | rfl
  · decide
  · decide
  · decide
  · decide
  · exact slash_not_mem segment h
  · decide

theorem request_of_mem (s url : Str) (answer : (e : Eff) → Except Exc e.Reply)
    (h : Eff.httpGet url ∈ (PyPIClient.fetchPackageInfo s).calls answer) :
    isValidPackage s = true ∧ url = packageUrl s := by
  have hvalid := (issues_iff s answer).mp ⟨url, h⟩
  rw [fetchPackageInfo_calls, if_pos hvalid, List.mem_singleton] at h
  exact ⟨hvalid, Eff.httpGet.inj h⟩

end Url

/-- No package name steers the request elsewhere. A request that is made goes
    to the segment of its name, and requests for different names go to
    different URLs. -/
theorem request_stays (s url : Str) (answer : (e : Eff) → Except Exc e.Reply)
    (h : Eff.httpGet url ∈ (PyPIClient.fetchPackageInfo s).calls answer) :
    StaysOnPyPI s url ∧ ∀ t other answer', t ≠ s →
      Eff.httpGet other ∈ (PyPIClient.fetchPackageInfo t).calls answer' → other ≠ url := by
  rcases request_of_mem s url answer h with ⟨hvalid, rfl⟩
  constructor
  · refine ⟨plain_packageUrl s hvalid, splitOn_packageUrl s hvalid, ?_, ?_, ?_⟩
    · rintro rfl
      exact absurd hvalid (by decide)
    · rintro rfl
      exact absurd hvalid (by decide)
    · rintro rfl
      exact absurd hvalid (by decide)
  · rintro t other answer' hne ht heq
    rcases request_of_mem t other answer' ht with ⟨_, rfl⟩
    exact hne (packageUrl_inj t s heq)

/-- The request for one name. -/
theorem request_stays_numpy :
    StaysOnPyPI "numpy".toList "https://pypi.org/pypi/numpy/json".toList := by
  refine (request_stays "numpy".toList _ (fun _ => .error .timeoutException) ?_).1
  rw [fetchPackageInfo_calls, if_pos (by decide)]
  exact List.mem_singleton_self _

end KingPi
