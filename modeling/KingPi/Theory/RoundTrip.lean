import KingPi.Format.Json
import KingPi.Theory.Table

/-!
# JSON Text Is Read Back

What `json.loads` returns survives `json.dumps` and `json.loads`, whatever text
it came from. Strings are Unicode scalar values throughout: a value with an
unpaired surrogate, which Python knows, need not survive, and is left out.

The values are those of `Decoded`. Such a value is read back from its text in
front of any text a number cannot go on into: that is all a value inside an
array or an object can count on, since what follows it there is a comma or a
bracket. The steps the reader takes are bounded, and twice the length of the
text is bound enough.

The other half is that nothing else is ever returned. The keys of a dictionary
are different because `dictOf` makes them so, and a number is its own `repr`
because that is what it was replaced by.

## Theorems

* `scanNumeral_append`: A numeral is read in front of a text where it stops.
* `scanValue_dumps`: A value is read back in front of such a text.
* `loads_decoded`: What `json.loads` returns.
* `loads_of_decoded`, `dumps_printable`: Such a value is read back, from ASCII.
* `loads_dumps`: Both together.
-/

namespace KingPi

open Lexeme

section Numerals

theorem scanLiteral_eq (literal s t : Str) (h : scanLiteral literal s = some t) :
    s = literal ++ t := by
  unfold scanLiteral at h
  split at h
  · next hpre =>
      rcases List.isPrefixOf_iff_prefix.mp hpre with ⟨u, rfl⟩
      rw [List.drop_left] at h
      rw [Option.some.inj h]
  · exact absurd h (by simp only [reduceCtorEq, not_false_eq_true])

/-- A numeral is a number, or one of the constants. -/
theorem numeral_cases (l : Str) (h : IsNumeral l) :
    scanNumber l = some (l, []) ∨ l ∈ numberConstants := by
  unfold IsNumeral scanNumeral at h
  split at h
  · next r hnum => exact Or.inl (hnum.trans h)
  · rcases List.exists_of_findSome?_eq_some h with ⟨c, hc, hlit⟩
    rcases Option.map_eq_some_iff.mp hlit with ⟨u, _, heq⟩
    cases heq
    exact Or.inr hc

/-- A numeral is read in front of a text where it stops. -/
theorem scanNumeral_append (l rest : Str) (h : IsNumeral l) (hrest : Stops rest) :
    scanNumeral (l ++ rest) = some (l, rest) := by
  rcases numeral_cases l h with hnum | hconst
  · rw [scanNumeral, scanNumber_append rest hrest l l [] hnum, List.nil_append]
  · -- The constants differ in their letters, and none begins like a number.
    simp only [numberConstants, List.mem_cons, List.not_mem_nil, or_false] at hconst
    rcases hconst with rfl | rfl | rfl
    · rfl
    · rfl
    · rfl

/-- A character a numeral can begin with. -/
def opensNumeral (c : Char) : Bool := Lexeme.isDigit c || ['-', 'N', 'I'].contains c

theorem ne_of_opens (c d : Char) (hc : opensNumeral c = true) (hd : opensNumeral d = false) :
    c ≠ d := by
  rintro rfl
  rw [hd] at hc
  exact Bool.false_ne_true hc

/-- What a numeral begins with. -/
theorem numeral_head (l : Str) (h : IsNumeral l) : ∃ c s, l = c :: s ∧ opensNumeral c = true := by
  rcases numeral_cases l h with hnum | hconst
  · cases l with
    | nil => exact absurd hnum (by simp only [scanNumber, scanInt, Option.map_none, reduceCtorEq,
        not_false_eq_true])
    | cons c s =>
        -- What comes first in a number is its sign or its first digit.
        refine ⟨c, s, rfl, ?_⟩
        rcases Option.map_eq_some_iff.mp hnum with ⟨r, hint, _⟩
        rw [scanInt] at hint
        by_cases hminus : c = '-'
        · rw [hminus]
          rfl
        · rw [if_neg hminus, scanNat] at hint
          by_cases hzero : c = '0'
          · rw [hzero]
            rfl
          · rw [if_neg hzero] at hint
            by_cases hdigit : Lexeme.isDigit c = true
            · rw [opensNumeral, hdigit]
              rfl
            · rw [if_neg hdigit] at hint
              exact absurd hint (by simp only [reduceCtorEq, not_false_eq_true])
  · simp only [numberConstants, List.mem_cons, List.not_mem_nil, or_false] at hconst
    rcases hconst with rfl | rfl | rfl
    · exact ⟨_, _, rfl, rfl⟩
    · exact ⟨_, _, rfl, rfl⟩
    · exact ⟨_, _, rfl, rfl⟩

end Numerals

section Dumps

variable (num : Numerals)

/-- A character that cannot begin anything but a value. -/
def OpensValue (c : Char) : Prop := isSpace c = false ∧ c ≠ ']' ∧ c ≠ '\x7d'

/-- A value begins with a character of its own. -/
theorem dumps_head (v : Json) (h : Decoded num v) : ∃ c s, dumps v = c :: s ∧ OpensValue c := by
  cases h with
  | null => exact ⟨_, _, rfl, rfl, by decide, by decide⟩
  | bool b =>
      cases b with
      | false => exact ⟨_, _, rfl, rfl, by decide, by decide⟩
      | true => exact ⟨_, _, rfl, rfl, by decide, by decide⟩
  | number literal hrepr =>
      rcases numeral_head literal (num.isNumeral _ _ hrepr) with ⟨c, s, rfl, hc⟩
      -- It is neither whitespace nor a bracket.
      refine ⟨c, s, rfl, ?_, ne_of_opens c _ hc rfl, ne_of_opens c _ hc rfl⟩
      simp only [isSpace, List.contains_eq_mem, decide_eq_false_iff_not, List.mem_cons,
        List.not_mem_nil, or_false, not_or]
      exact ⟨ne_of_opens c _ hc rfl, ne_of_opens c _ hc rfl, ne_of_opens c _ hc rfl,
        ne_of_opens c _ hc rfl⟩
  | string s => exact ⟨_, _, rfl, rfl, by decide, by decide⟩
  | array items =>
      cases items with
      | nil => exact ⟨_, _, rfl, rfl, by decide, by decide⟩
      | cons v vs => exact ⟨_, _, rfl, rfl, by decide, by decide⟩
  | object items =>
      cases items with
      | nil => exact ⟨_, _, rfl, rfl, by decide, by decide⟩
      | cons item items => exact ⟨_, _, rfl, rfl, by decide, by decide⟩

theorem dumps_pos (v : Json) (h : Decoded num v) : 1 ≤ (dumps v).length := by
  rcases dumps_head num v h with ⟨c, s, heq, _⟩
  rw [heq]
  exact Nat.le_add_left 1 _

theorem dropWhile_dumps (v : Json) (h : Decoded num v) (rest : Str) :
    (dumps v ++ rest).dropWhile isSpace = dumps v ++ rest := by
  rcases dumps_head num v h with ⟨c, s, heq, hc⟩
  rw [heq, List.cons_append, List.dropWhile_cons_of_neg]
  rw [hc.1]
  exact Bool.false_ne_true

/-- What follows an item of an array is no part of it. -/
theorem stops_dumpsItems (vs : List Json) (rest : Str) : Stops (dumpsItems vs ++ rest) := by
  cases vs with
  | nil => exact stops_cons _ _ rfl
  | cons v vs => exact stops_cons _ _ rfl

theorem stops_dumpsPairs (items : List (Str × Json)) (rest : Str) :
    Stops (dumpsPairs items ++ rest) := by
  cases items with
  | nil => exact stops_cons _ _ rfl
  | cons item items => exact stops_cons _ _ rfl

/-- A pair begins with the quote of its key. -/
theorem dumpsPair_head (item : Str × Json) (rest : Str) :
    ∃ s, dumpsPair item ++ rest = '"' :: s := by
  rcases item with ⟨key, v⟩
  exact ⟨_, rfl⟩

theorem dropWhile_dumpsPair (item : Str × Json) (rest : Str) :
    (dumpsPair item ++ rest).dropWhile isSpace = dumpsPair item ++ rest := by
  rcases dumpsPair_head item rest with ⟨s, heq⟩
  rw [heq, List.dropWhile_cons_of_neg (by decide)]

theorem scanQuoted_quote (s rest : Str) : scanQuoted (quote s ++ rest) = some (s, rest) := by
  rcases scanString_quote s rest with ⟨t, heq, hscan⟩
  rw [heq, scanQuoted, if_pos rfl, hscan]

theorem scanAtom_numeral (literal rest : Str) (h : num.repr literal = some literal)
    (hrest : Stops rest) : scanAtom num (literal ++ rest) = some (.number literal, rest) := by
  have hnumeral := num.isNumeral _ _ h
  rcases numeral_head literal hnumeral with ⟨c, s, rfl, hc⟩
  -- A numeral does not begin with the first letter of a keyword.
  have hkey : ∀ d l, opensNumeral d = false → scanLiteral (d :: l) (c :: s ++ rest) = none := by
    intro d l hd
    have hne : (d == c) = false := beq_eq_false_iff_ne.mpr (Ne.symm (ne_of_opens c d hc hd))
    rw [scanLiteral, List.cons_append, List.isPrefixOf, hne, Bool.false_and]
    exact if_neg Bool.false_ne_true
  rw [scanAtom, show "null".toList = 'n' :: "ull".toList from rfl,
    show "true".toList = 't' :: "rue".toList from rfl,
    show "false".toList = 'f' :: "alse".toList from rfl, hkey 'n' _ rfl, hkey 't' _ rfl,
    hkey 'f' _ rfl]
  simp only [scanNumeral_append _ rest hnumeral hrest, h, Option.map_some]

/-- A value is read back in front of a text a number cannot go on into. -/
def ReadsBack (v : Json) : Prop :=
  ∀ n rest, 2 * (dumps v).length ≤ n → Stops rest →
    scanValue num n (dumps v ++ rest) = some (v, rest)

theorem scanDelimiter_close (close : Char) (hclose : isSpace close = false) (rest : Str) :
    scanDelimiter close (close :: rest) = some (true, rest) := by
  rw [scanDelimiter, List.dropWhile_cons_of_neg (by rw [hclose]; exact Bool.false_ne_true)]
  exact if_pos rfl

theorem scanDelimiter_comma (close : Char) (hclose : close ≠ ',') (rest : Str) :
    scanDelimiter close (',' :: ' ' :: rest) = some (false, rest.dropWhile isSpace) := by
  rw [scanDelimiter, List.dropWhile_cons_of_neg (by decide)]
  simp only [if_neg (Ne.symm hclose), if_true]
  rw [List.dropWhile_cons_of_pos rfl]

theorem scanColon_colon (rest : Str) :
    scanColon (':' :: ' ' :: rest) = some (rest.dropWhile isSpace) := by
  rw [scanColon, List.dropWhile_cons_of_neg (by decide)]
  simp only [if_true]
  rw [List.dropWhile_cons_of_pos rfl]

/-- The items of an array are read back, each in front of what follows it. -/
theorem scanItems_dumps (vs : List Json) (v : Json) (n : Nat) (rest : Str)
    (hdecoded : ∀ u ∈ v :: vs, Decoded num u) (h : ∀ u ∈ v :: vs, ReadsBack num u)
    (hn : 2 * (dumps v ++ dumpsItems vs).length ≤ n + 1) :
    scanItems num n (dumps v ++ (dumpsItems vs ++ rest)) = some (v :: vs, rest) := by
  induction vs generalizing v n with
  | nil =>
      rw [List.length_append, dumpsItems, List.length_singleton] at hn
      rcases Nat.exists_eq_add_of_le' (show 1 ≤ n by omega) with ⟨m, rfl⟩
      rw [scanItems, h v List.mem_cons_self m _ (by omega) (stops_dumpsItems [] rest)]
      simp only [dumpsItems, List.singleton_append, scanDelimiter_close ']' rfl]
  | cons u us ih =>
      rw [List.length_append, dumpsItems, List.length_append, List.length_cons,
        List.length_cons] at hn
      -- The value in front takes its own steps, and one less is left for the rest.
      rcases Nat.exists_eq_add_of_le' (show 1 ≤ n by omega) with ⟨m, rfl⟩
      have hu := hdecoded u (List.mem_cons_of_mem v List.mem_cons_self)
      have hus := ih u m (fun x hx => hdecoded x (List.mem_cons_of_mem v hx))
        (fun x hx => h x (List.mem_cons_of_mem v hx)) (by rw [List.length_append]; omega)
      rw [scanItems, h v List.mem_cons_self m _ (by omega) (stops_dumpsItems (u :: us) rest)]
      simp only [dumpsItems, List.cons_append, List.append_assoc,
        scanDelimiter_comma ']' (by decide), dropWhile_dumps num u hu, hus, Option.map_some]

/-- The items of an object are read back. -/
theorem scanPairs_dumps (items : List (Str × Json)) (item : Str × Json) (n : Nat) (rest : Str)
    (hdecoded : ∀ x ∈ item :: items, Decoded num x.2)
    (h : ∀ x ∈ item :: items, ReadsBack num x.2)
    (hn : 2 * (dumpsPair item ++ dumpsPairs items).length ≤ n + 1) :
    scanPairs num n (dumpsPair item ++ (dumpsPairs items ++ rest)) =
      some (item :: items, rest) := by
  rcases item with ⟨key, v⟩
  induction items generalizing key v n with
  | nil =>
      rw [List.length_append, dumpsPair, List.length_append, List.length_cons, List.length_cons,
        dumpsPairs, List.length_singleton] at hn
      rcases Nat.exists_eq_add_of_le' (show 1 ≤ n by omega) with ⟨m, rfl⟩
      have hv := hdecoded _ List.mem_cons_self
      -- Behind the last value comes the brace, which ends it.
      rw [scanPairs, dumpsPair, List.append_assoc, scanQuoted_quote]
      simp only [List.cons_append, scanColon_colon, dropWhile_dumps num v hv,
        h _ List.mem_cons_self m _ (show 2 * (dumps v).length ≤ m by omega)
          (stops_dumpsPairs [] rest)]
      simp only [dumpsPairs, List.singleton_append, scanDelimiter_close '\x7d' rfl]
  | cons next items ih =>
      rcases next with ⟨key', v'⟩
      rw [List.length_append, dumpsPair, List.length_append, List.length_cons, List.length_cons,
        dumpsPairs, List.length_append, List.length_cons, List.length_cons] at hn
      rcases Nat.exists_eq_add_of_le' (show 1 ≤ n by omega) with ⟨m, rfl⟩
      have hv := hdecoded _ List.mem_cons_self
      have hrest := ih m key' v' (fun x hx => hdecoded x (List.mem_cons_of_mem _ hx))
        (fun x hx => h x (List.mem_cons_of_mem _ hx)) (by rw [List.length_append]; omega)
      rw [scanPairs, dumpsPair, List.append_assoc, scanQuoted_quote]
      simp only [List.cons_append, scanColon_colon, dropWhile_dumps num v hv,
        h _ List.mem_cons_self m _ (show 2 * (dumps v).length ≤ m by omega)
          (stops_dumpsPairs ((key', v') :: items) rest)]
      simp only [dumpsPairs, List.cons_append, List.append_assoc,
        scanDelimiter_comma '\x7d' (by decide), dropWhile_dumpsPair, hrest, Option.map_some]

/-- A decoded value is read back in front of a text a number cannot go on
    into. The induction is on what makes it a decoded value, which gives the
    parts of an array or an object. -/
theorem scanValue_dumps (v : Json) (hv : Decoded num v) : ReadsBack num v := by
  induction hv with
  | null =>
      intro n rest hn _
      rcases Nat.exists_eq_add_of_le' (show 1 ≤ n from Nat.le_trans (by decide) hn) with ⟨m, rfl⟩
      rfl
  | bool b =>
      intro n rest hn _
      cases b with
      | false =>
          rcases Nat.exists_eq_add_of_le' (show 1 ≤ n from Nat.le_trans (by decide) hn) with
            ⟨m, rfl⟩
          rfl
      | true =>
          rcases Nat.exists_eq_add_of_le' (show 1 ≤ n from Nat.le_trans (by decide) hn) with
            ⟨m, rfl⟩
          rfl
  | number literal hrepr =>
      intro n rest hn hrest
      have hpos := dumps_pos num (.number literal) (.number literal hrepr)
      rcases Nat.exists_eq_add_of_le' (show 1 ≤ n by omega) with ⟨m, rfl⟩
      have hatom := scanAtom_numeral num literal rest hrepr hrest
      rcases numeral_head literal (num.isNumeral _ _ hrepr) with ⟨c, s, rfl, hc⟩
      rw [dumps, List.cons_append, scanValue, if_neg (ne_of_opens c _ hc rfl),
        if_neg (ne_of_opens c _ hc rfl), if_neg (ne_of_opens c _ hc rfl)]
      exact hatom
  | string s =>
      intro n rest hn _
      have hpos := dumps_pos num (.string s) (.string s)
      rcases Nat.exists_eq_add_of_le' (show 1 ≤ n by omega) with ⟨m, rfl⟩
      rcases scanString_quote s rest with ⟨t, heq, hscan⟩
      rw [dumps, heq, scanValue, if_pos rfl, hscan]
      rfl
  | array items hitems ih =>
      intro n rest hn hrest
      cases items with
      | nil =>
          rcases Nat.exists_eq_add_of_le' (show 2 ≤ n from Nat.le_trans (by decide) hn) with
            ⟨m, rfl⟩
          rfl
      | cons v vs =>
          rw [dumps, List.length_append, List.length_cons] at hn
          have hpos := dumps_pos num v (hitems v List.mem_cons_self)
          rcases Nat.exists_eq_add_of_le' (show 2 ≤ n by omega) with ⟨m, rfl⟩
          have hitems' := scanItems_dumps num vs v m rest hitems ih
            (by rw [List.length_append]; omega)
          -- The first item does not begin with the bracket of an empty array.
          rcases dumps_head num v (hitems v List.mem_cons_self) with ⟨c, s, heq, hc⟩
          rw [dumps, List.cons_append, List.cons_append, List.append_assoc, scanValue,
            if_neg (by decide), if_pos rfl, dropWhile_dumps num v (hitems v List.mem_cons_self)]
          rw [heq, List.cons_append] at hitems' ⊢
          rw [scanArray, if_neg hc.2.1, hitems']
          rfl
  | object items hkeys hitems ih =>
      intro n rest hn hrest
      cases items with
      | nil =>
          rcases Nat.exists_eq_add_of_le' (show 2 ≤ n from Nat.le_trans (by decide) hn) with
            ⟨m, rfl⟩
          rfl
      | cons item items =>
          rw [dumps, List.length_append, List.length_cons] at hn
          rcases Nat.exists_eq_add_of_le' (show 2 ≤ n by omega) with ⟨m, rfl⟩
          have hitems' := scanPairs_dumps num items item m rest hitems ih
            (by rw [List.length_append]; omega)
          rw [dumps, List.cons_append, List.cons_append, List.append_assoc, scanValue,
            if_neg (by decide), if_neg (by decide), if_pos rfl, dropWhile_dumpsPair]
          rcases dumpsPair_head item (dumpsPairs items ++ rest) with ⟨s, heq⟩
          rw [heq] at hitems' ⊢
          rw [scanObject, if_neg (by decide), hitems']
          -- The keys are different, so the dictionary is the list of its items.
          exact congrArg (fun l => some (Json.object l, rest)) (dictOf_of_nodup _ hkeys)

end Dumps

section Dictionaries

variable {α : Type}

theorem nodup_dictSet (d : List (Str × α)) (key : Str) (a : α) (h : (d.map Prod.fst).Nodup) :
    ((dictSet d key a).map Prod.fst).Nodup := by
  unfold dictSet
  split
  · -- The keys stay where they are.
    have hkeys : (d.map (fun item => if item.1 == key then (key, a) else item)).map Prod.fst =
        d.map Prod.fst := by
      rw [List.map_map]
      refine List.map_congr_left (fun item _ => ?_)
      by_cases hkey : item.1 = key
      · simp only [Function.comp_apply, hkey, beq_self_eq_true, if_true]
      · simp only [Function.comp_apply, beq_eq_false_iff_ne.mpr hkey, Bool.false_eq_true, if_false]
    rw [hkeys]
    exact h
  · next hnew =>
      rw [List.map_append, List.map_singleton]
      refine List.nodup_append.mpr ⟨h, List.nodup_singleton key, ?_⟩
      -- A key that is put at the end was not there.
      intro k hk k' hk' hkk
      rcases List.mem_map.mp hk with ⟨item, hitem, rfl⟩
      rw [List.mem_singleton.mp hk'] at hkk
      exact hnew (List.any_eq_true.mpr ⟨item, hitem, beq_iff_eq.mpr hkk⟩)

theorem mem_dictSet (d : List (Str × α)) (key : Str) (a : α) (item : Str × α)
    (h : item ∈ dictSet d key a) : item = (key, a) ∨ item ∈ d := by
  unfold dictSet at h
  split at h
  · rcases List.mem_map.mp h with ⟨item', hitem', rfl⟩
    split
    · exact Or.inl rfl
    · exact Or.inr hitem'
  · rcases List.mem_append.mp h with h | h
    · exact Or.inr h
    · exact Or.inl (List.mem_singleton.mp h)

/-- The keys of a dictionary are different, and its items are among those it
    was made from. -/
theorem dictOf_spec (items : List (Str × α)) :
    ((dictOf items).map Prod.fst).Nodup ∧ ∀ item ∈ dictOf items, item ∈ items := by
  have hfold : ∀ (items d : List (Str × α)), (d.map Prod.fst).Nodup →
      ((items.foldl (fun d item => dictSet d item.1 item.2) d).map Prod.fst).Nodup ∧
        ∀ item ∈ items.foldl (fun d item => dictSet d item.1 item.2) d,
          item ∈ d ∨ item ∈ items := by
    intro items
    induction items with
    | nil => exact fun d hd => ⟨hd, fun item hitem => Or.inl hitem⟩
    | cons x items ih =>
        intro d hd
        -- The induction is on the items that are left, over any dictionary so far.
        rcases ih (dictSet d x.1 x.2) (nodup_dictSet d x.1 x.2 hd) with ⟨hkeys, hmem⟩
        refine ⟨hkeys, fun item hitem => ?_⟩
        rcases hmem item hitem with hset | hrest
        · rcases mem_dictSet d x.1 x.2 item hset with rfl | hd
          · exact Or.inr List.mem_cons_self
          · exact Or.inl hd
        · exact Or.inr (List.mem_cons_of_mem x hrest)
  rcases hfold items [] List.nodup_nil with ⟨hkeys, hmem⟩
  exact ⟨hkeys, fun item hitem => (hmem item hitem).resolve_left List.not_mem_nil⟩

end Dictionaries

section Loads

variable (num : Numerals)

/-- How a value is read: by its first character. -/
theorem scanValue_cases (n : Nat) (s t : Str) (v : Json)
    (h : scanValue num (n + 1) s = some (v, t)) : ∃ c u, s = c :: u ∧
      (c = '"' ∧ (∃ l, v = .string l ∧ scanString u.length u = some (l, t)) ∨
        c ≠ '"' ∧ c = '[' ∧ scanArray num n (u.dropWhile isSpace) = some (v, t) ∨
        c ≠ '"' ∧ c ≠ '[' ∧ c = '\x7b' ∧ scanObject num n (u.dropWhile isSpace) = some (v, t) ∨
        c ≠ '"' ∧ c ≠ '[' ∧ c ≠ '\x7b' ∧ scanAtom num s = some (v, t)) := by
  cases s with
  | nil => exact absurd h (by simp only [scanValue, reduceCtorEq, not_false_eq_true])
  | cons c u =>
      refine ⟨c, u, rfl, ?_⟩
      rw [scanValue] at h
      split at h
      · next hquote =>
          rcases Option.map_eq_some_iff.mp h with ⟨r, hr, heq⟩
          cases heq
          exact Or.inl ⟨hquote, r.1, rfl, hr⟩
      · next hquote =>
          split at h
          · next hbracket => exact Or.inr (Or.inl ⟨hquote, hbracket, h⟩)
          · next hbracket =>
              split at h
              · next hbrace => exact Or.inr (Or.inr (Or.inl ⟨hquote, hbracket, hbrace, h⟩))
              · next hbrace => exact Or.inr (Or.inr (Or.inr ⟨hquote, hbracket, hbrace, h⟩))

theorem scanArray_cases (n : Nat) (s t : Str) (v : Json)
    (h : scanArray num (n + 1) s = some (v, t)) : ∃ c u, s = c :: u ∧
      (c = ']' ∧ v = .array [] ∧ t = u ∨
        c ≠ ']' ∧ ∃ vs, v = .array vs ∧ scanItems num n s = some (vs, t)) := by
  cases s with
  | nil => exact absurd h (by simp only [scanArray, reduceCtorEq, not_false_eq_true])
  | cons c u =>
      refine ⟨c, u, rfl, ?_⟩
      rw [scanArray] at h
      split at h
      · next hclose =>
          cases h
          exact Or.inl ⟨hclose, rfl, rfl⟩
      · next hclose =>
          rcases Option.map_eq_some_iff.mp h with ⟨r, hr, heq⟩
          cases heq
          exact Or.inr ⟨hclose, r.1, rfl, hr⟩

/-- How items are read: a value, what separates it from the next, and the
    rest. -/
theorem scanItems_cases (n : Nat) (s t : Str) (vs : List Json)
    (h : scanItems num (n + 1) s = some (vs, t)) : ∃ v s₁ b s₂,
      scanValue num n s = some (v, s₁) ∧ scanDelimiter ']' s₁ = some (b, s₂) ∧
      (b = true ∧ vs = [v] ∧ t = s₂ ∨
        b = false ∧ ∃ us, vs = v :: us ∧ scanItems num n s₂ = some (us, t)) := by
  rw [scanItems] at h
  split at h
  · exact absurd h (by simp only [reduceCtorEq, not_false_eq_true])
  · next v s₁ hv =>
      split at h
      · exact absurd h (by simp only [reduceCtorEq, not_false_eq_true])
      · next s₂ hdelim =>
          cases h
          exact ⟨v, s₁, true, _, hv, hdelim, Or.inl ⟨rfl, rfl, rfl⟩⟩
      · next s₂ hdelim =>
          rcases Option.map_eq_some_iff.mp h with ⟨r, hr, heq⟩
          cases heq
          exact ⟨v, s₁, false, s₂, hv, hdelim, Or.inr ⟨rfl, r.1, rfl, hr⟩⟩

theorem scanObject_cases (n : Nat) (s t : Str) (v : Json)
    (h : scanObject num (n + 1) s = some (v, t)) : ∃ c u, s = c :: u ∧
      (c = '\x7d' ∧ v = .object [] ∧ t = u ∨
        c ≠ '\x7d' ∧ ∃ items, v = .object (dictOf items) ∧
          scanPairs num n s = some (items, t)) := by
  cases s with
  | nil => exact absurd h (by simp only [scanObject, reduceCtorEq, not_false_eq_true])
  | cons c u =>
      refine ⟨c, u, rfl, ?_⟩
      rw [scanObject] at h
      split at h
      · next hclose =>
          cases h
          exact Or.inl ⟨hclose, rfl, rfl⟩
      · next hclose =>
          rcases Option.map_eq_some_iff.mp h with ⟨r, hr, heq⟩
          cases heq
          exact Or.inr ⟨hclose, r.1, rfl, hr⟩

theorem scanPairs_cases (n : Nat) (s t : Str) (items : List (Str × Json))
    (h : scanPairs num (n + 1) s = some (items, t)) : ∃ key s₁ s₂ v s₃ b s₄,
      scanQuoted s = some (key, s₁) ∧ scanColon s₁ = some s₂ ∧
      scanValue num n s₂ = some (v, s₃) ∧ scanDelimiter '\x7d' s₃ = some (b, s₄) ∧
      (b = true ∧ items = [(key, v)] ∧ t = s₄ ∨
        b = false ∧ ∃ rest, items = (key, v) :: rest ∧ scanPairs num n s₄ = some (rest, t)) := by
  rw [scanPairs] at h
  split at h
  · exact absurd h (by simp only [reduceCtorEq, not_false_eq_true])
  · next key s₁ hkey =>
      split at h
      · exact absurd h (by simp only [reduceCtorEq, not_false_eq_true])
      · next s₂ hcolon =>
          split at h
          · exact absurd h (by simp only [reduceCtorEq, not_false_eq_true])
          · next v s₃ hv =>
              split at h
              · exact absurd h (by simp only [reduceCtorEq, not_false_eq_true])
              · next s₄ hdelim =>
                  cases h
                  exact ⟨key, s₁, s₂, v, s₃, true, _, hkey, hcolon, hv, hdelim,
                    Or.inl ⟨rfl, rfl, rfl⟩⟩
              · next s₄ hdelim =>
                  rcases Option.map_eq_some_iff.mp h with ⟨r, hr, heq⟩
                  cases heq
                  exact ⟨key, s₁, s₂, v, s₃, false, s₄, hkey, hcolon, hv, hdelim,
                    Or.inr ⟨rfl, r.1, rfl, hr⟩⟩

theorem scanAtom_decoded (s t : Str) (v : Json) (h : scanAtom num s = some (v, t)) :
    Decoded num v := by
  unfold scanAtom at h
  split at h
  · cases h
    exact .null
  · cases h
    exact .bool true
  · cases h
    exact .bool false
  · split at h
    · exact absurd h (by simp only [reduceCtorEq, not_false_eq_true])
    · next literal u _ =>
        rcases Option.map_eq_some_iff.mp h with ⟨r, hr, heq⟩
        cases heq
        exact .number r (num.stable literal r hr)

/-- What each of the readers returns is decoded. The induction is on the bound
    of the steps, for all of them at once. -/
theorem scan_decoded (n : Nat) :
    (∀ s v t, scanValue num n s = some (v, t) → Decoded num v) ∧
    (∀ s v t, scanArray num n s = some (v, t) → Decoded num v) ∧
    (∀ s vs t, scanItems num n s = some (vs, t) → ∀ v ∈ vs, Decoded num v) ∧
    (∀ s v t, scanObject num n s = some (v, t) → Decoded num v) ∧
    ∀ s items t, scanPairs num n s = some (items, t) → ∀ item ∈ items, Decoded num item.2 := by
  induction n with
  | zero =>
      refine ⟨?_, ?_, ?_, ?_, ?_⟩
      all_goals exact fun s v t h => absurd h (by simp only [scanValue, scanArray, scanItems,
        scanObject, scanPairs, reduceCtorEq, not_false_eq_true])
  | succ n ih =>
      rcases ih with ⟨hvalue, harray, hitems, hobject, hpairs⟩
      refine ⟨?_, ?_, ?_, ?_, ?_⟩
      · intro s v t h
        rcases scanValue_cases num n s t v h with
          ⟨c, u, rfl, ⟨_, l, rfl, _⟩ | ⟨_, _, h⟩ | ⟨_, _, _, h⟩ | ⟨_, _, _, h⟩⟩
        · exact .string l
        · exact harray _ v t h
        · exact hobject _ v t h
        · exact scanAtom_decoded num _ t v h
      · intro s v t h
        rcases scanArray_cases num n s t v h with ⟨c, u, rfl, ⟨_, rfl, _⟩ | ⟨_, vs, rfl, hvs⟩⟩
        · exact .array [] (fun v hv => absurd hv List.not_mem_nil)
        · exact .array vs (hitems _ vs t hvs)
      · intro s vs t h
        rcases scanItems_cases num n s t vs h with
          ⟨v, s₁, b, s₂, hv, _, ⟨_, rfl, _⟩ | ⟨_, us, rfl, hus⟩⟩
        · exact List.forall_mem_singleton.mpr (hvalue s v s₁ hv)
        · exact List.forall_mem_cons.mpr ⟨hvalue s v s₁ hv, hitems s₂ us t hus⟩
      · intro s v t h
        rcases scanObject_cases num n s t v h with
          ⟨c, u, rfl, ⟨_, rfl, _⟩ | ⟨_, items, rfl, hitem⟩⟩
        · exact .object [] List.nodup_nil (fun item hitem => absurd hitem List.not_mem_nil)
        -- The dictionary has different keys, whatever came in the text.
        · rcases dictOf_spec items with ⟨hkeys, hmem⟩
          exact .object _ hkeys (fun i hi => hpairs _ items t hitem i (hmem i hi))
      · intro s items t h
        rcases scanPairs_cases num n s t items h with
          ⟨key, _, s₂, v, s₃, b, s₄, _, _, hv, _, ⟨_, rfl, _⟩ | ⟨_, rest, rfl, hrest⟩⟩
        · exact List.forall_mem_singleton.mpr (hvalue s₂ v s₃ hv)
        · exact List.forall_mem_cons.mpr ⟨hvalue s₂ v s₃ hv, hpairs s₄ rest t hrest⟩

theorem dropWhile_length (s : Str) : (s.dropWhile isSpace).length ≤ s.length :=
  (List.dropWhile_suffix isSpace).length_le

theorem scanAtom_length (s t : Str) (v : Json) (h : scanAtom num s = some (v, t)) :
    t.length < s.length := by
  -- A keyword is not empty, and neither is a number.
  have hkey : ∀ l u, l ≠ [] → scanLiteral l s = some u → u.length < s.length := by
    intro l u hl hlit
    rw [scanLiteral_eq l s u hlit, List.length_append]
    have := List.length_pos_iff.mpr hl
    omega
  unfold scanAtom at h
  split at h
  · next hlit =>
      cases h
      exact hkey "null".toList _ (by decide) hlit
  · next hlit _ =>
      cases h
      exact hkey "true".toList _ (by decide) hlit
  · next hlit _ _ =>
      cases h
      exact hkey "false".toList _ (by decide) hlit
  · split at h
    · exact absurd h (by simp only [reduceCtorEq, not_false_eq_true])
    · next literal u hnum =>
        rcases Option.map_eq_some_iff.mp h with ⟨r, _, heq⟩
        cases heq
        unfold scanNumeral at hnum
        split at hnum
        · next r' hscan =>
            rw [Option.some.inj hnum] at hscan
            exact scanNumber_length s literal _ hscan
        · rcases List.exists_of_findSome?_eq_some hnum with ⟨c, hc, hlit⟩
          rcases Option.map_eq_some_iff.mp hlit with ⟨u', hlit', heq'⟩
          cases heq'
          refine hkey _ _ ?_ hlit'
          rintro rfl
          exact absurd hc (by decide)

theorem scanQuoted_length (s t key : Str) (h : scanQuoted s = some (key, t)) :
    t.length < s.length := by
  cases s with
  | nil => exact absurd h (by simp only [scanQuoted, reduceCtorEq, not_false_eq_true])
  | cons c s =>
      rw [scanQuoted] at h
      split at h
      · exact Nat.lt_succ_of_lt (scanString_bound _ s key t h).1
      · exact absurd h (by simp only [reduceCtorEq, not_false_eq_true])

theorem scanColon_length (s t : Str) (h : scanColon s = some t) : t.length < s.length := by
  have hlen := dropWhile_length s
  unfold scanColon at h
  split at h
  · exact absurd h (by simp only [reduceCtorEq, not_false_eq_true])
  · next c u hu =>
      rw [hu, List.length_cons] at hlen
      split at h
      -- The colon is read, whatever space there is around it.
      · have := dropWhile_length u
        rw [← Option.some.inj h]
        omega
      · exact absurd h (by simp only [reduceCtorEq, not_false_eq_true])

theorem scanDelimiter_length (close : Char) (s t : Str) (b : Bool)
    (h : scanDelimiter close s = some (b, t)) : t.length < s.length := by
  have hlen := dropWhile_length s
  unfold scanDelimiter at h
  split at h
  · exact absurd h (by simp only [reduceCtorEq, not_false_eq_true])
  · next c u hu =>
      rw [hu, List.length_cons] at hlen
      split at h
      · cases h
        exact hlen
      · split at h
        · have := dropWhile_length u
          cases h
          omega
        · exact absurd h (by simp only [reduceCtorEq, not_false_eq_true])

/-- A reader has read something, and any bound on its steps that is at least
    twice what it has read, less what it can spare, gives the same. -/
def Bounded {α : Type} (scan : Nat → Str → Option (α × Str)) (spare : Nat) (s : Str) (a : α)
    (t : Str) : Prop :=
  t.length < s.length ∧ ∀ m, 2 * (s.length - t.length) ≤ m + spare → scan m s = some (a, t)

theorem bounded_value (n : Nat)
    (harray : ∀ s v t, scanArray num n s = some (v, t) → Bounded (scanArray num) 0 s v t)
    (hobject : ∀ s v t, scanObject num n s = some (v, t) → Bounded (scanObject num) 0 s v t)
    (s t : Str) (v : Json) (h : scanValue num (n + 1) s = some (v, t)) :
    Bounded (scanValue num) 0 s v t := by
  rcases scanValue_cases num n s t v h with ⟨c, u, rfl, ⟨hquote, l, rfl, hl⟩ |
    ⟨hquote, hbracket, h⟩ | ⟨hquote, hbracket, hbrace, h⟩ | ⟨hquote, hbracket, hbrace, h⟩⟩
  · have hlen := (scanString_bound _ u l t hl).1
    refine ⟨Nat.lt_succ_of_lt hlen, fun m hm => ?_⟩
    rw [List.length_cons] at hm
    rcases Nat.exists_eq_add_of_le' (show 1 ≤ m by omega) with ⟨k, rfl⟩
    rw [scanValue, if_pos hquote, hl]
    rfl
  · have hspace := dropWhile_length u
    rcases harray _ v t h with ⟨hlen, hall⟩
    refine ⟨by rw [List.length_cons]; omega, fun m hm => ?_⟩
    rw [List.length_cons] at hm
    rcases Nat.exists_eq_add_of_le' (show 1 ≤ m by omega) with ⟨k, rfl⟩
    -- The bracket is one character, so it leaves two steps and needs one of them.
    rw [scanValue, if_neg hquote, if_pos hbracket]
    exact hall k (by omega)
  · have hspace := dropWhile_length u
    rcases hobject _ v t h with ⟨hlen, hall⟩
    refine ⟨by rw [List.length_cons]; omega, fun m hm => ?_⟩
    rw [List.length_cons] at hm
    rcases Nat.exists_eq_add_of_le' (show 1 ≤ m by omega) with ⟨k, rfl⟩
    rw [scanValue, if_neg hquote, if_neg hbracket, if_pos hbrace]
    exact hall k (by omega)
  · have hlen := scanAtom_length num _ t v h
    refine ⟨hlen, fun m hm => ?_⟩
    rcases Nat.exists_eq_add_of_le' (show 1 ≤ m by omega) with ⟨k, rfl⟩
    rw [scanValue, if_neg hquote, if_neg hbracket, if_neg hbrace]
    exact h

theorem bounded_array (n : Nat)
    (hitems : ∀ s vs t, scanItems num n s = some (vs, t) → Bounded (scanItems num) 1 s vs t)
    (s t : Str) (v : Json) (h : scanArray num (n + 1) s = some (v, t)) :
    Bounded (scanArray num) 0 s v t := by
  rcases scanArray_cases num n s t v h with
    ⟨c, u, rfl, ⟨hclose, rfl, rfl⟩ | ⟨hclose, vs, rfl, hvs⟩⟩
  · refine ⟨Nat.lt_succ_self _, fun m hm => ?_⟩
    rw [List.length_cons] at hm
    rcases Nat.exists_eq_add_of_le' (show 1 ≤ m by omega) with ⟨k, rfl⟩
    rw [scanArray, if_pos hclose]
  -- The step spared by the items is the one taken here.
  · rcases hitems _ vs t hvs with ⟨hlen, hall⟩
    refine ⟨hlen, fun m hm => ?_⟩
    rcases Nat.exists_eq_add_of_le' (show 1 ≤ m by omega) with ⟨k, rfl⟩
    rw [scanArray, if_neg hclose, hall k (by omega)]
    rfl

theorem bounded_items (n : Nat)
    (hvalue : ∀ s v t, scanValue num n s = some (v, t) → Bounded (scanValue num) 0 s v t)
    (hitems : ∀ s vs t, scanItems num n s = some (vs, t) → Bounded (scanItems num) 1 s vs t)
    (s t : Str) (vs : List Json) (h : scanItems num (n + 1) s = some (vs, t)) :
    Bounded (scanItems num) 1 s vs t := by
  rcases scanItems_cases num n s t vs h with
    ⟨v, s₁, b, s₂, hv, hdelim, ⟨rfl, rfl, rfl⟩ | ⟨rfl, us, rfl, hus⟩⟩
  · have hlen' := scanDelimiter_length _ _ _ _ hdelim
    rcases hvalue s v s₁ hv with ⟨hlen, hall⟩
    refine ⟨by omega, fun m hm => ?_⟩
    rcases Nat.exists_eq_add_of_le' (show 1 ≤ m by omega) with ⟨k, rfl⟩
    rw [scanItems, hall k (by omega)]
    simp only [hdelim]
  · have hlen' := scanDelimiter_length _ _ _ _ hdelim
    rcases hvalue s v s₁ hv with ⟨hlen, hall⟩
    -- The value and the delimiter were read, which leaves steps for the rest.
    rcases hitems s₂ us t hus with ⟨hlen₂, hall₂⟩
    refine ⟨by omega, fun m hm => ?_⟩
    rcases Nat.exists_eq_add_of_le' (show 1 ≤ m by omega) with ⟨k, rfl⟩
    rw [scanItems, hall k (by omega)]
    simp only [hdelim, hall₂ k (by omega), Option.map_some]

theorem bounded_object (n : Nat)
    (hpairs : ∀ s items t, scanPairs num n s = some (items, t) →
      Bounded (scanPairs num) 1 s items t)
    (s t : Str) (v : Json) (h : scanObject num (n + 1) s = some (v, t)) :
    Bounded (scanObject num) 0 s v t := by
  rcases scanObject_cases num n s t v h with
    ⟨c, u, rfl, ⟨hclose, rfl, rfl⟩ | ⟨hclose, items, rfl, hitem⟩⟩
  · refine ⟨Nat.lt_succ_self _, fun m hm => ?_⟩
    rw [List.length_cons] at hm
    rcases Nat.exists_eq_add_of_le' (show 1 ≤ m by omega) with ⟨k, rfl⟩
    rw [scanObject, if_pos hclose]
  · rcases hpairs _ items t hitem with ⟨hlen, hall⟩
    refine ⟨hlen, fun m hm => ?_⟩
    rcases Nat.exists_eq_add_of_le' (show 1 ≤ m by omega) with ⟨k, rfl⟩
    rw [scanObject, if_neg hclose, hall k (by omega)]
    rfl

theorem bounded_pairs (n : Nat)
    (hvalue : ∀ s v t, scanValue num n s = some (v, t) → Bounded (scanValue num) 0 s v t)
    (hpairs : ∀ s items t, scanPairs num n s = some (items, t) →
      Bounded (scanPairs num) 1 s items t)
    (s t : Str) (items : List (Str × Json)) (h : scanPairs num (n + 1) s = some (items, t)) :
    Bounded (scanPairs num) 1 s items t := by
  rcases scanPairs_cases num n s t items h with ⟨key, s₁, s₂, v, s₃, b, s₄, hkey, hcolon, hv,
    hdelim, ⟨rfl, rfl, rfl⟩ | ⟨rfl, rest, rfl, hrest⟩⟩
  · have hlen₁ := scanQuoted_length _ _ _ hkey
    have hlen₂ := scanColon_length _ _ hcolon
    have hlen₄ := scanDelimiter_length _ _ _ _ hdelim
    rcases hvalue s₂ v s₃ hv with ⟨hlen₃, hall⟩
    refine ⟨by omega, fun m hm => ?_⟩
    rcases Nat.exists_eq_add_of_le' (show 1 ≤ m by omega) with ⟨k, rfl⟩
    rw [scanPairs, hkey]
    simp only [hcolon, hall k (by omega), hdelim]
  · have hlen₁ := scanQuoted_length _ _ _ hkey
    have hlen₂ := scanColon_length _ _ hcolon
    have hlen₄ := scanDelimiter_length _ _ _ _ hdelim
    rcases hvalue s₂ v s₃ hv with ⟨hlen₃, hall⟩
    -- So it is for a key, a colon, a value and a delimiter.
    rcases hpairs s₄ rest t hrest with ⟨hlen₅, hall₅⟩
    refine ⟨by omega, fun m hm => ?_⟩
    rcases Nat.exists_eq_add_of_le' (show 1 ≤ m by omega) with ⟨k, rfl⟩
    rw [scanPairs, hkey]
    simp only [hcolon, hall k (by omega), hdelim, hall₅ k (by omega), Option.map_some]

/-- The bound on the steps is no limit. Reading the items of an array or an
    object can spare a step, because the value in front of them has been read
    when they are counted; all others need two steps for a character. -/
theorem scan_bounded (n : Nat) :
    (∀ s v t, scanValue num n s = some (v, t) → Bounded (scanValue num) 0 s v t) ∧
    (∀ s v t, scanArray num n s = some (v, t) → Bounded (scanArray num) 0 s v t) ∧
    (∀ s vs t, scanItems num n s = some (vs, t) → Bounded (scanItems num) 1 s vs t) ∧
    (∀ s v t, scanObject num n s = some (v, t) → Bounded (scanObject num) 0 s v t) ∧
    ∀ s items t, scanPairs num n s = some (items, t) → Bounded (scanPairs num) 1 s items t := by
  induction n with
  | zero =>
      refine ⟨?_, ?_, ?_, ?_, ?_⟩
      all_goals exact fun s v t h => absurd h (by simp only [scanValue, scanArray, scanItems,
        scanObject, scanPairs, reduceCtorEq, not_false_eq_true])
  | succ n ih =>
      rcases ih with ⟨hvalue, harray, hitems, hobject, hpairs⟩
      exact ⟨fun s v t => bounded_value num n harray hobject s t v,
        fun s v t => bounded_array num n hitems s t v,
        fun s vs t => bounded_items num n hvalue hitems s t vs,
        fun s v t => bounded_object num n hpairs s t v,
        fun s items t => bounded_pairs num n hvalue hpairs s t items⟩

/-- `json.loads` finds what any number of steps would find. -/
theorem loads_iff (s : Str) (v : Json) : loads num s = some v ↔
    ∃ n t, scanValue num n (s.dropWhile isSpace) = some (v, t) ∧ t.dropWhile isSpace = [] := by
  constructor
  · intro h
    unfold loads at h
    split at h
    · exact absurd h (by simp only [reduceCtorEq, not_false_eq_true])
    · next v' t hscan =>
        split at h
        · next hend =>
            rw [Option.some.inj h] at hscan
            exact ⟨_, t, hscan, hend⟩
        · exact absurd h (by simp only [reduceCtorEq, not_false_eq_true])
  · rintro ⟨n, t, hscan, hend⟩
    have hspace := dropWhile_length s
    -- `loads` allows two steps for each character, which is enough.
    have hfull := ((scan_bounded num n).1 _ v t hscan).2 (2 * s.length) (by omega)
    rw [loads, hfull]
    exact if_pos hend

/-- What `json.loads` returns. -/
theorem loads_decoded (s : Str) (v : Json) (h : loads num s = some v) : Decoded num v := by
  rcases (loads_iff num s v).mp h with ⟨n, t, hscan, _⟩
  exact (scan_decoded num n).1 _ v t hscan

/-- Such a value is read back. -/
theorem loads_of_decoded (v : Json) (h : Decoded num v) : loads num (dumps v) = some v := by
  have hscan := scanValue_dumps num v h (2 * (dumps v).length) [] (Nat.le_refl _) stops_nil
  rw [List.append_nil] at hscan
  have hspace := dropWhile_dumps num v h []
  rw [List.append_nil] at hspace
  rw [loads, hspace, hscan]
  rfl

theorem numeral_printable (l : Str) (h : IsNumeral l) : l.all isPrintable = true := by
  rcases numeral_cases l h with hnum | hconst
  · rw [List.all_eq_true]
    intro c hc
    exact numberChar_printable c (List.all_eq_true.mp (scanNumber_all l l [] hnum) c hc)
  · simp only [numberConstants, List.mem_cons, List.not_mem_nil, or_false] at hconst
    rcases hconst with rfl | rfl | rfl
    · decide
    · decide
    · decide

/-- The text of a value is printable ASCII, so UTF-8 keeps it as it is. -/
theorem dumps_printable (v : Json) (h : Decoded num v) : (dumps v).all isPrintable = true := by
  induction h with
  | null => decide
  | bool b =>
      cases b with
      | false => decide
      | true => decide
  | number literal hrepr => exact numeral_printable literal (num.isNumeral _ _ hrepr)
  | string s => exact quote_printable s
  | array items _ ih =>
      -- Between the items there is a comma and a space.
      have hitems : ∀ vs : List Json, (∀ v ∈ vs, (dumps v).all isPrintable = true) →
          (dumpsItems vs).all isPrintable = true := by
        intro vs
        induction vs with
        | nil => exact fun _ => rfl
        | cons v vs ihvs =>
            intro h
            rw [dumpsItems, List.cons_append, List.cons_append, List.all_cons, List.all_cons,
              List.all_append, h v List.mem_cons_self,
              ihvs (fun u hu => h u (List.mem_cons_of_mem v hu))]
            rfl
      cases items with
      | nil => rfl
      | cons v vs =>
          rw [dumps, List.cons_append, List.all_cons, List.all_append, ih v List.mem_cons_self,
            hitems vs (fun u hu => ih u (List.mem_cons_of_mem v hu))]
          rfl
  | object items _ _ ih =>
      have hpair : ∀ item : Str × Json, (dumps item.2).all isPrintable = true →
          (dumpsPair item).all isPrintable = true := by
        rintro ⟨key, v⟩ hv
        rw [dumpsPair, List.all_append, quote_printable, List.all_cons, List.all_cons, hv]
        rfl
      have hpairs : ∀ items : List (Str × Json),
          (∀ item ∈ items, (dumps item.2).all isPrintable = true) →
          (dumpsPairs items).all isPrintable = true := by
        intro items
        induction items with
        | nil => exact fun _ => rfl
        | cons item items ihitems =>
            intro h
            rw [dumpsPairs, List.cons_append, List.cons_append, List.all_cons, List.all_cons,
              List.all_append, hpair item (h item List.mem_cons_self),
              ihitems (fun x hx => h x (List.mem_cons_of_mem item hx))]
            rfl
      cases items with
      | nil => rfl
      | cons item items =>
          rw [dumps, List.cons_append, List.all_cons, List.all_append,
            hpair item (ih item List.mem_cons_self),
            hpairs items (fun x hx => ih x (List.mem_cons_of_mem item hx))]
          rfl

/-- Every value whose numbers are printed as they are and whose dictionaries
    have different keys is read back by `json.loads` from what `json.dumps`
    writes of it, with nothing left over, and that is printable ASCII. -/
theorem loads_dumps (v : Json) (h : Decoded num v) :
    loads num (dumps v) = some v ∧ (dumps v).all isPrintable = true :=
  ⟨loads_of_decoded num v h, dumps_printable num v h⟩

end Loads

section Text

/-- The numerals of a program that keeps every number as it was written. -/
def exactNumerals : Numerals where
  repr l := if scanNumeral l = some (l, []) then some l else none
  isNumeral l l' h := by
    rcases Option.ite_none_right_eq_some.mp h with ⟨hl, heq⟩
    rw [← Option.some.inj heq]
    exact hl
  stable l l' h := by
    rcases Option.ite_none_right_eq_some.mp h with ⟨hl, heq⟩
    rw [← Option.some.inj heq]
    exact if_pos hl

/-- A value with nesting, a number, and characters of one and of two units. -/
def nestedBody : Json :=
  .object [("k".toList, .array [.number "2.5".toList,
    .string [Char.ofNat 0xE9, '"', Char.ofNat 0x1F600], .null])]

theorem decoded_nestedBody : Decoded exactNumerals nestedBody := by
  refine .object _ (by decide) (fun item hitem => ?_)
  rw [List.mem_singleton.mp hitem]
  refine .array _ (fun v hv => ?_)
  simp only [List.mem_cons, List.not_mem_nil, or_false] at hv
  rcases hv with rfl | rfl | rfl
  · exact .number _ (by decide +kernel)
  · exact .string _
  · exact .null

/-- The text of that value, which is read back. -/
theorem loads_dumps_text :
    dumps nestedBody = "\x7b\"k\": [2.5, \"\\u00e9\\\"\\ud83d\\ude00\", null]\x7d".toList ∧
      loads exactNumerals (dumps nestedBody) = some nestedBody :=
  ⟨by decide +kernel, (loads_dumps exactNumerals nestedBody decoded_nestedBody).1⟩

end Text

end KingPi
