import KingPi.Core.Services
import KingPi.Format.Lexeme

/-!
# JSON Text

What `json.dumps` writes and `json.loads` reads, with the settings the server
leaves them at: ASCII only, a comma or a colon and a space between items, and
control characters not allowed inside a string.

A number of the text becomes a number of Python, and what is written later is
that number's `repr`. Which text that is depends on how floats are printed, so
it is a parameter, `Numerals`. All that is asked of it is that a `repr` is a
numeral itself and is read as the same number again. A numeral can also be
refused, as Python refuses integers of very many digits.

An object of the text becomes a dictionary. A key that comes twice keeps its
first place and its last value.

Strings hold Unicode scalar values, so a text with an escape of an unpaired
surrogate, and a value with one in a string, are left out.

## Main definitions

* `scanNumeral`: A number, or one of the three constants Python knows.
* `Numerals`: How numbers are printed.
* `dumps`: `json.dumps`.
* `loads`: `json.loads`.
* `Decoded`: The values `json.loads` returns.
-/

namespace KingPi

open Lexeme

/-- `NaN`, `Infinity` and `-Infinity`. -/
def numberConstants : List Str := ["NaN".toList, "Infinity".toList, "-Infinity".toList]

/-- A given text in front of a text. -/
def scanLiteral (literal s : Str) : Option Str :=
  if literal.isPrefixOf s then some (s.drop literal.length) else none

/-- A number in front of a text, or a constant. -/
def scanNumeral (s : Str) : Option (Str × Str) :=
  match scanNumber s with
  | some r => some r
  | none => numberConstants.findSome? (fun l => (scanLiteral l s).map (fun t => (l, t)))

/-- A text that is a numeral and nothing more. -/
def IsNumeral (s : Str) : Prop := scanNumeral s = some (s, [])

/-- How numbers are printed: the `repr` of the number a numeral is read as, if
    it can be read. -/
structure Numerals where
  repr : Str → Option Str
  isNumeral : ∀ l l', repr l = some l' → IsNumeral l'
  stable : ∀ l l', repr l = some l' → repr l' = some l'

mutual

/-- `json.dumps` -/
def dumps : Json → Str
  | .null => "null".toList
  | .bool true => "true".toList
  | .bool false => "false".toList
  | .number literal => literal
  | .string s => quote s
  | .array [] => ['[', ']']
  | .array (v :: vs) => '[' :: dumps v ++ dumpsItems vs
  | .object [] => ['\x7b', '\x7d']
  | .object (item :: items) => '\x7b' :: dumpsPair item ++ dumpsPairs items

/-- The items of an array after the first. -/
def dumpsItems : List Json → Str
  | [] => [']']
  | v :: vs => ',' :: ' ' :: dumps v ++ dumpsItems vs

/-- A key and its value. -/
def dumpsPair : Str × Json → Str
  | (key, v) => quote key ++ ':' :: ' ' :: dumps v

/-- The items of an object after the first. -/
def dumpsPairs : List (Str × Json) → Str
  | [] => ['\x7d']
  | item :: items => ',' :: ' ' :: dumpsPair item ++ dumpsPairs items

end

/-- Whitespace between the lexemes. -/
def isSpace (c : Char) : Bool := [' ', '\t', '\n', '\r'].contains c

/-- A string in front of a text, with its quotes. -/
def scanQuoted : Str → Option (Str × Str)
  | [] => none
  | c :: s => if c = '"' then scanString s.length s else none

/-- A value that has no parts. -/
def scanAtom (num : Numerals) (s : Str) : Option (Json × Str) :=
  match scanLiteral "null".toList s, scanLiteral "true".toList s, scanLiteral "false".toList s with
  | some s, _, _ => some (.null, s)
  | _, some s, _ => some (.bool true, s)
  | _, _, some s => some (.bool false, s)
  | none, none, none => match scanNumeral s with
    | none => none
    | some (literal, s) => (num.repr literal).map (fun r => (.number r, s))

/-- What separates an item from the next or ends the sequence: the text after
    it, and whether it ended. -/
def scanDelimiter (close : Char) (s : Str) : Option (Bool × Str) :=
  match s.dropWhile isSpace with
  | [] => none
  | c :: s => if c = close then some (true, s)
    else if c = ',' then some (false, s.dropWhile isSpace)
    else none

/-- The colon between a key and its value, and the space around it. -/
def scanColon (s : Str) : Option Str :=
  match s.dropWhile isSpace with
  | [] => none
  | c :: s => if c = ':' then some (s.dropWhile isSpace) else none

mutual

/-- `scan_once`: a value in front of a text. The first argument bounds the
    number of steps. -/
def scanValue (num : Numerals) : Nat → Str → Option (Json × Str)
  | 0, _ => none
  | _ + 1, [] => none
  | n + 1, c :: s =>
    if c = '"' then (scanString s.length s).map (fun r => (.string r.1, r.2))
    else if c = '[' then scanArray num n (s.dropWhile isSpace)
    else if c = '\x7b' then scanObject num n (s.dropWhile isSpace)
    else scanAtom num (c :: s)

/-- `JSONArray`, after the bracket and the space behind it. -/
def scanArray (num : Numerals) : Nat → Str → Option (Json × Str)
  | 0, _ => none
  | _ + 1, [] => none
  | n + 1, c :: s =>
    if c = ']' then some (.array [], s)
    else (scanItems num n (c :: s)).map (fun r => (.array r.1, r.2))

/-- The items of an array. -/
def scanItems (num : Numerals) : Nat → Str → Option (List Json × Str)
  | 0, _ => none
  | n + 1, s => match scanValue num n s with
    | none => none
    | some (v, s) => match scanDelimiter ']' s with
      | none => none
      | some (true, s) => some ([v], s)
      | some (false, s) => (scanItems num n s).map (fun r => (v :: r.1, r.2))

/-- `JSONObject`, after the brace and the space behind it. -/
def scanObject (num : Numerals) : Nat → Str → Option (Json × Str)
  | 0, _ => none
  | _ + 1, [] => none
  | n + 1, c :: s =>
    if c = '\x7d' then some (.object [], s)
    else (scanPairs num n (c :: s)).map (fun r => (.object (dictOf r.1), r.2))

/-- The items of an object, before they become a dictionary. -/
def scanPairs (num : Numerals) : Nat → Str → Option (List (Str × Json) × Str)
  | 0, _ => none
  | n + 1, s => match scanQuoted s with
    | none => none
    | some (key, s) => match scanColon s with
      | none => none
      | some s => match scanValue num n s with
        | none => none
        | some (v, s) => match scanDelimiter '\x7d' s with
          | none => none
          | some (true, s) => some ([(key, v)], s)
          | some (false, s) => (scanPairs num n s).map (fun r => ((key, v) :: r.1, r.2))

end

/-- `json.loads`: a value, with nothing but whitespace around it. Of a text with
    an unpaired surrogate nothing is said: it is not read. -/
def loads (num : Numerals) (s : Str) : Option Json :=
  match scanValue num (2 * s.length) (s.dropWhile isSpace) with
  | none => none
  | some (v, s) => if s.dropWhile isSpace = [] then some v else none

/-- The values `json.loads` returns: numbers are printed as they are, and the
    keys of a dictionary are different. Strings are those without an unpaired
    surrogate, because they are made of characters. -/
inductive Decoded (num : Numerals) : Json → Prop where
  | null : Decoded num .null
  | bool (b : Bool) : Decoded num (.bool b)
  | number (literal : Str) : num.repr literal = some literal → Decoded num (.number literal)
  | string (s : Str) : Decoded num (.string s)
  | array (items : List Json) : (∀ v ∈ items, Decoded num v) → Decoded num (.array items)
  | object (items : List (Str × Json)) : (items.map Prod.fst).Nodup →
      (∀ item ∈ items, Decoded num item.2) → Decoded num (.object items)

end KingPi
