import Mathlib.Data.List.Basic
import Marketplace.Core
import Marketplace.Lib.Json

/-!
# Texts on the wire

JSON has no type for a UUID or an instant: both travel as texts. This file has `str(uuid)`
and `uuid.UUID(text)`, the texts of times as the two sides write and read them, and the
checks of a request body that `pydantic` makes before a handler runs.
-/

namespace Marketplace

open Lib

/-! ### UUIDs -/

/-- `str(uuid)`: 32 hexadecimal digits in groups of 8, 4, 4, 4 and 12. -/
def uuidStr (id : Id) : String :=
  let digits := (Nat.toDigits 16 id).leftpad 32 '0'
  String.ofList (digits.take 8 ++ '-' :: (digits.drop 8).take 4 ++ '-' :: (digits.drop 12).take 4
    ++ '-' :: (digits.drop 16).take 4 ++ '-' :: digits.drop 20)

/-- The value of a hexadecimal digit of ASCII. -/
def hexDigit (c : Char) : Option ℕ :=
  let n := c.toNat
  if 48 ≤ n ∧ n ≤ 57 then some (n - 48)
  else if 97 ≤ n ∧ n ≤ 102 then some (n - 87)
  else if 65 ≤ n ∧ n ≤ 70 then some (n - 55)
  else none

/-- The number that hexadecimal digits write. -/
def hexValue (cs : List Char) : Option ℕ :=
  (cs.mapM hexDigit).map fun ds => ds.foldl (fun value d => 16 * value + d) 0

/-- `text.replace(pattern, "")`, where `skip` characters of an occurrence are still to come. -/
def removeAll (pattern : List Char) : ℕ → List Char → List Char
  | _, [] => []
  | skip + 1, _ :: cs => removeAll pattern skip cs
  | 0, c :: cs =>
    if pattern.isPrefixOf (c :: cs) then removeAll pattern (pattern.length - 1) cs
    else c :: removeAll pattern 0 cs

/-- `text.strip`, of the characters with the property. -/
def stripBoth (p : Char → Bool) (cs : List Char) : List Char :=
  ((cs.dropWhile p).reverse.dropWhile p).reverse

/-- The zeros of the decimal digits in the scripts beyond ASCII; nine more digits follow each. -/
def decimalZeros : List ℕ :=
  [0x660, 0x6f0, 0x7c0, 0x966, 0x9e6, 0xa66, 0xae6, 0xb66, 0xbe6, 0xc66, 0xce6, 0xd66, 0xde6, 0xe50,
   0xed0, 0xf20, 0x1040, 0x1090, 0x17e0, 0x1810, 0x1946, 0x19d0, 0x1a80, 0x1a90, 0x1b50, 0x1bb0,
   0x1c40, 0x1c50, 0xa620, 0xa8d0, 0xa900, 0xa9d0, 0xa9f0, 0xaa50, 0xabf0, 0xff10, 0x104a0, 0x10d30,
   0x11066, 0x110f0, 0x11136, 0x111d0, 0x112f0, 0x11450, 0x114d0, 0x11650, 0x116c0, 0x11730,
   0x118e0, 0x11950, 0x11c50, 0x11d50, 0x11da0, 0x11f50, 0x16a60, 0x16ac0, 0x16b50, 0x1d7ce,
   0x1d7d8, 0x1d7e2, 0x1d7ec, 0x1d7f6, 0x1e140, 0x1e2f0, 0x1e4f0, 0x1e950, 0x1fbf0]

/-- What `int` takes for white space. -/
def isIntSpace (c : Char) : Bool :=
  let n := c.toNat
  (9 ≤ n ∧ n ≤ 13) ∨ (0x2000 ≤ n ∧ n ≤ 0x200a) ∨
    n ∈ [0x20, 0x85, 0xa0, 0x1680, 0x2028, 0x2029, 0x202f, 0x205f, 0x3000]

/-- A decimal digit of any script, in ASCII. -/
def asciiDigit (c : Char) : Char :=
  match decimalZeros.find? fun first => first ≤ c.toNat ∧ c.toNat < first + 10 with
  | some first => Char.ofNat (48 + (c.toNat - first))
  | none => c

/-- A text without the `0x` in front, and without one underscore after it. -/
def dropHexPrefix : List Char → List Char
  | '0' :: x :: cs =>
    if x = 'x' ∨ x = 'X' then if cs.head? = some '_' then cs.tail else cs
    else '0' :: x :: cs
  | cs => cs

/-- A text without the single underscores between its characters; none for any other one. -/
def dropUnderscores : List Char → Option (List Char)
  | [] => none
  | [c] => if c = '_' then none else some [c]
  | c :: d :: cs =>
    if c = '_' then none
    else if d = '_' then (dropUnderscores cs).map (c :: ·)
    else (dropUnderscores (d :: cs)).map (c :: ·)

/-- `int(text, 16)`, of a text without a minus sign. -/
def intBase16 (text : List Char) : Option ℕ :=
  let cs := (stripBoth isIntSpace text).map asciiDigit
  let unsigned := if cs.head? = some '+' then cs.tail else cs
  (dropUnderscores (dropHexPrefix unsigned)).bind hexValue

/-- `uuid.UUID(text)`: what is left without the prefixes, the braces around it and the hyphens has
32 characters and is a number in base 16. -/
def parseUuid (text : String) : Option Id :=
  let unprefixed := removeAll "uuid:".toList 0 (removeAll "urn:".toList 0 text.toList)
  let hex := (stripBoth (fun c => c = '\x7b' ∨ c = '\x7d') unprefixed).filter (· ≠ '-')
  if hex.length = 32 then intBase16 hex else none

/-- The digits of a text with hyphens where `str(uuid)` has them. -/
def hyphenated (cs : List Char) : Option (List Char) :=
  if cs.length = 36 ∧ ∀ i ∈ [8, 13, 18, 23], cs[i]? = some '-' then
    some (cs.take 8 ++ (cs.drop 9).take 4 ++ (cs.drop 14).take 4 ++ (cs.drop 19).take 4
      ++ cs.drop 24)
  else none

/-- A UUID as `pydantic` reads it: the digits alone, or with hyphens, and then also in braces or
after `urn:uuid:`. -/
def readUuid (text : String) : Option Id :=
  let cs := text.toList
  if cs.length = 32 then hexValue cs
  else if cs.length = 38 ∧ cs.head? = some '\x7b' ∧ cs.getLast? = some '\x7d' then
    (hyphenated (cs.drop 1).dropLast).bind hexValue
  else if "urn:uuid:".toList.isPrefixOf cs then (hyphenated (cs.drop 9)).bind hexValue
  else (hyphenated cs).bind hexValue

/-! ### Times -/

/-- How the server writes a time, and `DateTime.tryParse` of the client. The empty text is
no time. -/
structure TimeTexts where
  write : Time → String
  tryParse : String → Option Time
  tryParse_empty : tryParse "" = none

namespace TimeTexts

variable (texts : TimeTexts)

/-- The JSON text of a time. -/
def json (t : Time) : Json := .str (texts.write t)

/-- `DateTime.parse(value as String)`. -/
def parse (value : Json) : Except Json.ReadError Time := do
  let text ← value.asString
  (texts.tryParse text).elim (.error .formatException) .ok

/-- `value != null ? DateTime.tryParse(value as String) : null`. -/
def tryParseOrNull (value : Json) : Except Json.ReadError (Option Time) := do
  let text ← Json.orNull Json.asString value
  pure (text.bind texts.tryParse)

end TimeTexts

namespace Sample

/-- Times written as counts of microseconds. -/
def timeTexts : TimeTexts :=
  { write := fun t => toString t
    tryParse := fun text => if text = "" then none else text.toInt?
    tryParse_empty := rfl }

end Sample

/-- The JSON text of an identifier. -/
def uuidJson (id : Id) : Json := .str (uuidStr id)

/-! ### Request bodies -/

/-- An entry of a 422 answer: the field and the type of the error. -/
structure FieldError where
  loc : String
  type : String
deriving DecidableEq, Repr

/-- `str = Field(..., min_length=1, max_length=maxLength)`. -/
def textField (body : Json.Entries) (field : String) (maxLength : ℕ) :
    Except FieldError String :=
  match body.lookup field with
  | none => .error { loc := field, type := "missing" }
  | some (.str s) =>
    if s.length < 1 then .error { loc := field, type := "string_too_short" }
    else if maxLength < s.length then .error { loc := field, type := "string_too_long" }
    else .ok s
  | some _ => .error { loc := field, type := "string_type" }

/-- `uuid.UUID | None = None`. -/
def uuidField (body : Json.Entries) (field : String) : Except FieldError (Option Id) :=
  match body.lookup field with
  | none | some .null => .ok none
  | some (.str s) =>
    match readUuid s with
    | none => .error { loc := field, type := "uuid_parsing" }
    | some id => .ok (some id)
  | some _ => .error { loc := field, type := "uuid_type" }

/-- `extra="forbid"`: an error for each key that is no field. -/
def extraFields (body : Json.Entries) (fields : List String) : List FieldError :=
  (body.filter fun entry => entry.1 ∉ fields).map fun entry =>
    { loc := entry.1, type := "extra_forbidden" }

/-- The error of a check, if it has failed. -/
def errorOf {α : Type} : Except FieldError α → List FieldError
  | .error e => [e]
  | .ok _ => []

end Marketplace
