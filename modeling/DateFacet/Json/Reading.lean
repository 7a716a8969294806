/-
# Reading a JSON text

A reading takes a text as far as it is JSON and gives a tree in any case.  Where the text stops
being JSON, the tree holds the mark `cut` in place of what should follow, and nothing after it.
Whoever walks over the tree from left to right therefore meets a value with a wrong content
before a fault of the text that comes after it, and the fault of the text first if it comes
before.

Two faults are kept in the tree instead of ending it, for they do not matter in a field that is
passed over: a string with half of a surrogate pair, which is no text, and a number too large to
hold.
-/

import DateFacet.Json.Numeral

namespace DateFacet
namespace Json

/-- A JSON text as far as it could be read.  A string or a field's name is `none` when it names
half of a surrogate pair. -/
inductive Reading
  | null
  | bool (value : Bool)
  | number (value : Numeral)
  | string (value : Option String)
  | array (items : List Reading)
  | object (fields : List (Option String × Reading))
  /-- The text is not JSON from here on. -/
  | cut

/-- The four blanks of JSON. -/
def isSpace (c : Char) : Bool :=
  c = ' ' || c = '\t' || c = '\n' || c = '\r'

/-- The characters after the blanks in front. -/
def skipSpace (cs : List Char) : List Char :=
  cs.dropWhile isSpace

/-! ## Strings -/

/-- A part of a string: a character, or a number of four hexadecimal digits. -/
inductive Piece
  | char (c : Char)
  | unit (code : Nat)
  deriving DecidableEq

/-- The value of a hexadecimal digit in either case. -/
def hexDigit? (c : Char) : Option Nat :=
  if '0' ≤ c ∧ c ≤ '9' then some (c.toNat - '0'.toNat)
  else if 'a' ≤ c ∧ c ≤ 'f' then some (c.toNat - 'a'.toNat + 10)
  else if 'A' ≤ c ∧ c ≤ 'F' then some (c.toNat - 'A'.toNat + 10)
  else none

/-- The number of four hexadecimal digits. -/
def hexUnit? (a b c d : Char) : Option Nat := do
  return (((← hexDigit? a) * 16 + (← hexDigit? b)) * 16 + (← hexDigit? c)) * 16 + (← hexDigit? d)

/-- The character that a letter after a backslash stands for. -/
def escaped? : Char → Option Char
  | '"' => some '"'
  | '\\' => some '\\'
  | '/' => some '/'
  | 'b' => some '\x08'
  | 'f' => some '\x0c'
  | 'n' => some '\n'
  | 'r' => some '\r'
  | 't' => some '\t'
  | _ => none

/-- The parts of a string up to its closing mark, and the rest. -/
def scanPieces : List Char → Option (List Piece × List Char)
  | [] => none
  | '"' :: rest => some ([], rest)
  | '\\' :: 'u' :: a :: b :: c :: d :: rest => do
    let code ← hexUnit? a b c d
    let (pieces, rest) ← scanPieces rest
    some (.unit code :: pieces, rest)
  | '\\' :: letter :: rest => do
    let c ← escaped? letter
    let (pieces, rest) ← scanPieces rest
    some (.char c :: pieces, rest)
  | c :: rest => do
    if c = '\\' ∨ c.toNat < 0x20 then none else
      let (pieces, rest) ← scanPieces rest
      some (.char c :: pieces, rest)

/-- The first half of a surrogate pair. -/
def isHighHalf (code : Nat) : Bool := 0xD800 ≤ code && code < 0xDC00

/-- The second half of a surrogate pair. -/
def isLowHalf (code : Nat) : Bool := 0xDC00 ≤ code && code < 0xE000

/-- The code point of a surrogate pair. -/
def pairCode (high low : Nat) : Nat :=
  0x10000 + (high - 0xD800) * 0x400 + (low - 0xDC00)

/-- The characters of the parts, unless half of a surrogate pair stands alone. -/
def joinPieces : List Piece → Option (List Char)
  | [] => some []
  | .char c :: pieces => (joinPieces pieces).map (c :: ·)
  | .unit high :: .unit low :: pieces =>
    if isHighHalf high && isLowHalf low then
      (joinPieces pieces).map (Char.ofNat (pairCode high low) :: ·)
    else if isHighHalf high || isLowHalf high then none
    else (joinPieces (.unit low :: pieces)).map (Char.ofNat high :: ·)
  | .unit code :: pieces =>
    if isHighHalf code || isLowHalf code then none
    else (joinPieces pieces).map (Char.ofNat code :: ·)

/-- A string after its opening mark, and the rest. -/
def scanString (cs : List Char) : Option (Option String × List Char) := do
  let (pieces, rest) ← scanPieces cs
  some ((joinPieces pieces).map String.ofList, rest)

/-! ## Values -/

/-- A word or a number. -/
def readPlain (cs : List Char) : Reading × Option (List Char) :=
  match cs with
  | 'n' :: 'u' :: 'l' :: 'l' :: rest => (.null, some rest)
  | 't' :: 'r' :: 'u' :: 'e' :: rest => (.bool true, some rest)
  | 'f' :: 'a' :: 'l' :: 's' :: 'e' :: rest => (.bool false, some rest)
  | cs =>
    match Numeral.scan cs with
    | some (n, rest) => (.number n, some rest)
    | none => (.cut, none)

mutual

/-- A value after blanks, and the rest unless the value is cut.  Every two steps take a
character, so twice the length of the text is fuel enough. -/
def readValue : Nat → List Char → Reading × Option (List Char)
  | 0, _ => (.cut, none)
  | fuel + 1, cs =>
    match skipSpace cs with
    | '"' :: rest =>
      match scanString rest with
      | some (value, rest) => (.string value, some rest)
      | none => (.cut, none)
    | '[' :: rest =>
      match skipSpace rest with
      | ']' :: rest => (.array [], some rest)
      | rest =>
        let (items, rest) := readItems fuel rest
        (.array items, rest)
    | '\x7b' :: rest =>
      match skipSpace rest with
      | '\x7d' :: rest => (.object [], some rest)
      | rest =>
        let (fields, rest) := readFields fuel rest
        (.object fields, rest)
    | cs => readPlain cs

/-- The items of an array up to its closing bracket. -/
def readItems : Nat → List Char → List Reading × Option (List Char)
  | 0, _ => ([.cut], none)
  | fuel + 1, cs =>
    match readValue fuel cs with
    | (item, none) => ([item], none)
    | (item, some rest) =>
      match skipSpace rest with
      | ',' :: rest =>
        let (items, rest) := readItems fuel rest
        (item :: items, rest)
      | ']' :: rest => ([item], some rest)
      | _ => ([item, .cut], none)

/-- The fields of an object up to its closing brace. -/
def readFields : Nat → List Char → List (Option String × Reading) × Option (List Char)
  | 0, _ => ([(none, .cut)], none)
  | fuel + 1, cs =>
    match skipSpace cs with
    | '"' :: rest =>
      match scanString rest with
      | none => ([(none, .cut)], none)
      | some (name, rest) =>
        match skipSpace rest with
        | ':' :: rest =>
          match readValue fuel rest with
          | (value, none) => ([(name, value)], none)
          | (value, some rest) =>
            match skipSpace rest with
            | ',' :: rest =>
              let (fields, rest) := readFields fuel rest
              ((name, value) :: fields, rest)
            | '\x7d' :: rest => ([(name, value)], some rest)
            | _ => ([(name, value), (none, .cut)], none)
        | _ => ([(name, .cut)], none)
    | _ => ([(none, .cut)], none)

end

/-- A reading of a whole text. -/
structure Document where
  root : Reading
  /-- Nothing but blanks follows the value. -/
  isClosed : Bool

/-- The reading of a text. -/
def Document.ofText (text : String) : Document :=
  let cs := text.toList
  match readValue (2 * cs.length + 2) cs with
  | (root, none) => ⟨root, false⟩
  | (root, some rest) => ⟨root, (skipSpace rest).isEmpty⟩

namespace Reading

mutual

/-- The value was read to its end. -/
def isWhole : Reading → Bool
  | .array items => itemsWhole items
  | .object fields => fieldsWhole fields
  | .cut => false
  | _ => true

/-- All items were read to their end. -/
def itemsWhole : List Reading → Bool
  | [] => true
  | item :: items => item.isWhole && itemsWhole items

/-- All fields were read to their end. -/
def fieldsWhole : List (Option String × Reading) → Bool
  | [] => true
  | (_, value) :: fields => value.isWhole && fieldsWhole fields

end

mutual

/-- The value can be kept for later: it was read to its end, its strings are texts, its numbers
are not too large, and at most `levels` arrays and objects stand one within the other. -/
def canBeHeld (levels : Nat) : Reading → Bool
  | .null => true
  | .bool _ => true
  | .number n => n.isFinite
  | .string value => value.isSome
  | .array items => 0 < levels && itemsCanBeHeld (levels - 1) items
  | .object fields => 0 < levels && fieldsCanBeHeld (levels - 1) fields
  | .cut => false

/-- All items can be kept for later. -/
def itemsCanBeHeld (levels : Nat) : List Reading → Bool
  | [] => true
  | item :: items => item.canBeHeld levels && itemsCanBeHeld levels items

/-- All fields can be kept for later. -/
def fieldsCanBeHeld (levels : Nat) : List (Option String × Reading) → Bool
  | [] => true
  | (name, value) :: fields =>
    name.isSome && value.canBeHeld levels && fieldsCanBeHeld levels fields

end

end Reading
end Json
end DateFacet
