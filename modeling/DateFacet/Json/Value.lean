/-
# JSON values and how they are written

The values that this library stores are null, strings, arrays and objects; there are no numbers
and no truth values among them.  An object keeps its fields in order.

A value is written compactly, without a blank, or laid out over lines with two blanks for each
level.  In a string, the quotation mark and the backslash are escaped, the five controls that
have a letter by their letter, and every other control below U+0020 by its code point in lower
case; all else stands for itself.
-/

namespace DateFacet

/-- A JSON value to be written. -/
inductive Json
  | null
  | string (value : String)
  | array (items : List Json)
  | object (fields : List (String × Json))

namespace Json

/-- The characters of a four-digit escape of a code point below U+0100. -/
def codeEscape (code : Nat) : List Char :=
  ['\\', 'u', '0', '0', Nat.digitChar (code / 16), Nat.digitChar (code % 16)]

/-- A character as it stands between quotation marks. -/
def escapeChar (c : Char) : List Char :=
  if c = '"' then ['\\', '"']
  else if c = '\\' then ['\\', '\\']
  else if c = '\x08' then ['\\', 'b']
  else if c = '\x0c' then ['\\', 'f']
  else if c = '\n' then ['\\', 'n']
  else if c = '\r' then ['\\', 'r']
  else if c = '\t' then ['\\', 't']
  else if c.toNat < 0x20 then codeEscape c.toNat
  else [c]

/-- A string in quotation marks. -/
def quoted (s : String) : List Char :=
  '"' :: s.toList.flatMap escapeChar ++ ['"']

mutual

/-- The compact characters of a value. -/
def chars : Json → List Char
  | .null => ['n', 'u', 'l', 'l']
  | .string value => quoted value
  | .array items => '[' :: itemChars items ++ [']']
  | .object fields => '\x7b' :: fieldChars fields ++ ['\x7d']

/-- The compact items of an array, with commas between them. -/
def itemChars : List Json → List Char
  | [] => []
  | [item] => item.chars
  | item :: items => item.chars ++ ',' :: itemChars items

/-- The compact fields of an object, with commas between them. -/
def fieldChars : List (String × Json) → List Char
  | [] => []
  | [(name, value)] => quoted name ++ ':' :: value.chars
  | (name, value) :: fields => quoted name ++ ':' :: value.chars ++ ',' :: fieldChars fields

end

/-- The compact text of a value. -/
def text (value : Json) : String := String.ofList value.chars

/-- A new line at a level. -/
def newLine (level : Nat) : List Char :=
  '\n' :: List.replicate (2 * level) ' '

mutual

/-- The characters of a value laid out over lines, where its own first line stands at `level`. -/
def laidOut (level : Nat) : Json → List Char
  | .null => ['n', 'u', 'l', 'l']
  | .string value => quoted value
  | .array [] => ['[', ']']
  | .array (item :: items) =>
    '[' :: newLine (level + 1) ++ item.laidOut (level + 1) ++ itemLines (level + 1) items ++
      newLine level ++ [']']
  | .object [] => ['\x7b', '\x7d']
  | .object ((name, value) :: fields) =>
    '\x7b' :: newLine (level + 1) ++ quoted name ++ [':', ' '] ++ value.laidOut (level + 1) ++
      fieldLines (level + 1) fields ++ newLine level ++ ['\x7d']

/-- The further items of an array, each on a new line after a comma. -/
def itemLines (level : Nat) : List Json → List Char
  | [] => []
  | item :: items => ',' :: newLine level ++ item.laidOut level ++ itemLines level items

/-- The further fields of an object, each on a new line after a comma. -/
def fieldLines (level : Nat) : List (String × Json) → List Char
  | [] => []
  | (name, value) :: fields =>
    ',' :: newLine level ++ quoted name ++ [':', ' '] ++ value.laidOut level ++
      fieldLines level fields

end

/-- The text of a value laid out over lines. -/
def pretty (value : Json) : String := String.ofList (value.laidOut 0)

/-- A string, or null for none. -/
def ofOption (value : Option String) : Json :=
  match value with
  | none => .null
  | some s => .string s

end Json
end DateFacet
