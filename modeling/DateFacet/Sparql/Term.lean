/-
# Variables, named nodes and literals

The terms of a pattern, and how each is written in a query:

| term | written |
| --- | --- |
| variable | `?name` |
| prefixed name | as it is |
| any other IRI | `<…>` |
| literal | `"…"^^` and the datatype |

A text is checked where it becomes a term.  An IRI keeps the proof of its check.  A variable does
not, since `Variable.suffixed` takes any suffix.
-/

import DateFacet.Error
import DateFacet.Text.Blank

namespace DateFacet
namespace Sparql

/-- A variable, by its name without the mark in front. -/
structure Variable where
  name : String
  deriving DecidableEq

namespace Variable

/-- The marks that may stand before a name. -/
def isMark (c : Char) : Bool := c = '?' || c = '$'

/-- The characters of a name: ASCII letters and digits, and the underscore. -/
def isNameChar (c : Char) : Bool := c.isAlphanum || c = '_'

/-- The variable of a name with any number of marks before it. -/
def ofText (text : String) : Except CompileError Variable :=
  let name := text.toList.dropWhile isMark
  if name ≠ [] ∧ name.all isNameChar then .ok ⟨String.ofList name⟩
  else .error (.invalidVariable text)

/-- The variable whose name goes on with an underscore and the suffix. -/
def suffixed (v : Variable) (suffix : String) : Variable :=
  ⟨v.name ++ "_" ++ suffix⟩

/-- The written variable. -/
def chars (v : Variable) : List Char := '?' :: v.name.toList

end Variable

/-- The characters that no IRI may hold: blanks, and marks that have a meaning around an IRI. -/
def Iri.isForbidden (c : Char) : Bool :=
  Text.isBlank c ||
    ['<', '>', '"', '\x7b', '\x7d', '|', '^', '\x60', '\\'].contains c

/-- Characters that may stand for a named node: at least one, and none that is forbidden. -/
def Iri.isLegal (cs : List Char) : Bool :=
  !cs.isEmpty && cs.all fun c => !Iri.isForbidden c

/-- A named node: an IRI, or a prefixed name that stands for one. -/
structure Iri where
  text : String
  legal : Iri.isLegal text.toList = true
  deriving DecidableEq

namespace Iri

/-- The check in words: the characters are not empty, and none of them is forbidden. -/
theorem isLegal_iff (cs : List Char) :
    isLegal cs = true ↔ cs ≠ [] ∧ ∀ c ∈ cs, isForbidden c = false := by
  simp [isLegal]

/-- The named node of a text, without the blanks around it. -/
def ofText (text : String) : Except CompileError Iri :=
  if h : isLegal (Text.trim text).toList then .ok ⟨Text.trim text, h⟩
  else .error (.invalidIri text)

/-- The datatype of dates with times. -/
def dateTime : Iri :=
  ⟨"http://www.w3.org/2001/XMLSchema#dateTime", by decide +kernel⟩

/-- The characters after the first one in either part of a prefixed name. -/
def isNameChar (c : Char) : Bool :=
  c.isAlphanum || c = '_' || c = '.' || c = '-'

/-- The part of a prefixed name before the colon starts with a letter. -/
def isNameSpace : List Char → Bool
  | [] => false
  | c :: cs => c.isAlpha && cs.all isNameChar

/-- The part of a prefixed name after the colon starts with a letter, a digit or an underscore. -/
def isLocalName : List Char → Bool
  | [] => false
  | c :: cs => (c.isAlphanum || c = '_') && cs.all isNameChar

/-- The characters have the shape `name:name`. -/
def isPrefixedName (cs : List Char) : Bool :=
  isNameSpace (cs.takeWhile (· ≠ ':')) &&
    match cs.dropWhile (· ≠ ':') with
    | _ :: rest => isLocalName rest
    | [] => false

/-- The named node is written as a prefixed name. -/
def isPrefixed (i : Iri) : Bool := isPrefixedName i.text.toList

/-- The written named node. -/
def chars (i : Iri) : List Char :=
  if i.isPrefixed then i.text.toList else '<' :: i.text.toList ++ ['>']

end Iri

/-- A text with a datatype. -/
structure Literal where
  lexical : String
  datatype : Iri
  deriving DecidableEq

namespace Literal

/-- A character as it stands between the quotation marks of a literal. -/
def escapeChar (c : Char) : List Char :=
  if c = '"' then ['\\', '"']
  else if c = '\\' then ['\\', '\\']
  else if c = '\n' then ['\\', 'n']
  else if c = '\r' then ['\\', 'r']
  else [c]

/-- The written literal. -/
def chars (l : Literal) : List Char :=
  '"' :: l.lexical.toList.flatMap escapeChar ++ ['"', '^', '^'] ++ l.datatype.chars

end Literal

/-- A term of a triple or a comparison. -/
inductive Term
  | variable (v : Variable)
  | iri (i : Iri)
  | literal (l : Literal)
  deriving DecidableEq

namespace Term

/-- The written term. -/
def chars : Term → List Char
  | .variable v => v.chars
  | .iri i => i.chars
  | .literal l => l.chars

/-- The variable, if the term is one. -/
def asVariable? : Term → Option Variable
  | .variable v => some v
  | _ => none

/-- The named node, if the term is one. -/
def asIri? : Term → Option Iri
  | .iri i => some i
  | _ => none

/-- The literal, if the term is one. -/
def asLiteral? : Term → Option Literal
  | .literal l => some l
  | _ => none

/-- The text of the written term. -/
def text (t : Term) : String := String.ofList t.chars

end Term

end Sparql
end DateFacet
