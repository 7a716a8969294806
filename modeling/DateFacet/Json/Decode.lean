/-
# Decoding readings

A decoder walks over a reading from left to right and stops at the first fault, which is either
malformed JSON (also a value of the wrong kind, a field that is missing or there twice, an
unknown choice) or a value that a check of this library refuses.

A record is written as an object, with its fields in any order and others among them, or as an
array of its fields in order.  `Reading.record` goes over either form with one step per field.
A field that the record does not know is passed over.
-/

import DateFacet.Error
import DateFacet.Json.Reading

namespace DateFacet

/-- Why a reading is not decoded. -/
inductive DecodeError
  /-- The text is not JSON, or not of the right shape. -/
  | malformed
  /-- A date or a range is refused. -/
  | validation (cause : ValidationError)
  /-- A name of a variable or an IRI is refused. -/
  | compile (cause : CompileError)
  deriving DecidableEq

/-- The result of decoding. -/
abbrev Decoded (α : Type) := Except DecodeError α

namespace Json
namespace Reading

/-- A string. -/
def asString : Reading → Decoded String
  | .string (some s) => .ok s
  | _ => .error .malformed

/-- Null, or something else that `read` decodes. -/
def nullable {α : Type} (read : Reading → Decoded α) : Reading → Decoded (Option α)
  | .null => .ok none
  | value => (read value).map some

/-- An array of which `read` decodes each item. -/
def list {α : Type} (read : Reading → Decoded α) : Reading → Decoded (List α)
  | .array items => items.mapM read
  | _ => .error .malformed

/-- A field of a record that must not have been there before. -/
def once {α : Type} (slot : Option α) (read : Reading → Decoded α) (value : Reading) :
    Decoded (Option α) :=
  match slot with
  | some _ => .error .malformed
  | none => (read value).map some

/-- Goes over fields from left to right; `step` gives `none` for a name that it does not know. -/
def foldFields {σ : Type} (step : σ → String → Reading → Option (Decoded σ)) :
    σ → List (Option String × Reading) → Decoded σ
  | state, [] => .ok state
  | _, (none, _) :: _ => .error .malformed
  | state, (some name, value) :: fields =>
    match step state name value with
    | some next => next.bind fun state => foldFields step state fields
    | none => if value.isWhole then foldFields step state fields else .error .malformed

/-- Goes over the fields of a record from `start` on.  As an array it has its fields in the order
of `names`, of which at least the first `least` must be there. -/
def record {σ : Type} (names : List String) (least : Nat)
    (step : σ → String → Reading → Option (Decoded σ)) (start : σ) : Reading → Decoded σ
  | .object fields => foldFields step start fields
  | .array items => do
    let state ← foldFields step start ((names.map some).zip items)
    if least ≤ items.length ∧ items.length ≤ names.length then .ok state else .error .malformed
  | _ => .error .malformed

/-- A choice without content: its name, or an object with its name for the only field and null
for the value.  In a value held in memory, an empty object will do for the null. -/
def choice {α : Type} (isHeld : Bool) (table : List (String × α)) : Reading → Decoded α
  | .string (some name) => named name
  | .object [(some name, .null)] => named name
  | .object [(some name, .object [])] => if isHeld then named name else .error .malformed
  | _ => .error .malformed
where
  named (name : String) : Decoded α :=
    match table.lookup name with
    | some a => .ok a
    | none => .error .malformed

/-- The tag of a tagged value: a name, or in a value nested in another also the position of the
name among all. -/
def tag {α : Type} (isNested : Bool) (table : List (String × α)) : Reading → Decoded α
  | .string (some name) =>
    match table.lookup name with
    | some a => .ok a
    | none => .error .malformed
  | .number n =>
    match isNested, n.position?.bind (table[·]?) with
    | true, some (_, a) => .ok a
    | _, _ => .error .malformed
  | _ => .error .malformed

/-- The name of the field that holds a tag. -/
def tagName : String := "type"

/-- A tagged value: the tag and the content without it.  It is an object with the tag among its
fields, or an array with the tag in front. -/
def tagged {α : Type} (isNested : Bool) (table : List (String × α)) :
    Reading → Decoded (α × Reading)
  | .object fields =>
    match fields.filter fun field => field.1 = some tagName with
    | [(_, value)] => do
      let a ← value.tag isNested table
      .ok (a, .object (fields.filter fun field => field.1 ≠ some tagName))
    | _ => .error .malformed
  | .array (value :: items) => do
    let a ← value.tag isNested table
    .ok (a, .array items)
  | _ => .error .malformed

/-- The largest number of arrays and objects, one within the other, of a value that is held in
memory before it is decoded. -/
def maxLevels : Nat := 127

end Reading

/-- Decodes a text that holds one value and nothing else. -/
def decode {α : Type} (read : Reading → Decoded α) (text : String) : Decoded α := do
  let document := Document.ofText text
  let a ← read document.root
  if document.isClosed then .ok a else .error .malformed

end Json
end DateFacet
