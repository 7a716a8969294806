/-
# Terms, conditions and patterns as JSON

Everything that has a kind is stored as an object with its kind in the field `type`:

| value | further fields |
| --- | --- |
| term | `value`: a name, an IRI, or `lexical` and `datatype` |
| comparison | `op`, `left`, `right` |
| joined condition | `operands` |
| triples | `triples`, each `subject`, `predicate`, `object` |
| filter | `expression` |
| group, union | `patterns` |

Texts are checked when they are read, so a stored name may have marks before it and a stored IRI
blanks around it.  A condition or a pattern is held in memory as a whole before its content is
decoded, since its kind may be the last of its fields; a term alone is decoded as it comes, unless
its value stands before its kind.

Each may also be an array, with the kind in front.  There the kind is a tag, which is a name, or
its position among the kinds if the array stands within a condition or a pattern; the kind of a
term in an object is a choice instead, which has other forms (`Reading.tag`, `Reading.choice`).
-/

import DateFacet.Json.Decode
import DateFacet.Json.Value
import DateFacet.Sparql.Pattern

namespace DateFacet
namespace Sparql

open Json (Reading)

/-! ## Storing -/

/-- A stored variable. -/
def Variable.json (v : Variable) : Json := .string v.name

/-- A stored named node. -/
def Iri.json (i : Iri) : Json := .string i.text

/-- A stored literal. -/
def Literal.json (l : Literal) : Json :=
  .object [("lexical", .string l.lexical), ("datatype", l.datatype.json)]

/-- A stored term. -/
def Term.json : Term → Json
  | .variable v => .object [("type", .string "variable"), ("value", v.json)]
  | .iri i => .object [("type", .string "iri"), ("value", i.json)]
  | .literal l => .object [("type", .string "literal"), ("value", l.json)]

/-- A stored triple. -/
def Triple.json (t : Triple) : Json :=
  .object [("subject", t.subject.json), ("predicate", t.predicate.json), ("object", t.object.json)]

/-- The comparisons by their names. -/
def Comparison.table : List (String × Comparison) :=
  [("lt", .lt), ("le", .le), ("eq", .eq), ("ge", .ge), ("gt", .gt)]

/-- The name of a comparison. -/
def Comparison.name : Comparison → String
  | .lt => "lt"
  | .le => "le"
  | .eq => "eq"
  | .ge => "ge"
  | .gt => "gt"

mutual

/-- A stored condition. -/
def Condition.json : Condition → Json
  | .compare sign left right =>
    .object [("type", .string "compare"), ("op", .string sign.name), ("left", left.json),
      ("right", right.json)]
  | .all members =>
    .object [("type", .string "and"), ("operands", .array (Condition.memberJson members))]
  | .any members =>
    .object [("type", .string "or"), ("operands", .array (Condition.memberJson members))]

/-- The stored members of a joined condition. -/
def Condition.memberJson : List Condition → List Json
  | [] => []
  | c :: cs => c.json :: Condition.memberJson cs

end

mutual

/-- A stored pattern. -/
def Pattern.json : Pattern → Json
  | .basic triples =>
    .object [("type", .string "bgp"), ("triples", .array (triples.map Triple.json))]
  | .filter condition =>
    .object [("type", .string "filter"), ("expression", condition.json)]
  | .group members =>
    .object [("type", .string "group"), ("patterns", .array (Pattern.memberJson members))]
  | .union members =>
    .object [("type", .string "union"), ("patterns", .array (Pattern.memberJson members))]

/-- The stored members of a group or a union. -/
def Pattern.memberJson : List Pattern → List Json
  | [] => []
  | p :: ps => p.json :: Pattern.memberJson ps

end

/-! ## Decoding terms -/

/-- Decodes a variable. -/
def Variable.ofReading (r : Reading) : Decoded Variable := do
  (Variable.ofText (← r.asString)).mapError .compile

/-- Decodes a named node. -/
def Iri.ofReading (r : Reading) : Decoded Iri := do
  (Iri.ofText (← r.asString)).mapError .compile

/-- The fields of a literal that have been met. -/
structure Literal.Draft where
  lexical : Option String
  datatype : Option Iri

/-- Takes one field of a literal. -/
def Literal.Draft.put (draft : Literal.Draft) (name : String) (value : Reading) :
    Option (Decoded Literal.Draft) :=
  match name with
  | "lexical" => some do
    return { draft with lexical := ← Reading.once draft.lexical Reading.asString value }
  | "datatype" => some do
    return { draft with datatype := ← Reading.once draft.datatype Iri.ofReading value }
  | _ => none

/-- Decodes a literal. -/
def Literal.ofReading (r : Reading) : Decoded Literal := do
  match ← r.record ["lexical", "datatype"] 2 Literal.Draft.put ⟨none, none⟩ with
  | ⟨some lexical, some datatype⟩ => .ok ⟨lexical, datatype⟩
  | _ => .error .malformed

/-- The kinds of terms. -/
inductive Term.Kind
  | variable
  | iri
  | literal
  deriving DecidableEq

/-- The kinds of terms by their names. -/
def Term.Kind.table : List (String × Term.Kind) :=
  [("variable", .variable), ("iri", .iri), ("literal", .literal)]

/-- Decodes the value of a term of a known kind. -/
def Term.Kind.read : Term.Kind → Reading → Decoded Term
  | .variable, r => (Variable.ofReading r).map .variable
  | .iri, r => (Iri.ofReading r).map .iri
  | .literal, r => (Literal.ofReading r).map .literal

/-- What is known of a term on the way through its fields. -/
inductive Term.Draft
  | empty
  /-- Only the kind has been met. -/
  | kind (kind : Term.Kind)
  /-- Only the value has been met; it is held until the kind is known. -/
  | held (value : Reading)
  /-- Both have been met. -/
  | whole (term : Term)

/-- Takes one field of a term.  A value that is to be held may have one level less than a whole
text, for the term is around it. -/
def Term.Draft.put (isHeld : Bool) (draft : Term.Draft) (name : String) (value : Reading) :
    Option (Decoded Term.Draft) :=
  match name with
  | "type" => some <|
    match draft with
    | .empty => (value.choice isHeld Term.Kind.table).map .kind
    | .held content => do
      let k ← value.choice isHeld Term.Kind.table
      (k.read content).map .whole
    | _ => .error .malformed
  | "value" => some <|
    match draft with
    | .empty =>
      if value.canBeHeld (Reading.maxLevels - 1) then .ok (.held value) else .error .malformed
    | .kind k => (k.read value).map .whole
    | _ => .error .malformed
  | _ => none

/-- Decodes a term that is written as an array: its kind as a tag in front, then its value and
nothing else. -/
def Term.ofItems (isHeld : Bool) : List Reading → Decoded Term
  | [] => .error .malformed
  | tag :: items => do
    let kind ← tag.tag isHeld Term.Kind.table
    match items with
    | [] => .error .malformed
    | value :: others => do
      let term ← kind.read value
      if others.isEmpty then .ok term else .error .malformed

/-- Decodes a term, which is held in memory already if it stands within a condition or a
pattern. -/
def Term.ofReading (isHeld : Bool) : Reading → Decoded Term
  | .object fields => do
    match ← Reading.foldFields (Term.Draft.put isHeld) .empty fields with
    | .whole term => .ok term
    | _ => .error .malformed
  | .array items => Term.ofItems isHeld items
  | _ => .error .malformed

/-- The fields of a triple that have been met. -/
structure Triple.Draft where
  subject : Option Term
  predicate : Option Term
  object : Option Term

/-- Takes one field of a triple. -/
def Triple.Draft.put (draft : Triple.Draft) (name : String) (value : Reading) :
    Option (Decoded Triple.Draft) :=
  match name with
  | "subject" => some do
    return { draft with subject := ← Reading.once draft.subject (Term.ofReading true) value }
  | "predicate" => some do
    return { draft with predicate := ← Reading.once draft.predicate (Term.ofReading true) value }
  | "object" => some do
    return { draft with object := ← Reading.once draft.object (Term.ofReading true) value }
  | _ => none

/-- Decodes a triple. -/
def Triple.ofReading (r : Reading) : Decoded Triple := do
  match ← r.record ["subject", "predicate", "object"] 3 Triple.Draft.put ⟨none, none, none⟩ with
  | ⟨some subject, some predicate, some object⟩ => .ok ⟨subject, predicate, object⟩
  | _ => .error .malformed

/-! ## Decoding conditions and patterns -/

/-- Decodes the content of a record with one field. -/
def only {α : Type} (field : String) (read : Reading → Decoded α) (r : Reading) : Decoded α := do
  let put (slot : Option α) (name : String) (value : Reading) : Option (Decoded (Option α)) :=
    if name = field then some (Reading.once slot read value) else none
  match ← r.record [field] 1 put none with
  | some a => .ok a
  | none => .error .malformed

/-- The fields of a comparison that have been met. -/
structure Comparison.Draft where
  sign : Option Comparison
  left : Option Term
  right : Option Term

/-- Takes one field of a comparison. -/
def Comparison.Draft.put (draft : Comparison.Draft) (name : String) (value : Reading) :
    Option (Decoded Comparison.Draft) :=
  match name with
  | "op" => some do
    return { draft with
      sign := ← Reading.once draft.sign (Reading.choice true Comparison.table) value }
  | "left" => some do
    return { draft with left := ← Reading.once draft.left (Term.ofReading true) value }
  | "right" => some do
    return { draft with right := ← Reading.once draft.right (Term.ofReading true) value }
  | _ => none

/-- Decodes the content of a comparison. -/
def Condition.compareOfContent (r : Reading) : Decoded Condition := do
  match ← r.record ["op", "left", "right"] 3 Comparison.Draft.put ⟨none, none, none⟩ with
  | ⟨some sign, some left, some right⟩ => .ok (.compare sign left right)
  | _ => .error .malformed

/-- The kinds of conditions. -/
inductive Condition.Kind
  | compare
  | all
  | any
  deriving DecidableEq

/-- The kinds of conditions by their names. -/
def Condition.Kind.table : List (String × Condition.Kind) :=
  [("compare", .compare), ("and", .all), ("or", .any)]

/-- Decodes a condition that is held in memory and has at most `levels` levels. -/
def Condition.ofHeld : Nat → Bool → Reading → Decoded Condition
  | 0, _, _ => .error .malformed
  | levels + 1, isNested, r => do
    let (kind, content) ← r.tagged isNested Condition.Kind.table
    match kind with
    | .compare => Condition.compareOfContent content
    | .all => (only "operands" (Reading.list (Condition.ofHeld levels true)) content).map .all
    | .any => (only "operands" (Reading.list (Condition.ofHeld levels true)) content).map .any

/-- Decodes a condition. -/
def Condition.ofReading (r : Reading) : Decoded Condition :=
  if r.canBeHeld Reading.maxLevels then Condition.ofHeld Reading.maxLevels false r
  else .error .malformed

/-- The kinds of patterns. -/
inductive Pattern.Kind
  | basic
  | filter
  | group
  | union
  deriving DecidableEq

/-- The kinds of patterns by their names. -/
def Pattern.Kind.table : List (String × Pattern.Kind) :=
  [("bgp", .basic), ("filter", .filter), ("group", .group), ("union", .union)]

/-- Decodes a pattern that is held in memory and has at most `levels` levels. -/
def Pattern.ofHeld : Nat → Bool → Reading → Decoded Pattern
  | 0, _, _ => .error .malformed
  | levels + 1, isNested, r => do
    let (kind, content) ← r.tagged isNested Pattern.Kind.table
    match kind with
    | .basic => (only "triples" (Reading.list Triple.ofReading) content).map .basic
    | .filter =>
      (only "expression" (Condition.ofHeld Reading.maxLevels true) content).map .filter
    | .group => (only "patterns" (Reading.list (Pattern.ofHeld levels true)) content).map .group
    | .union => (only "patterns" (Reading.list (Pattern.ofHeld levels true)) content).map .union

/-- Decodes a pattern. -/
def Pattern.ofReading (r : Reading) : Decoded Pattern :=
  if r.canBeHeld Reading.maxLevels then Pattern.ofHeld Reading.maxLevels false r
  else .error .malformed

end Sparql
end DateFacet
