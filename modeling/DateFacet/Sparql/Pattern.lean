/-
# Graph patterns

A small part of the SPARQL algebra: triples that must all match, filters, groups and unions.  A
union writes each alternative in braces, which a group brings along.
-/

import DateFacet.Sparql.Condition

namespace DateFacet
namespace Sparql

/-- A subject, a predicate and an object. -/
structure Triple where
  subject : Term
  predicate : Term
  object : Term
  deriving DecidableEq

/-- The written triple. -/
def Triple.chars (t : Triple) : List Char :=
  t.subject.chars ++ ' ' :: t.predicate.chars ++ ' ' :: t.object.chars ++ [' ', '.']

/-- The terms of a triple in order. -/
def Triple.terms (t : Triple) : List Term := [t.subject, t.predicate, t.object]

/-- A graph pattern. -/
inductive Pattern
  /-- Triples that must all match. -/
  | basic (triples : List Triple)
  /-- A condition on the solutions of the group around it. -/
  | filter (condition : Condition)
  /-- Patterns that hold together. -/
  | group (members : List Pattern)
  /-- Alternatives, of which each one gives solutions. -/
  | union (members : List Pattern)

namespace Pattern

/-- A bare filter. -/
def isFilter : Pattern → Bool
  | .filter _ => true
  | _ => false

/-- A union. -/
def isUnion : Pattern → Bool
  | .union _ => true
  | _ => false

/-- The written triples, with a blank between them. -/
def tripleChars : List Triple → List Char
  | [] => []
  | [t] => t.chars
  | t :: ts => t.chars ++ ' ' :: tripleChars ts

/-- An alternative of a union, from the characters of the alternative: in braces unless it is a
group, which has its own. -/
def alternative (cs : List Char) : Pattern → List Char
  | .group _ => cs
  | _ => '\x7b' :: ' ' :: cs ++ [' ', '\x7d']

/-- The word between two alternatives. -/
def unionWord : List Char := [' ', 'U', 'N', 'I', 'O', 'N', ' ']

mutual

/-- The written pattern. -/
def chars : Pattern → List Char
  | .basic triples => tripleChars triples
  | .filter condition => ['F', 'I', 'L', 'T', 'E', 'R', '('] ++ condition.chars ++ [')']
  | .group members => '\x7b' :: memberChars members ++ [' ', '\x7d']
  | .union members => alternativeChars members

/-- The written members of a group, with a blank before each. -/
def memberChars : List Pattern → List Char
  | [] => []
  | p :: ps => ' ' :: p.chars ++ memberChars ps

/-- The written alternatives of a union. -/
def alternativeChars : List Pattern → List Char
  | [] => []
  | [p] => p.alternative p.chars
  | p :: ps => p.alternative p.chars ++ unionWord ++ alternativeChars ps

end

mutual

/-- The terms of the pattern, in the order in which they are written. -/
def terms : Pattern → List Term
  | .basic triples => triples.flatMap Triple.terms
  | .filter condition => condition.terms
  | .group members => memberTerms members
  | .union members => memberTerms members

/-- The terms of the members, in order. -/
def memberTerms : List Pattern → List Term
  | [] => []
  | p :: ps => p.terms ++ memberTerms ps

end

/-- The terms of the members are those of each member in turn. -/
theorem memberTerms_eq (ps : List Pattern) : memberTerms ps = ps.flatMap terms := by
  induction ps with
  | nil => rfl
  | cons p ps ih => rw [memberTerms, ih, List.flatMap_cons]

/-- The named nodes of the pattern, in order and as often as they occur. -/
def iris (p : Pattern) : List Iri := p.terms.filterMap Term.asIri?

/-- The literals of the pattern, in order and as often as they occur. -/
def literals (p : Pattern) : List Literal := p.terms.filterMap Term.asLiteral?

/-- A named node of the pattern has this text. -/
def mentions (p : Pattern) (iri : String) : Bool := p.iris.any (·.text = iri)

/-- The text of the written pattern. -/
def text (p : Pattern) : String := String.ofList p.chars

end Pattern

end Sparql
end DateFacet
