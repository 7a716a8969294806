/-
# Patterns that are written alike

Different patterns may be written alike.  A union with one alternative is written as a group, triples
with a blank between them may be of one pattern or of several, and a pattern without triples leaves
only blanks behind.  The plain form takes these differences away:

| pattern | plain members |
| --- | --- |
| triples | a member for each of them |
| filter | the filter, without connectives that have one member |
| group | a group |
| union of one alternative | a group |
| union of several | a union of groups |

As an alternative of a union each pattern stands for a group, and a group stands for itself.  So the
plain form is made of the members within (`Pattern.content`), to which a group adds its braces
(`Pattern.plain`).

The plain members ask for what the pattern asks for, wherever it stands (`Graph.alike_plain`).
-/

import DateFacet.Proofs.Answers
import DateFacet.Proofs.ConditionReading

namespace DateFacet
namespace Sparql

namespace Pattern

/-- The union of alternatives, of which one alone stands for itself. -/
def oneOf : List Pattern → Pattern
  | [p] => p
  | ps => .union ps

/-- The plain members of a pattern, from those within it: a group keeps its braces. -/
def enclosed (members : List Pattern) : Pattern → List Pattern
  | .group _ => [.group members]
  | _ => members

mutual

/-- The plain members of the pattern as a group of its own. -/
def content : Pattern → List Pattern
  | .basic triples => triples.map fun t => .basic [t]
  | .filter condition => [.filter condition.plain]
  | .group members => contents members
  | .union members => [oneOf (blocks members)]

/-- The plain members of a group. -/
def contents : List Pattern → List Pattern
  | [] => []
  | p :: ps => p.enclosed (content p) ++ contents ps

/-- The plain alternatives of a union, each of them a group. -/
def blocks : List Pattern → List Pattern
  | [] => []
  | p :: ps => .group (content p) :: blocks ps

end

/-- The plain members of the pattern. -/
def plain (p : Pattern) : List Pattern := p.enclosed p.content

end Pattern

/-! ## The plain pattern asks for the same -/

namespace Graph

open Pattern (oneOf contents blocks)

variable {V : Type} (g : Graph V)

/-- One alternative alone has the answers of the union, and so have any others. -/
theorem answers_oneOf (ps : List Pattern) : g.answers (oneOf ps) = g.alternatives ps := by
  match ps with
  | [] => rw [show oneOf [] = .union [] from rfl, answers]
  | [p] => rw [oneOf, alternatives, alternatives, Set.union_empty]
  | p :: q :: ps => rw [show oneOf (p :: q :: ps) = .union (p :: q :: ps) from rfl, answers]

/-- A union of blocks is no filter, even with one alternative. -/
theorem isFilter_oneOf_blocks (ps : List Pattern) : (oneOf (blocks ps)).isFilter = false := by
  match ps with
  | [] => rfl
  | [p] => rfl
  | p :: q :: ps => rfl

/-- Triples bind as one pattern what they bind apart. -/
theorem alike_triples (ts : List Triple) :
    g.Alike (ts.map fun t => .basic [t]) [.basic ts] where
  joined := by
    rw [g.joined_singleton rfl]
    induction ts with
    | nil => rw [List.map_nil, joined, answers_basic_nil]
    | cons t ts ih =>
      have apart := g.answers_basic_append [t] ts
      rw [List.singleton_append] at apart
      rw [List.map_cons, joined, ih, apart]
      rfl
  filters μ := by
    have none : (ts.map fun t => Pattern.basic [t]).filterMap Pattern.asFilter? = [] := by
      rw [List.filterMap_eq_nil_iff, List.forall_mem_map]
      exact fun _ _ => rfl
    rw [none]
    rfl

/-- A filter is alike to the one with the plain condition. -/
theorem alike_filter (c : Condition) : g.Alike [.filter c.plain] [.filter c] :=
  g.alike_of_accepts fun _ => c.eval_plain _

/-- The plain members ask for the same as the pattern, if the group of them does. -/
theorem alike_of_answers_content {p : Pattern}
    (h : g.answers (.group p.content) = g.answers p) : g.Alike p.plain [p] := by
  match p with
  | .basic ts => exact g.alike_triples ts
  | .filter c => exact g.alike_filter c
  | .group ps => exact g.alike_of_answers rfl rfl h
  | .union ps =>
    rw [Pattern.content, answers_group_singleton] at h
    exact g.alike_of_answers (isFilter_oneOf_blocks ps) rfl h

mutual

/-- The group of the members within a pattern has its answers. -/
theorem answers_content : ∀ p : Pattern, g.answers (.group p.content) = g.answers p
  | .basic ts => by
      rw [Pattern.content, (g.alike_triples ts).answers_group, answers_group_singleton]
  | .filter c => by
      rw [Pattern.content, (g.alike_filter c).answers_group, answers_group_singleton]
  | .group ps => by rw [Pattern.content, (alike_contents ps).answers_group]
  | .union ps => by
      rw [Pattern.content, answers_group_singleton, answers_oneOf, alternatives_blocks ps, answers]

/-- The plain members of a group ask for the same as its members. -/
theorem alike_contents : ∀ ps : List Pattern, g.Alike (contents ps) ps
  | [] => Alike.refl []
  | p :: ps => (g.alike_of_answers_content (answers_content p)).append (alike_contents ps)

/-- The blocks of a union have the answers of its alternatives. -/
theorem alternatives_blocks : ∀ ps : List Pattern,
    g.alternatives (blocks ps) = g.alternatives ps
  | [] => rfl
  | p :: ps => by
      rw [blocks, alternatives, answers_content p, alternatives_blocks ps, alternatives]

end

/-- **The plain members ask for the same as the pattern**, wherever it stands. -/
theorem alike_plain (p : Pattern) : g.Alike p.plain [p] :=
  g.alike_of_answers_content (g.answers_content p)

end Graph

end Sparql
end DateFacet
