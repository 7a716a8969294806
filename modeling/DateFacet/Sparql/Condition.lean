/-
# Filter conditions

A condition compares two terms, or joins other conditions by "and" or by "or".  Written, a joined
condition puts parentheses around each of its members that is no comparison, so the precedence of
the connectives is never needed to read it.
-/

import DateFacet.Sparql.Term

namespace DateFacet
namespace Sparql

/-- A comparison of two values. -/
inductive Comparison
  | lt
  | le
  | eq
  | ge
  | gt
  deriving DecidableEq

/-- The written comparison sign. -/
def Comparison.chars : Comparison → List Char
  | .lt => ['<']
  | .le => ['<', '=']
  | .eq => ['=']
  | .ge => ['>', '=']
  | .gt => ['>']

/-- A condition on the values of variables. -/
inductive Condition
  | compare (sign : Comparison) (left right : Term)
  /-- Every member holds. -/
  | all (members : List Condition)
  /-- Some member holds. -/
  | any (members : List Condition)

namespace Condition

/-- The condition that several hold at once; one alone stands for itself, and of none there is no
condition. -/
def all? : List Condition → Option Condition
  | [] => none
  | [c] => some c
  | cs => some (.all cs)

/-- A member of a joined condition, from the characters of the member: in parentheses unless it
is a comparison. -/
def member (cs : List Char) : Condition → List Char
  | .compare _ _ _ => cs
  | _ => '(' :: cs ++ [')']

mutual

/-- The written condition. -/
def chars : Condition → List Char
  | .compare sign left right => left.chars ++ ' ' :: sign.chars ++ ' ' :: right.chars
  | .all members => memberChars [' ', '&', '&', ' '] members
  | .any members => memberChars [' ', '|', '|', ' '] members

/-- The written members with a connective between them. -/
def memberChars (connective : List Char) : List Condition → List Char
  | [] => []
  | [c] => c.member c.chars
  | c :: cs => c.member c.chars ++ connective ++ memberChars connective cs

end

mutual

/-- The terms of the condition, in the order in which they are written. -/
def terms : Condition → List Term
  | .compare _ left right => [left, right]
  | .all members => memberTerms members
  | .any members => memberTerms members

/-- The terms of the members, in order. -/
def memberTerms : List Condition → List Term
  | [] => []
  | c :: cs => c.terms ++ memberTerms cs

end

/-- The terms of the members are those of each member in turn. -/
theorem memberTerms_eq (cs : List Condition) : memberTerms cs = cs.flatMap terms := by
  induction cs with
  | nil => rfl
  | cons c cs ih => rw [memberTerms, ih, List.flatMap_cons]

/-- Conditions, of which there is one, have a joined condition with the same terms. -/
theorem exists_all? {cs : List Condition} (ne : cs ≠ []) :
    ∃ c, all? cs = some c ∧ c.terms = cs.flatMap terms := by
  match cs with
  | [c] => exact ⟨c, rfl, (List.append_nil c.terms).symm⟩
  | c :: d :: cs => exact ⟨.all (c :: d :: cs), rfl, by rw [terms, memberTerms_eq]⟩

/-- The text of the written condition. -/
def text (c : Condition) : String := String.ofList c.chars

end Condition

end Sparql
end DateFacet
