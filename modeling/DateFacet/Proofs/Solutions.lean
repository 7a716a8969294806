/-
# What a pattern asks of entities with dates

Facts say which value an entity has for a property, and a value is an instant.  Such a world is a
graph (`World.graph`), and the solutions of a pattern are its answers there.

A comparison is one of values.  Instants are in their order, and a literal of dates with times is
the instant that its text names.  Values of other kinds are only equal or not.
-/

import DateFacet.DateText.Meaning
import DateFacet.Instant.Order
import DateFacet.Proofs.Answers

namespace DateFacet
namespace Sparql

/-! ## Values and facts -/

/-- What a variable may be bound to, over nodes of some type. -/
inductive Value (N : Type)
  | node (n : N)
  | instant (t : Instant)
  /-- A literal that names no instant stands for itself. -/
  | literal (l : Literal)
  deriving DecidableEq

/-- A set of facts, and the nodes that named nodes stand for. -/
structure World (N : Type) where
  /-- The entity or the property of an IRI or a prefixed name. -/
  node : Iri → N
  /-- The entity has the instant for a value of the property. -/
  Fact : N → N → Instant → Prop

/-- The instant that a literal names, if it is one of dates with times. -/
def Literal.instant? (l : Literal) : Option Instant :=
  if l.datatype = .dateTime then (Instant.ofText .dayFirst l.lexical).toOption else none

/-- The value of a literal. -/
def Literal.value {N : Type} (l : Literal) : Value N :=
  match l.instant? with
  | some t => .instant t
  | none => .literal l

/-- The comparison of two instants. -/
def Comparison.ofInstants : Comparison → Instant → Instant → Bool
  | .lt, a, b => a < b
  | .le, a, b => a ≤ b
  | .eq, a, b => a = b
  | .ge, a, b => b ≤ a
  | .gt, a, b => b < a

variable {N : Type} [DecidableEq N]

/-- The comparison of two values. -/
def Comparison.ofValues (sign : Comparison) : Value N → Value N → Bool
  | .instant a, .instant b => sign.ofInstants a b
  | a, b => sign = .eq ∧ a = b

/-- The graph of a world: its facts are about a node, a property and a date. -/
def World.graph (w : World N) : Graph (Value N) where
  node i := .node (w.node i)
  literal l := l.value
  Fact s p o := ∃ entity property date,
    s = .node entity ∧ p = .node property ∧ o = .instant date ∧ w.Fact entity property date
  compares := Comparison.ofValues

/-- A literal stands for its value. -/
@[simp] theorem World.graph_literal (w : World N) (l : Literal) : w.graph.literal l = l.value := rfl

/-- Instants compare in their order. -/
@[simp] theorem World.graph_compares (w : World N) (sign : Comparison) (s t : Instant) :
    w.graph.compares sign (.instant s) (.instant t) = sign.ofInstants s t := rfl

/-! ## Solutions -/

/-- What each variable is bound to, if it is bound. -/
abbrev Solution (N : Type) := Bindings (Value N)

/-- The condition is true in a solution. -/
def Condition.holds (w : World N) (μ : Solution N) (c : Condition) : Bool :=
  w.graph.accepts μ c

/-- The solutions of a pattern as a group of its own. -/
def Pattern.solutions (w : World N) (p : Pattern) : Set (Solution N) :=
  w.graph.answers p

variable {w : World N} {μ : Solution N}

/-- A triple is a fact if an entity has a date for its property. -/
theorem World.holds_iff {t : Triple} : w.graph.Holds μ t ↔
    ∃ entity property date, w.graph.value? μ t.subject = some (.node entity) ∧
      w.graph.value? μ t.predicate = some (.node property) ∧
      w.graph.value? μ t.object = some (.instant date) ∧ w.Fact entity property date := by
  constructor
  · rintro ⟨_, _, _, hs, hp, ho, entity, property, date, rfl, rfl, rfl, fact⟩
    exact ⟨entity, property, date, hs, hp, ho, fact⟩
  · rintro ⟨entity, property, date, hs, hp, ho, fact⟩
    exact ⟨_, _, _, hs, hp, ho, entity, property, date, rfl, rfl, rfl, fact⟩

/-- **Conditions are joined to hold at once.**  Without any, nothing has to hold. -/
theorem Condition.all?_holds (w : World N) (μ : Solution N) (cs : List Condition) :
    (∀ c ∈ all? cs, c.holds w μ = true) ↔ ∀ c ∈ cs, c.holds w μ = true := by
  have all : (∀ c ∈ cs, c.holds w μ = true) ↔ evalAll (w.graph.relates μ) cs = true :=
    (evalAll_iff _ cs).symm
  match cs with
  | [] => simp [all?]
  | [c] => simp [all?]
  | c :: d :: cs =>
    rw [all]
    simp only [all?, Option.mem_def, Option.some.injEq, forall_eq']
    rfl

end Sparql
end DateFacet
