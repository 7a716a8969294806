/-
# What a pattern asks for

A graph says which triples of values are facts, and how values compare; values may be of any kind.
A pattern has answers there, each of which binds some variables:

| pattern | answers |
| --- | --- |
| triples | bind the variables of the triples, so that all triples are facts |
| filter | binds nothing; a group of its own, with nothing to filter but this |
| group | bind what the members bind together, so that all its filters hold |
| union | the answers to each alternative |

Members of a group bind together what they bind apart if they agree on the variables that they
share.  Filters do not bind: they are about the whole group in which they stand, wherever they
stand in it.  A comparison with a variable that is not bound does not hold; since no condition
negates another, that leaves out the same answers as an error does.

Answers are joined, and joining has laws: nothing joins without a change, and the order in which
parts are put together does not matter (`Bindings.join_assoc`).  So what the members of a group
bind together is what the parts of the list bind together (`Graph.joined_append`), and triples may
be taken apart anywhere (`Graph.answers_basic_append`).
-/

import DateFacet.Sparql.Pattern
import Mathlib.Data.Set.Basic

namespace DateFacet
namespace Sparql

/-! ## Conditions, triples and filters -/

namespace Condition

mutual

/-- The truth of a condition from the truth of its comparisons. -/
def eval (truth : Comparison → Term → Term → Bool) : Condition → Bool
  | .compare sign left right => truth sign left right
  | .all members => evalAll truth members
  | .any members => evalAny truth members

/-- Every member is true. -/
def evalAll (truth : Comparison → Term → Term → Bool) : List Condition → Bool
  | [] => true
  | c :: cs => c.eval truth && evalAll truth cs

/-- Some member is true. -/
def evalAny (truth : Comparison → Term → Term → Bool) : List Condition → Bool
  | [] => false
  | c :: cs => c.eval truth || evalAny truth cs

end

/-- Conditions are true together exactly if each of them is. -/
theorem evalAll_iff (truth : Comparison → Term → Term → Bool) (cs : List Condition) :
    evalAll truth cs = true ↔ ∀ c ∈ cs, c.eval truth = true := by
  induction cs with
  | nil => simp [evalAll]
  | cons c cs ih => rw [evalAll, Bool.and_eq_true, ih, List.forall_mem_cons]

end Condition

namespace Pattern

/-- The variables of triples. -/
def tripleVariables (triples : List Triple) : List Variable :=
  (triples.flatMap Triple.terms).filterMap Term.asVariable?

/-- The condition of a filter. -/
def asFilter? : Pattern → Option Condition
  | .filter condition => some condition
  | _ => none

end Pattern

/-! ## Bindings -/

/-- What each variable is bound to, if it is bound. -/
abbrev Bindings (V : Type) := Variable → Option V

namespace Bindings

variable {V : Type}

/-- Nothing is bound. -/
def empty : Bindings V := fun _ => none

/-- Two bindings agree on the variables that both bind. -/
def Compatible (a b : Bindings V) : Prop := ∀ v x y, a v = some x → b v = some y → x = y

/-- What either of two bindings binds. -/
def union (a b : Bindings V) : Bindings V := fun v => (a v).or (b v)

/-- The unions of bindings that agree. -/
def join (as bs : Set (Bindings V)) : Set (Bindings V) :=
  {μ | ∃ a ∈ as, ∃ b ∈ bs, a.Compatible b ∧ μ = a.union b}

/-- Nothing adds nothing to what is bound. -/
@[simp] theorem union_empty (a : Bindings V) : a.union empty = a := funext fun _ => Option.or_none

/-- Nothing is bound before what is bound. -/
@[simp] theorem empty_union (a : Bindings V) : empty.union a = a := funext fun _ => Option.none_or

/-- What three bindings bind does not depend on what is put together first. -/
theorem union_assoc (a b c : Bindings V) : (a.union b).union c = a.union (b.union c) :=
  funext fun _ => Option.or_assoc

theorem compatible_empty (a : Bindings V) : a.Compatible empty := fun _ _ _ _ h => nomatch h

theorem empty_compatible (a : Bindings V) : empty.Compatible a := fun _ _ _ h => nomatch h

/-- What is bound first stays bound. -/
theorem union_of_left {a : Bindings V} {v : Variable} {x : V} (h : a v = some x)
    (b : Bindings V) : a.union b v = some x := by
  rw [union, h, Option.some_or]

/-- What is bound by the second of two that agree stays bound. -/
theorem union_of_right {a b : Bindings V} (h : a.Compatible b) {v : Variable} {y : V}
    (hb : b v = some y) : a.union b v = some y := by
  cases ha : a v with
  | none => rw [union, ha, Option.none_or, hb]
  | some x => rw [union_of_left ha, h v x y ha hb]

/-- **Three bindings agree in either order.** -/
theorem compatible_assoc (a b c : Bindings V) :
    a.Compatible b ∧ (a.union b).Compatible c ↔ b.Compatible c ∧ a.Compatible (b.union c) := by
  constructor
  · rintro ⟨hab, habc⟩
    -- What the second binds stays bound in the union of the first two, for these agree.
    have hbc : b.Compatible c := fun v y z hb hc =>
      habc v y z (union_of_right hab hb) hc
    refine ⟨hbc, fun v x u ha hu => ?_⟩
    cases hb : b v with
    | none =>
      rw [union, hb, Option.none_or] at hu
      exact habc v x u (union_of_left ha b) hu
    | some y =>
      rw [union_of_left hb] at hu
      rw [← Option.some.inj hu]
      exact hab v x y ha hb
  · rintro ⟨hbc, habc⟩
    have hab : a.Compatible b := fun v x y ha hb => habc v x y ha (union_of_left hb c)
    refine ⟨hab, fun v u z hu hc => ?_⟩
    cases ha : a v with
    | none =>
      rw [union, ha, Option.none_or] at hu
      exact hbc v u z hu hc
    | some x =>
      rw [union_of_left ha] at hu
      rw [← Option.some.inj hu]
      exact habc v x z ha (union_of_right hbc hc)

section

variable (as bs cs : Set (Bindings V))

/-- Nothing joins without a change. -/
@[simp] theorem join_empty : join as {empty} = as := by
  ext μ
  constructor
  · rintro ⟨a, ha, _, rfl, -, rfl⟩
    rwa [union_empty]
  · intro h
    exact ⟨μ, h, empty, rfl, compatible_empty μ, (union_empty μ).symm⟩

/-- Nothing is joined to without a change. -/
@[simp] theorem empty_join : join {empty} as = as := by
  ext μ
  constructor
  · rintro ⟨_, rfl, a, ha, -, rfl⟩
    rwa [empty_union]
  · intro h
    exact ⟨empty, rfl, μ, h, empty_compatible μ, (empty_union μ).symm⟩

/-- **Joining does not depend on what is joined first.** -/
theorem join_assoc : join (join as bs) cs = join as (join bs cs) := by
  ext μ
  constructor
  · rintro ⟨_, ⟨a, ha, b, hb, hab, rfl⟩, c, hc, habc, rfl⟩
    obtain ⟨hbc, habc⟩ := (compatible_assoc a b c).1 ⟨hab, habc⟩
    exact ⟨a, ha, b.union c, ⟨b, hb, c, hc, hbc, rfl⟩, habc, union_assoc a b c⟩
  · rintro ⟨a, ha, _, ⟨b, hb, c, hc, hbc, rfl⟩, habc, rfl⟩
    obtain ⟨hab, habc⟩ := (compatible_assoc a b c).2 ⟨hbc, habc⟩
    exact ⟨a.union b, ⟨a, ha, b, hb, hab, rfl⟩, c, hc, habc, (union_assoc a b c).symm⟩

end

/-- Only some of the variables stay bound. -/
def restrict (vs : List Variable) (μ : Bindings V) : Bindings V :=
  fun v => if v ∈ vs then μ v else none

/-- A variable that is kept is bound as before. -/
theorem restrict_of_mem {vs : List Variable} {v : Variable} (h : v ∈ vs) (μ : Bindings V) :
    μ.restrict vs v = μ v := if_pos h

/-- What stays bound was bound before. -/
theorem eq_of_restrict {vs : List Variable} {μ : Bindings V} {v : Variable} {x : V}
    (h : μ.restrict vs v = some x) : μ v = some x := by
  rw [restrict] at h
  split at h
  · exact h
  · cases h

end Bindings

/-! ## Graphs -/

/-- Facts about values of some type. -/
structure Graph (V : Type) where
  /-- The value of an IRI or a prefixed name. -/
  node : Iri → V
  /-- The value of a literal. -/
  literal : Literal → V
  /-- Subject, predicate and object make a fact. -/
  Fact : V → V → V → Prop
  /-- The comparison of two values. -/
  compares : Comparison → V → V → Bool

open Pattern (tripleVariables asFilter?)

namespace Graph

variable {V : Type} (g : Graph V)

/-- The value of a term. -/
def value? (μ : Bindings V) : Term → Option V
  | .variable v => μ v
  | .iri i => some (g.node i)
  | .literal l => some (g.literal l)

/-- The triple is a fact. -/
def Holds (μ : Bindings V) (t : Triple) : Prop :=
  ∃ s p o, g.value? μ t.subject = some s ∧ g.value? μ t.predicate = some p ∧
    g.value? μ t.object = some o ∧ g.Fact s p o

/-- The comparison of two terms holds.  It does not if one of them has no value. -/
def relates (μ : Bindings V) (sign : Comparison) (left right : Term) : Bool :=
  match g.value? μ left, g.value? μ right with
  | some a, some b => g.compares sign a b
  | _, _ => false

/-- The condition is true. -/
def accepts (μ : Bindings V) (c : Condition) : Bool := c.eval (g.relates μ)

mutual

/-- The answers to a pattern as a group of its own. -/
def answers : Pattern → Set (Bindings V)
  | .basic triples =>
    {μ | (∀ v, (μ v).isSome ↔ v ∈ tripleVariables triples) ∧ ∀ t ∈ triples, g.Holds μ t}
  | .filter condition => {μ | μ = .empty ∧ g.accepts μ condition = true}
  | .group members =>
    {μ | μ ∈ joined members ∧ ∀ c ∈ members.filterMap asFilter?, g.accepts μ c = true}
  | .union members => alternatives members

/-- What the members of a group bind together, before its filters. -/
def joined : List Pattern → Set (Bindings V)
  | [] => {.empty}
  | p :: ps => if p.isFilter then joined ps else Bindings.join (answers p) (joined ps)

/-- The answers to the alternatives of a union. -/
def alternatives : List Pattern → Set (Bindings V)
  | [] => ∅
  | p :: ps => answers p ∪ alternatives ps

end

/-! ## Triples -/

section

variable {g} {μ ν : Bindings V}

/-- A fact depends on the variables of the triple alone. -/
theorem Holds.congr {t : Triple} (h : g.Holds μ t) (same : ∀ v ∈ tripleVariables [t], ν v = μ v) :
    g.Holds ν t := by
  have value : ∀ term ∈ t.terms, g.value? ν term = g.value? μ term := by
    intro term mem
    match term, mem with
    | .variable v, mem =>
      refine same v (List.mem_filterMap.2 ⟨.variable v, ?_, rfl⟩)
      simpa using mem
    | .iri _, _ => rfl
    | .literal _, _ => rfl
  obtain ⟨s, p, o, hs, hp, ho, fact⟩ := h
  refine ⟨s, p, o, ?_, ?_, ?_, fact⟩
  · rw [value t.subject (by simp [Triple.terms]), hs]
  · rw [value t.predicate (by simp [Triple.terms]), hp]
  · rw [value t.object (by simp [Triple.terms]), ho]

/-- Answers to triples bind the variables of the triples, so that all of them are facts. -/
theorem mem_answers_basic {triples : List Triple} : μ ∈ g.answers (.basic triples) ↔
    (∀ v, (μ v).isSome ↔ v ∈ tripleVariables triples) ∧ ∀ t ∈ triples, g.Holds μ t := by
  rw [answers]
  rfl

/-- Answers to a group are bound by its members together, and all its filters hold. -/
theorem mem_answers_group {members : List Pattern} : μ ∈ g.answers (.group members) ↔
    μ ∈ g.joined members ∧ ∀ c ∈ members.filterMap asFilter?, g.accepts μ c = true := by
  rw [answers]
  rfl

/-- A union has the answers to its alternatives and no others. -/
theorem mem_answers_union {members : List Pattern} :
    μ ∈ g.answers (.union members) ↔ ∃ p ∈ members, μ ∈ g.answers p := by
  rw [answers]
  induction members with
  | nil => simp [alternatives]
  | cons p ps ih =>
    rw [alternatives, Set.mem_union, ih]
    simp only [List.mem_cons, exists_eq_or_imp]

/-- The variables of two lists of triples are those of either list. -/
theorem mem_tripleVariables_append {as bs : List Triple} {v : Variable} :
    v ∈ tripleVariables (as ++ bs) ↔ v ∈ tripleVariables as ∨ v ∈ tripleVariables bs := by
  rw [tripleVariables, List.flatMap_append, List.filterMap_append, List.mem_append]
  rfl

/-- The variables of a triple are among those of the triples. -/
theorem mem_tripleVariables_of_mem {ts : List Triple} {t : Triple} (mem : t ∈ ts) {v : Variable}
    (h : v ∈ tripleVariables [t]) : v ∈ tripleVariables ts := by
  obtain ⟨pre, post, rfl⟩ := List.append_of_mem mem
  rw [← List.singleton_append, mem_tripleVariables_append, mem_tripleVariables_append]
  exact .inr (.inl h)

/-- Bindings for which triples are facts give an answer to the triples, once other variables are
dropped. -/
theorem mem_answers_basic_restrict {ts : List Triple}
    (bound : ∀ v ∈ tripleVariables ts, (μ v).isSome = true) (holds : ∀ t ∈ ts, g.Holds μ t) :
    μ.restrict (tripleVariables ts) ∈ g.answers (.basic ts) := by
  refine mem_answers_basic.2 ⟨fun v => ?_, fun t mem => ?_⟩
  · rw [Bindings.restrict]
    split
    · next h => exact iff_of_true (bound v h) h
    · next h => exact iff_of_false nofun h
  · refine (holds t mem).congr fun v hv => ?_
    exact Bindings.restrict_of_mem (mem_tripleVariables_of_mem mem hv) μ

/-- Triples stay facts where more is bound. -/
theorem holds_of_mem_answers {ts : List Triple} (h : μ ∈ g.answers (.basic ts))
    (more : ∀ v x, μ v = some x → ν v = some x) : ∀ t ∈ ts, g.Holds ν t := by
  obtain ⟨bound, holds⟩ := mem_answers_basic.1 h
  intro t mem
  refine (holds t mem).congr fun v hv => ?_
  obtain ⟨x, hx⟩ := Option.isSome_iff_exists.1
    ((bound v).2 (mem_tripleVariables_of_mem mem hv))
  rw [hx, more v x hx]

end

/-- No triples ask for nothing. -/
theorem answers_basic_nil : g.answers (.basic []) = {.empty} := by
  ext μ
  rw [mem_answers_basic]
  constructor
  · rintro ⟨bound, -⟩
    have unbound : ∀ v, μ v = none := by
      intro v
      rw [← Option.not_isSome_iff_eq_none, bound v]
      nofun
    exact funext unbound
  · rintro rfl
    exact ⟨fun _ => iff_of_false nofun nofun, nofun⟩

/-- **Triples may be taken apart anywhere.** -/
theorem answers_basic_append (as bs : List Triple) : g.answers (.basic (as ++ bs)) =
    Bindings.join (g.answers (.basic as)) (g.answers (.basic bs)) := by
  ext μ
  constructor
  · intro h
    obtain ⟨bound, holds⟩ := mem_answers_basic.1 h
    have first : μ.restrict (tripleVariables as) ∈ g.answers (.basic as) :=
      mem_answers_basic_restrict (fun v hv => (bound v).2 (mem_tripleVariables_append.2 (.inl hv)))
        fun t mem => holds t (List.mem_append_left bs mem)
    have second : μ.restrict (tripleVariables bs) ∈ g.answers (.basic bs) :=
      mem_answers_basic_restrict (fun v hv => (bound v).2 (mem_tripleVariables_append.2 (.inr hv)))
        fun t mem => holds t (List.mem_append_right as mem)
    have agree : (μ.restrict (tripleVariables as)).Compatible (μ.restrict (tripleVariables bs)) := by
      intro v x y hx hy
      have same := (Bindings.eq_of_restrict hx).symm.trans (Bindings.eq_of_restrict hy)
      exact Option.some.inj same
    refine ⟨_, first, _, second, agree, funext fun v => ?_⟩
    cases hv : μ v with
    | some x =>
      -- A variable that is bound is one of a triple on either side.
      rcases mem_tripleVariables_append.1 ((bound v).1 (by rw [hv]; rfl)) with mem | mem
      · rw [Bindings.union_of_left (by rw [Bindings.restrict_of_mem mem, hv])]
      · rw [Bindings.union_of_right agree (by rw [Bindings.restrict_of_mem mem, hv])]
    | none =>
      have neither : ∀ vs, μ.restrict vs v = none := by
        intro vs
        rw [Bindings.restrict, hv, ite_self]
      rw [Bindings.union, neither, neither, Option.or_none]
  · rintro ⟨a, ha, b, hb, agree, rfl⟩
    refine mem_answers_basic.2 ⟨fun v => ?_, fun t mem => ?_⟩
    · rw [mem_tripleVariables_append, ← (mem_answers_basic.1 ha).1, ← (mem_answers_basic.1 hb).1,
        Bindings.union, Option.isSome_or, Bool.or_eq_true]
    · rcases List.mem_append.1 mem with mem | mem
      · exact holds_of_mem_answers ha (fun v x h => Bindings.union_of_left h b) t mem
      · exact holds_of_mem_answers hb (fun v x h => Bindings.union_of_right agree h) t mem

/-! ## Groups -/

/-- **Members of a group bind together what the parts of their list do.** -/
theorem joined_append (as bs : List Pattern) :
    g.joined (as ++ bs) = Bindings.join (g.joined as) (g.joined bs) := by
  induction as with
  | nil => rw [List.nil_append, joined, Bindings.empty_join]
  | cons p ps ih =>
    rw [List.cons_append, joined, joined, ih]
    split
    · rfl
    · rw [Bindings.join_assoc]

/-- Members of which each is no filter ask for nothing but what they bind. -/
theorem joined_singleton {p : Pattern} (h : p.isFilter = false) :
    g.joined [p] = g.answers p := by
  rw [joined, h, if_neg Bool.false_ne_true, joined, Bindings.join_empty]

/-- Two lists of members are the same to every group that they may stand in: they bind the same
together, and their filters are true together. -/
structure Alike (as bs : List Pattern) : Prop where
  joined : g.joined as = g.joined bs
  filters : ∀ μ, (∀ c ∈ as.filterMap asFilter?, g.accepts μ c = true) ↔
    ∀ c ∈ bs.filterMap asFilter?, g.accepts μ c = true

namespace Alike

variable {g} {as bs cs ds : List Pattern}

theorem refl (as : List Pattern) : g.Alike as as := ⟨rfl, fun _ => Iff.rfl⟩

/-- Lists of members are alike if they are made of alike parts. -/
theorem append (first : g.Alike as bs) (second : g.Alike cs ds) :
    g.Alike (as ++ cs) (bs ++ ds) where
  joined := by rw [joined_append, joined_append, first.joined, second.joined]
  filters μ := by
    rw [List.filterMap_append, List.filterMap_append, List.forall_mem_append,
      List.forall_mem_append, first.filters, second.filters]

/-- Groups of alike members have the same answers. -/
theorem answers_group (h : g.Alike as bs) : g.answers (.group as) = g.answers (.group bs) := by
  ext μ
  rw [mem_answers_group, mem_answers_group, h.joined, h.filters]

end Alike

/-- Patterns that are no filters are alike if they have the same answers. -/
theorem alike_of_answers {p q : Pattern} (hp : p.isFilter = false) (hq : q.isFilter = false)
    (h : g.answers p = g.answers q) : g.Alike [p] [q] where
  joined := by rw [g.joined_singleton hp, g.joined_singleton hq, h]
  filters μ := by
    have none : ∀ r : Pattern, r.isFilter = false → [r].filterMap asFilter? = [] := by
      intro r hr
      cases r with
      | filter => cases hr
      | _ => rfl
    rw [none p hp, none q hq]

/-- Filters are alike if their conditions are true together. -/
theorem alike_of_accepts {c d : Condition} (h : ∀ μ, g.accepts μ c = g.accepts μ d) :
    g.Alike [.filter c] [.filter d] where
  joined := rfl
  filters μ := by
    have only : ∀ c, [Pattern.filter c].filterMap asFilter? = [c] := fun _ => rfl
    rw [only, only, List.forall_mem_singleton, List.forall_mem_singleton, h μ]

/-- **A group with one member stands for the member.** -/
theorem answers_group_singleton (p : Pattern) : g.answers (.group [p]) = g.answers p := by
  ext μ
  rw [mem_answers_group]
  match p with
  | .filter c =>
    have only : [Pattern.filter c].filterMap asFilter? = [c] := rfl
    have skipped : g.joined [.filter c] = {.empty} := by
      rw [joined, if_pos (show (Pattern.filter c).isFilter = true from rfl), joined]
    rw [only, skipped, List.forall_mem_singleton, answers]
    rfl
  | .basic ts => rw [g.joined_singleton rfl]; exact and_iff_left nofun
  | .group ps => rw [g.joined_singleton rfl]; exact and_iff_left nofun
  | .union ps => rw [g.joined_singleton rfl]; exact and_iff_left nofun

end Graph

end Sparql
end DateFacet
