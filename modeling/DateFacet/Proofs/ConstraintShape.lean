/-
# What a constraint is made of

The class and the names of the variables settle the shape of a constraint, or why there is none,
before any range is looked at (`Properties.shape`).  The range only fills its bounds in
(`Range.patterns_eq_map_shape`).  So a failure is one for all ranges, and a session that compiles
all of its ranges for a class fails as it does for the first of them
(`Session.allPatterns_iff_patterns`).

What the constraint holds follows from its shape:

| shape | branches | named nodes | literals |
| --- | --- | --- | --- |
| direct | a filter | none | start, stop |
| overlap | a group | start, end | stop, start |
| overlap or exact | two groups | start, end, exact date | stop, start, start, stop |

A query leaves its own triple for the subject out if the class has an extent.  Exactly then every
branch of the constraint has triples about the subject (`Range.patterns_link_iff_blocking`).
-/

import DateFacet.Proofs.Names
import DateFacet.Proofs.RangeKey
import DateFacet.Session

namespace DateFacet

open Outcome (bind_eq_ok_iff map_eq_ok_iff)
open Sparql

/-! ## The shape is settled without the range -/

namespace Properties

/-- The shape of the constraint for a class. -/
def shape (p : Properties) (subjectName objectName : String) :
    Except CompileError Range.Shape := do
  let subject ← Variable.ofText subjectName
  let object ← Variable.ofText objectName
  match p.beginDate, p.endDate with
  | some beginText, some endText =>
    let first ← Iri.ofText beginText
    let last ← Iri.ofText endText
    match p.exactDate with
    | some exactText => return .overlapOrExact subject object first last (← Iri.ofText exactText)
    | none => return .overlap subject object first last
  | _, _ => return .direct object

/-- The configured texts, in the order start, end, exact date. -/
def texts (p : Properties) : List String :=
  p.beginDate.toList ++ p.endDate.toList ++ p.exactDate.toList

end Properties

namespace Range

/-- **A range only fills its bounds in.**  Whether there is a constraint, or why there is none, is
the same for all ranges. -/
theorem patterns_eq_map_shape (r : Range) (p : Properties) (subjectName objectName : String) :
    r.patterns p subjectName objectName =
      (fun shape => [shape.pattern r]) <$> p.shape subjectName objectName := by
  rw [patterns, requireBound_range, pure_bind, Properties.shape, map_bind]
  refine bind_congr fun subject => ?_
  rw [map_bind]
  refine bind_congr fun object => ?_
  obtain ⟨_ | beginText, _ | endText, exactText⟩ := p
  · rfl
  · rfl
  · rfl
  · simp only [map_bind]
    refine bind_congr fun first => bind_congr fun last => ?_
    cases exactText with
    | none => rfl
    | some text => simp only [map_bind]; rfl

end Range

/-! ## What the shapes hold -/

namespace Sparql

/-- The terms of joined conditions are those of the conditions. -/
theorem Condition.terms_all? (cs : List Condition) :
    ((all? cs).map terms).getD [] = cs.flatMap terms := by
  cases cs with
  | nil => rfl
  | cons c cs =>
    obtain ⟨joined, hjoined, terms⟩ := exists_all? (List.cons_ne_nil c cs)
    rw [hjoined, ← terms]
    rfl

namespace Pattern

/-- The alternatives of a union; any other pattern is its only one. -/
def branches : Pattern → List Pattern
  | .union members => members
  | p => [p]

/-- The named nodes of a union are those of its alternatives in turn. -/
theorem iris_union (ps : List Pattern) : (union ps).iris = ps.flatMap iris := by
  rw [iris, terms, memberTerms_eq, List.filterMap_flatMap]
  rfl

theorem literals_union (ps : List Pattern) : (union ps).literals = ps.flatMap literals := by
  rw [literals, terms, memberTerms_eq, List.filterMap_flatMap]
  rfl

end Pattern
end Sparql

namespace Range

/-- A filtered group has the terms of its triples and then those of its conditions. -/
theorem terms_filtered (triples : List Triple) (cs : List Condition) :
    (filtered triples cs).terms = triples.flatMap Triple.terms ++ cs.flatMap Condition.terms := by
  rw [filtered, Pattern.terms, Pattern.memberTerms, Pattern.terms, ← Condition.terms_all?]
  cases Condition.all? cs <;> simp [Pattern.memberTerms, Pattern.terms]

section

variable (r : Range) (subject object : Variable) (first last exact : Iri)

/-- The conditions on a value name no node, and their literals are the start and the stop. -/
theorem terms_within (v : Variable) :
    ((r.within v).flatMap Condition.terms).filterMap Term.asIri? = [] ∧
      ((r.within v).flatMap Condition.terms).filterMap Term.asLiteral? =
        (r.start.toList ++ r.stop.toList).map Instant.literal := by
  rw [within]
  cases r.start <;> cases r.stop <;> exact ⟨rfl, rfl⟩

/-- The conditions on an extent name no node, and their literals are the stop and the start. -/
theorem terms_overlaps (u v : Variable) :
    ((r.overlaps u v).flatMap Condition.terms).filterMap Term.asIri? = [] ∧
      ((r.overlaps u v).flatMap Condition.terms).filterMap Term.asLiteral? =
        (r.stop.toList ++ r.start.toList).map Instant.literal := by
  rw [overlaps]
  cases r.start <;> cases r.stop <;> exact ⟨rfl, rfl⟩

/-- The overlap has the properties of the start and of the end for its only named nodes. -/
theorem iris_overlapPattern :
    (r.overlapPattern subject object first last).iris = [first, last] := by
  rw [Pattern.iris, overlapPattern, terms_filtered, List.filterMap_append, (terms_overlaps ..).1]
  rfl

/-- The overlap has a literal for each bound, the stop before the start. -/
theorem literals_overlapPattern : (r.overlapPattern subject object first last).literals =
    (r.stop.toList ++ r.start.toList).map Instant.literal := by
  rw [Pattern.literals, overlapPattern, terms_filtered, List.filterMap_append,
    (terms_overlaps ..).2]
  rfl

/-- The exact date has its property for its only named node. -/
theorem iris_exactPattern : (r.exactPattern subject object exact).iris = [exact] := by
  rw [Pattern.iris, exactPattern, terms_filtered, List.filterMap_append, (terms_within ..).1]
  rfl

/-- The exact date has a literal for each bound, the start before the stop. -/
theorem literals_exactPattern : (r.exactPattern subject object exact).literals =
    (r.start.toList ++ r.stop.toList).map Instant.literal := by
  rw [Pattern.literals, exactPattern, terms_filtered, List.filterMap_append, (terms_within ..).2]
  rfl

/-- The constraint on the object variable is a filter on the start and the stop, without nodes. -/
theorem terms_directPattern : (r.directPattern object).isFilter = true ∧
    (r.directPattern object).triples = [] ∧ (r.directPattern object).iris = [] ∧
      (r.directPattern object).literals =
        (r.start.toList ++ r.stop.toList).map Instant.literal := by
  obtain ⟨c, hc, filter⟩ := r.exists_directPattern object
  have terms := Condition.terms_all? (r.within object)
  rw [hc, Option.map_some, Option.getD_some] at terms
  obtain ⟨iris, literals⟩ := r.terms_within object
  rw [← terms] at iris literals
  rw [filter]
  exact ⟨rfl, rfl, iris, literals⟩

end

namespace Shape

/-- The named nodes of the constraints of a shape. -/
def nodes : Shape → List Iri
  | direct _ => []
  | overlap _ _ first last => [first, last]
  | overlapOrExact _ _ first last exact => [first, last, exact]

/-- The bounds of a range in the order in which its constraint of a shape has them. -/
def bounds (r : Range) : Shape → List Instant
  | direct _ => r.start.toList ++ r.stop.toList
  | overlap _ _ _ _ => r.stop.toList ++ r.start.toList
  | overlapOrExact _ _ _ _ _ => r.stop.toList ++ r.start.toList ++ (r.start.toList ++ r.stop.toList)

/-- The constraint of a shape has the named nodes of the shape. -/
theorem iris_pattern (r : Range) (shape : Shape) : (shape.pattern r).iris = shape.nodes := by
  cases shape with
  | direct object => exact (r.terms_directPattern object).2.2.1
  | overlap subject object first last => exact r.iris_overlapPattern subject object first last
  | overlapOrExact subject object first last exact =>
    rw [pattern, Pattern.iris_union, List.flatMap_cons, List.flatMap_cons, List.flatMap_nil,
      iris_overlapPattern, iris_exactPattern]
    rfl

/-- The constraint of a shape has the bounds of the range for its literals. -/
theorem literals_pattern (r : Range) (shape : Shape) :
    (shape.pattern r).literals = (shape.bounds r).map Instant.literal := by
  cases shape with
  | direct object => exact (r.terms_directPattern object).2.2.2
  | overlap subject object first last => exact r.literals_overlapPattern subject object first last
  | overlapOrExact subject object first last exact =>
    rw [pattern, Pattern.literals_union, List.flatMap_cons, List.flatMap_cons, List.flatMap_nil,
      literals_overlapPattern, literals_exactPattern, List.append_nil, bounds,
      ← List.map_append]

end Shape

/-- What the names and the properties of a class say of the shape of its constraint. -/
inductive HasShape (subject object : Variable) : Properties → Shape → Prop
  | direct {p : Properties} (lacks : p.isBlocking = false) : HasShape subject object p (.direct object)
  | overlap {beginText endText : String} {first last : Iri}
      (hfirst : Iri.ofText beginText = .ok first) (hlast : Iri.ofText endText = .ok last) :
      HasShape subject object ⟨some beginText, some endText, none⟩
        (.overlap subject object first last)
  | overlapOrExact {beginText endText exactText : String} {first last exact : Iri}
      (hfirst : Iri.ofText beginText = .ok first) (hlast : Iri.ofText endText = .ok last)
      (hexact : Iri.ofText exactText = .ok exact) :
      HasShape subject object ⟨some beginText, some endText, some exactText⟩
        (.overlapOrExact subject object first last exact)

/-- A shape is found from names and properties that have it. -/
theorem hasShape_of_shape {p : Properties} {subjectName objectName : String} {shape : Shape}
    (h : p.shape subjectName objectName = .ok shape) :
    ∃ subject object, Variable.ofText subjectName = .ok subject ∧
      Variable.ofText objectName = .ok object ∧ HasShape subject object p shape := by
  obtain ⟨subject, hsubject, h⟩ := bind_eq_ok_iff.1 h
  obtain ⟨object, hobject, h⟩ := bind_eq_ok_iff.1 h
  refine ⟨subject, object, hsubject, hobject, ?_⟩
  obtain ⟨_ | beginText, _ | endText, exactText⟩ := p
  · cases h
    exact .direct rfl
  · cases h
    exact .direct rfl
  · cases h
    exact .direct rfl
  · obtain ⟨first, hfirst, h⟩ := bind_eq_ok_iff.1 h
    obtain ⟨last, hlast, h⟩ := bind_eq_ok_iff.1 h
    cases exactText with
    | none =>
      cases h
      exact .overlap hfirst hlast
    | some text =>
      obtain ⟨exact, hexact, h⟩ := bind_eq_ok_iff.1 h
      cases h
      exact .overlapOrExact hfirst hlast hexact

/-! ## Blocking -/

section

variable {p : Properties} {subject object : Variable} {shape : Shape}

/-- Each branch for a class with an extent is about the subject. -/
theorem HasShape.branches_linked (has : HasShape subject object p shape)
    (blocks : p.isBlocking = true) (r : Range) :
    ∀ branch ∈ (shape.pattern r).branches,
      branch.triples ≠ [] ∧ ∀ t ∈ branch.triples, t.subject = .variable subject := by
  intro branch mem
  cases has with
  | direct lacks =>
    rw [lacks] at blocks
    cases blocks
  | @overlap _ _ first last =>
    have eq : branch = r.overlapPattern subject object first last := List.mem_singleton.1 mem
    rw [eq, overlapPattern, triples_filtered]
    simp
  | overlapOrExact =>
    rcases List.mem_pair.1 mem with rfl | rfl
    · rw [overlapPattern, triples_filtered]
      simp
    · rw [exactPattern, triples_filtered]
      simp

/-- Only an exact date makes a union. -/
theorem HasShape.isUnion_iff (has : HasShape subject object p shape)
    (blocks : p.isBlocking = true) (r : Range) :
    (shape.pattern r).isUnion = true ↔ p.exactDate.isSome = true := by
  cases has with
  | direct lacks =>
    rw [lacks] at blocks
    cases blocks
  | overlap => exact iff_of_false nofun nofun
  | overlapOrExact => exact iff_of_true rfl rfl

/-- The named nodes of a class with an extent are all its properties. -/
theorem HasShape.map_text_nodes (has : HasShape subject object p shape)
    (blocks : p.isBlocking = true) : shape.nodes.map Iri.text = p.texts.map Text.trim := by
  cases has with
  | direct lacks =>
    rw [lacks] at blocks
    cases blocks
  | overlap hfirst hlast =>
    simp [Shape.nodes, Properties.texts, Iri.text_of_ofText hfirst, Iri.text_of_ofText hlast]
  | overlapOrExact hfirst hlast hexact =>
    simp [Shape.nodes, Properties.texts, Iri.text_of_ofText hfirst, Iri.text_of_ofText hlast,
      Iri.text_of_ofText hexact]

/-- Both branches of a class with an extent are about the bounds, in their own orders. -/
theorem HasShape.bounds_eq (has : HasShape subject object p shape) (blocks : p.isBlocking = true)
    (r : Range) : shape.bounds r = r.stop.toList ++ r.start.toList ++
      if p.exactDate.isSome then r.start.toList ++ r.stop.toList else [] := by
  cases has with
  | direct lacks =>
    rw [lacks] at blocks
    cases blocks
  | overlap => exact (List.append_nil _).symm
  | overlapOrExact => rfl

/-- A class without an extent has its constraint on the object variable. -/
theorem HasShape.eq_direct (has : HasShape subject object p shape) (lacks : p.isBlocking = false) :
    shape = .direct object := by
  cases has with
  | direct => rfl
  | overlap => cases lacks
  | overlapOrExact => cases lacks

end

/-- **A constraint links its subject exactly if the class blocks the triple of the query.**  It is
one pattern.  For a class that blocks, each branch has triples, all of them about the subject; a
second branch is there exactly for an exact date; and the named nodes are the configured texts, in
order and without the blanks around them.  For any other class it is a filter without triples,
and mentions no node at all.  The literals are the written bounds that there are, as dates with
times. -/
theorem patterns_link_iff_blocking {r : Range} {p : Properties} {subjectName objectName : String}
    {ps : List Pattern} (h : r.patterns p subjectName objectName = .ok ps) :
    ∃ subject pattern, Variable.ofText subjectName = .ok subject ∧ ps = [pattern] ∧
      (∀ l ∈ pattern.literals, l.datatype = .dateTime) ∧
      (p.isBlocking = true →
        (∀ branch ∈ pattern.branches, branch.triples ≠ [] ∧
          ∀ t ∈ branch.triples, t.subject = .variable subject) ∧
        (pattern.isUnion = true ↔ p.exactDate.isSome = true) ∧
        pattern.iris.map Iri.text = p.texts.map Text.trim ∧
        pattern.literals.map Literal.lexical = (r.stop.toList ++ r.start.toList ++
          if p.exactDate.isSome then r.start.toList ++ r.stop.toList else []).map Instant.text) ∧
      (p.isBlocking = false →
        pattern.isFilter = true ∧ pattern.triples = [] ∧ pattern.iris = [] ∧
        (∀ iri, pattern.mentions iri = false) ∧
        pattern.literals.map Literal.lexical =
          (r.start.toList ++ r.stop.toList).map Instant.text) := by
  rw [patterns_eq_map_shape] at h
  obtain ⟨shape, hshape, rfl⟩ := map_eq_ok_iff.1 h
  obtain ⟨subject, object, hsubject, -, has⟩ := hasShape_of_shape hshape
  have literals := shape.literals_pattern r
  have lexical : (shape.pattern r).literals.map Literal.lexical =
      (shape.bounds r).map Instant.text := by
    rw [literals, List.map_map]
    rfl
  refine ⟨subject, shape.pattern r, hsubject, rfl, fun l mem => ?_, fun blocks => ?_,
    fun lacks => ?_⟩
  · rw [literals] at mem
    obtain ⟨t, -, rfl⟩ := List.mem_map.1 mem
    rfl
  · refine ⟨has.branches_linked blocks r, has.isUnion_iff blocks r, ?_, ?_⟩
    · rw [shape.iris_pattern r, has.map_text_nodes blocks]
    · rw [lexical, has.bounds_eq blocks]
  · obtain rfl := has.eq_direct lacks
    obtain ⟨filter, triples, iris, -⟩ := r.terms_directPattern object
    refine ⟨filter, triples, iris, fun iri => ?_, lexical⟩
    rw [Pattern.mentions, Shape.pattern, iris]
    rfl

/-- The statements of `patterns_link_iff_blocking` at a class with all three dates, one of them with
blanks around it: both branches name the bound that there is. -/
theorem patterns_link_iff_blocking_reign :
    ∃ pattern, (since (.midnight 1850 1 1 (by decide) (by decide) (by decide))).patterns
        ⟨some "ex:begin", some " ex:end ", some "ex:exact"⟩ "?it" "date" = .ok [pattern] ∧
      pattern.isUnion = true ∧ pattern.iris.map Iri.text = ["ex:begin", "ex:end", "ex:exact"] ∧
      pattern.literals.map Literal.lexical =
        ["1850-01-01T00:00:00Z", "1850-01-01T00:00:00Z"] := by
  obtain ⟨first, hfirst⟩ : ∃ i, Iri.ofText "ex:begin" = .ok i := ⟨_, rfl⟩
  obtain ⟨last, hlast⟩ : ∃ i, Iri.ofText " ex:end " = .ok i := ⟨_, rfl⟩
  obtain ⟨exact, hexact⟩ : ∃ i, Iri.ofText "ex:exact" = .ok i := ⟨_, rfl⟩
  have compiled := patterns_of_extent (since (.midnight 1850 1 1 (by decide) (by decide)
    (by decide))) (by decide +kernel : Variable.ofText "?it" = .ok ⟨"it"⟩)
    (by decide +kernel : Variable.ofText "date" = .ok ⟨"date"⟩) hfirst hlast
    (by rw [Option.mapM_some, hexact]; rfl : Option.mapM Iri.ofText (some "ex:exact") = .ok _)
  obtain ⟨subject, pattern, -, hps, -, blocks, -⟩ := patterns_link_iff_blocking compiled
  obtain ⟨-, union, iris, literals⟩ := blocks rfl
  rw [hps] at compiled
  refine ⟨pattern, compiled, union.2 rfl, iris.trans ?_, literals.trans ?_⟩ <;> decide +kernel

end Range

/-! ## All ranges of a session -/

namespace Session

variable {s : Session} {className subject object : String}

/-- A constraint for one range is one for all. -/
theorem allPatterns_of_shape {shape : Range.Shape}
    (h : (s.catalogue.resolve className).shape subject object = .ok shape) :
    s.allPatterns className subject object = .ok (s.values.map fun r => [shape.pattern r]) := by
  simp only [allPatterns, Range.patterns_eq_map_shape, h]
  exact List.mapM_pure

/-- Without a constraint for a class nothing is compiled, unless there is nothing to compile. -/
theorem allPatterns_of_error {e : CompileError}
    (h : (s.catalogue.resolve className).shape subject object = .error e) :
    s.allPatterns className subject object = if s.values = [] then .ok [] else .error e := by
  simp only [allPatterns, Range.patterns_eq_map_shape, h]
  cases s.values <;> rfl

/-- The constraint of a value is the one of its range in the shape of the class. -/
theorem patterns_of_lt {i : Nat} (hi : i < s.values.length) :
    s.patterns i className subject object = (fun shape => [shape.pattern s.values[i]]) <$>
      (s.catalogue.resolve className).shape subject object := by
  rw [patterns, List.getElem?_eq_getElem hi]
  exact Range.patterns_eq_map_shape _ _ _ _

/-- An index beyond the values is refused before any name is looked at. -/
theorem patterns_of_le {i : Nat} (hi : s.values.length ≤ i) (className subject object : String) :
    s.patterns i className subject object = .error (.indexOutOfRange i s.values.length) := by
  rw [patterns, List.getElem?_eq_none hi]

/-- With a constraint for the class, all lists are those of the ranges in their order. -/
theorem allPatterns_eq_ok_iff_of_shape {shape : Range.Shape} {lists : List (List Pattern)}
    (h : (s.catalogue.resolve className).shape subject object = .ok shape) :
    s.allPatterns className subject object = .ok lists ↔ lists.length = s.values.length ∧
      ∀ i (hi : i < lists.length), s.patterns i className subject object = .ok lists[i] := by
  have one : ∀ i (hi : i < s.values.length),
      s.patterns i className subject object = .ok [shape.pattern s.values[i]] := by
    intro i hi
    rw [patterns_of_lt hi, h]
    rfl
  rw [allPatterns_of_shape h]
  constructor
  · intro eq
    obtain rfl := Except.ok.inj eq
    refine ⟨List.length_map .., fun i hi => ?_⟩
    rw [List.length_map] at hi
    rw [List.getElem_map, one i hi]
  · rintro ⟨length, each⟩
    refine congrArg Except.ok (List.ext_getElem (by rw [List.length_map, length]) ?_)
    intro i hi hi'
    rw [List.length_map] at hi
    rw [List.getElem_map]
    exact Except.ok.inj ((one i hi).symm.trans (each i hi'))

/-- Without a constraint for the class there are lists only where there is no range. -/
theorem allPatterns_eq_ok_iff_of_error {e : CompileError} {lists : List (List Pattern)}
    (h : (s.catalogue.resolve className).shape subject object = .error e) :
    s.allPatterns className subject object = .ok lists ↔ lists.length = s.values.length ∧
      ∀ i (hi : i < lists.length), s.patterns i className subject object = .ok lists[i] := by
  rw [allPatterns_of_error h]
  by_cases empty : s.values = []
  · rw [if_pos empty, empty]
    constructor
    · intro eq
      obtain rfl := Except.ok.inj eq
      exact ⟨rfl, fun i hi => absurd hi (Nat.not_lt_zero i)⟩
    · rintro ⟨length, -⟩
      rw [List.eq_nil_of_length_eq_zero length]
  · rw [if_neg empty]
    constructor
    · nofun
    · rintro ⟨length, each⟩
      -- There is a first range, and it has no constraint.
      have hi : 0 < s.values.length := List.length_pos_iff.2 empty
      have first := each 0 (length ▸ hi)
      rw [patterns_of_lt hi, h] at first
      cases first

/-- **All constraints are the constraints one by one**, as many as there are values. -/
theorem allPatterns_eq_ok_iff {lists : List (List Pattern)} :
    s.allPatterns className subject object = .ok lists ↔ lists.length = s.values.length ∧
      ∀ i (hi : i < lists.length), s.patterns i className subject object = .ok lists[i] := by
  cases h : (s.catalogue.resolve className).shape subject object with
  | ok shape => exact allPatterns_eq_ok_iff_of_shape h
  | error e => exact allPatterns_eq_ok_iff_of_error h

/-- All constraints fail as the shape of the class does, and only if there is a value. -/
theorem allPatterns_eq_error_iff {e : CompileError} :
    s.allPatterns className subject object = .error e ↔
      s.values ≠ [] ∧ (s.catalogue.resolve className).shape subject object = .error e := by
  cases h : (s.catalogue.resolve className).shape subject object with
  | ok shape =>
    rw [allPatterns_of_shape h]
    exact iff_of_false nofun fun ⟨_, eq⟩ => nomatch eq
  | error cause =>
    rw [allPatterns_of_error h]
    by_cases empty : s.values = []
    · rw [if_pos empty]
      exact iff_of_false nofun fun ⟨ne, _⟩ => ne empty
    · rw [if_neg empty, and_iff_right empty]
      constructor <;> rintro ⟨⟩ <;> rfl

/-- The failure of one range is that of the class. -/
theorem patterns_eq_error_iff {i : Nat} (hi : i < s.values.length) {e : CompileError} :
    s.patterns i className subject object = .error e ↔
      (s.catalogue.resolve className).shape subject object = .error e := by
  rw [patterns_of_lt hi]
  cases (s.catalogue.resolve className).shape subject object with
  | ok shape => exact iff_of_false nofun nofun
  | error cause => constructor <;> rintro ⟨⟩ <;> rfl

/-- **All constraints are those of the ranges one by one.**  A session compiles its ranges for a
class to one list for each of them, in their order, and the list of a range is the one that the
range alone has.  It fails exactly if there is a range and the first one fails.  Then every other
one fails too, and all in the same way.  Where there is no range, the failure names the place and
how many ranges there are, whatever else is asked. -/
theorem allPatterns_iff_patterns (s : Session) (className subject object : String) :
    (∀ lists, s.allPatterns className subject object = .ok lists ↔
      lists.length = s.values.length ∧
        ∀ i (hi : i < lists.length), s.patterns i className subject object = .ok lists[i]) ∧
    (∀ e, s.allPatterns className subject object = .error e ↔
      s.values ≠ [] ∧ s.patterns 0 className subject object = .error e) ∧
    (∀ e, s.allPatterns className subject object = .error e →
      ∀ i < s.values.length, s.patterns i className subject object = .error e) ∧
    ∀ i, s.values.length ≤ i → ∀ className subject object,
      s.patterns i className subject object = .error (.indexOutOfRange i s.values.length) := by
  refine ⟨fun _ => allPatterns_eq_ok_iff, fun e => ?_, fun e h i hi => ?_,
    fun i hi => patterns_of_le hi⟩
  · rw [allPatterns_eq_error_iff]
    refine and_congr_right fun ne => ?_
    exact (patterns_eq_error_iff (List.length_pos_iff.2 ne)).symm
  · exact (patterns_eq_error_iff hi).2 (allPatterns_eq_error_iff.1 h).2

/-- The statements of `allPatterns_iff_patterns` at two accepted ranges: both have a constraint for
an unknown class, both fail with a malformed variable, and there is no third. -/
theorem allPatterns_iff_patterns_two :
    ∃ s, s = (start .standard .empty).run [.add "1850" "", .add "" "1900"] ∧
      (∃ lists last, s.allPatterns "ex:reign" "it" "date" = .ok lists ∧ lists[1]? = some last ∧
        s.patterns 1 "ex:reign" "it" "date" = .ok last) ∧
      s.allPatterns "ex:reign" "no name" "date" = .error (.invalidVariable "no name") ∧
      s.patterns 1 "ex:reign" "no name" "date" = .error (.invalidVariable "no name") ∧
      s.patterns 2 "ex:reign" "no name" "date" = .error (.indexOutOfRange 2 2) := by
  refine ⟨_, rfl, ?_⟩
  set s := (start .standard .empty).run [.add "1850" "", .add "" "1900"] with hs
  have two : s.values.length = 2 := by decide +kernel
  have unnamed : (s.catalogue.resolve "ex:reign").shape "no name" "date" =
      .error (.invalidVariable "no name") := rfl
  obtain ⟨compiles, -⟩ := allPatterns_iff_patterns s "ex:reign" "it" "date"
  obtain ⟨-, fails, alike, beyond⟩ := allPatterns_iff_patterns s "ex:reign" "no name" "date"
  have first : s.patterns 0 "ex:reign" "no name" "date" = .error (.invalidVariable "no name") :=
    (patterns_eq_error_iff (by omega)).2 unnamed
  have failure := (fails _).2 ⟨List.length_pos_iff.1 (by omega), first⟩
  have direct : (s.catalogue.resolve "ex:reign").shape "it" "date" = .ok (.direct ⟨"date"⟩) := rfl
  have success := allPatterns_of_shape direct
  obtain ⟨length, each⟩ := (compiles _).1 success
  have none := beyond 2 (by omega) "ex:reign" "no name" "date"
  rw [two] at none
  exact ⟨⟨_, _, success, List.getElem?_eq_getElem (by omega), each 1 (by omega)⟩, failure,
    alike _ failure 1 (by omega), none⟩

end Session
end DateFacet
