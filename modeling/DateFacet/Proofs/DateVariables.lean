/-
# The variables for the dates of a fact

The constraint of a class with an extent names a variable for each date of a fact, by adding a
suffix to the name of the object variable.  That keeps the date variables apart from each other and
from the object variable, since the suffixes differ and none is empty.

The subject variable has a name of its own, which may be that of the object variable with one of
the suffixes.  Then, and only then, a date variable is the subject variable
(`Range.patterns_fresh_iff`).  Nothing refuses such a pair of names: the triples ask for a fact that
is its own date, and there is none (`Range.solutions_overlap_captured`).
-/

import DateFacet.Proofs.ConstraintMeaning
import DateFacet.Proofs.Outcome
import Mathlib.Data.List.Nodup

namespace DateFacet

open Outcome (bind_eq_ok_iff map_eq_ok_iff)
open Sparql

namespace Sparql

namespace Variable

/-- A suffix gives another variable. -/
theorem suffixed_ne_self (v : Variable) (suffix : String) : v.suffixed suffix ≠ v := by
  intro eq
  have chars := congrArg (fun u : Variable => u.name.toList.length) eq
  simp only [suffixed, String.toList_append, List.length_append] at chars
  have mark : ("_" : String).toList.length = 1 := rfl
  omega

/-- With one suffix, different variables stay different. -/
theorem suffixed_injective (v : Variable) : Function.Injective v.suffixed := by
  intro s t eq
  by_contra ne
  exact v.suffixed_ne ne eq

/-- A variable is one with a suffix if its name ends so. -/
theorem eq_suffixed_iff {u v : Variable} {suffix : String} :
    u = v.suffixed suffix ↔ u.name = v.name ++ "_" ++ suffix := by
  cases u
  simp [suffixed]

end Variable

namespace Pattern

mutual

/-- The triples of the pattern, in the order in which they are written. -/
def triples : Pattern → List Triple
  | .basic triples => triples
  | .filter _ => []
  | .group members => memberTriples members
  | .union members => memberTriples members

/-- The triples of the members, in order. -/
def memberTriples : List Pattern → List Triple
  | [] => []
  | p :: ps => p.triples ++ memberTriples ps

end

/-- The variables that stand for the value of a property, in order and as often as they occur. -/
def valueVariables (p : Pattern) : List Variable :=
  p.triples.filterMap fun t => t.object.asVariable?

/-- The value variables of a union are those of its alternatives in turn. -/
theorem valueVariables_union (ps : List Pattern) :
    (union ps).valueVariables = ps.flatMap valueVariables := by
  rw [valueVariables, triples]
  induction ps with
  | nil => rfl
  | cons p ps ih => rw [memberTriples, List.filterMap_append, ih, List.flatMap_cons, valueVariables]

end Pattern

/-- Triples that give an entity a date for each variable have these variables for values. -/
theorem filterMap_dateTriples (subject : Variable) (dates : List (Variable × Iri)) :
    (dateTriples subject dates).filterMap (fun t => t.object.asVariable?) =
      dates.map Prod.fst := by
  induction dates with
  | nil => rfl
  | cons d dates ih => exact congrArg (d.1 :: ·) ih

end Sparql

/-- The suffixes of the date variables of a class with an extent. -/
def Properties.dateSuffixes (p : Properties) : List String :=
  "begin" :: "end" :: (p.exactDate.map fun _ => "exact").toList

/-- No two dates of a class have the same suffix. -/
theorem Properties.nodup_dateSuffixes (p : Properties) : p.dateSuffixes.Nodup := by
  cases h : p.exactDate <;> simp [dateSuffixes, h]

namespace Range

/-! ## Which variables a constraint has for dates -/

/-- A filter adds no triples. -/
theorem triples_filtered (triples : List Triple) (cs : List Condition) :
    (filtered triples cs).triples = triples := by
  rw [filtered]
  cases Condition.all? cs <;> simp [Pattern.triples, Pattern.memberTriples]

/-- The overlap has a variable for the start and one for the end. -/
theorem valueVariables_overlap (r : Range) (subject object : Variable) (first last : Iri) :
    (r.overlapPattern subject object first last).valueVariables =
      [object.suffixed "begin", object.suffixed "end"] := by
  rw [Pattern.valueVariables, overlapPattern, triples_filtered]
  exact filterMap_dateTriples subject
    [(object.suffixed "begin", first), (object.suffixed "end", last)]

/-- The exact date has one variable. -/
theorem valueVariables_exact (r : Range) (subject object : Variable) (exact : Iri) :
    (r.exactPattern subject object exact).valueVariables = [object.suffixed "exact"] := by
  rw [Pattern.valueVariables, exactPattern, triples_filtered]
  exact filterMap_dateTriples subject [(object.suffixed "exact", exact)]

section

variable {r : Range} {subjectName objectName beginText endText : String}
  {exactText : Option String} {ps : List Pattern}

/-- A class with an extent has a pattern only if the names and the properties are well-formed. -/
theorem exists_of_patterns_extent
    (h : r.patterns ⟨some beginText, some endText, exactText⟩ subjectName objectName = .ok ps) :
    ∃ subject object first last exact, Variable.ofText subjectName = .ok subject ∧
      Variable.ofText objectName = .ok object ∧ Iri.ofText beginText = .ok first ∧
      Iri.ofText endText = .ok last ∧ exactText.mapM Iri.ofText = .ok exact := by
  obtain ⟨-, -, h⟩ := bind_eq_ok_iff.1 h
  obtain ⟨subject, hsubject, h⟩ := bind_eq_ok_iff.1 h
  obtain ⟨object, hobject, h⟩ := bind_eq_ok_iff.1 h
  obtain ⟨first, hfirst, h⟩ := bind_eq_ok_iff.1 h
  obtain ⟨last, hlast, h⟩ := bind_eq_ok_iff.1 h
  cases exactText with
  | none => exact ⟨subject, object, first, last, none, hsubject, hobject, hfirst, hlast, rfl⟩
  | some text =>
    obtain ⟨exact, hexact, -⟩ := bind_eq_ok_iff.1 h
    refine ⟨subject, object, first, last, some exact, hsubject, hobject, hfirst, hlast, ?_⟩
    rw [Option.mapM_some, hexact]
    rfl

/-- **The date variables of a constraint** are the object variable with each of the suffixes. -/
theorem valueVariables_of_patterns
    (h : r.patterns ⟨some beginText, some endText, exactText⟩ subjectName objectName = .ok ps) :
    ∃ subject object p, Variable.ofText subjectName = .ok subject ∧
      Variable.ofText objectName = .ok object ∧ ps = [p] ∧ p.valueVariables =
        (Properties.mk (some beginText) (some endText) exactText).dateSuffixes.map
          object.suffixed := by
  obtain ⟨subject, object, first, last, exact, hsubject, hobject, hfirst, hlast, hexact⟩ :=
    exists_of_patterns_extent h
  rw [r.patterns_of_extent hsubject hobject hfirst hlast hexact] at h
  refine ⟨subject, object, _, hsubject, hobject, (Except.ok.inj h).symm, ?_⟩
  cases exactText with
  | none =>
    obtain rfl : none = exact := Except.ok.inj hexact
    exact r.valueVariables_overlap subject object first last
  | some text =>
    rw [Option.mapM_some] at hexact
    obtain ⟨i, -, rfl⟩ := map_eq_ok_iff.1 hexact
    rw [Pattern.valueVariables_union]
    simp only [List.flatMap_cons, List.flatMap_nil, valueVariables_overlap, valueVariables_exact]
    rfl

/-- **When the date variables are fresh.**  They are different from each other and from the object
variable in any case.  They are different from the subject variable exactly if its name is not that
of the object variable, an underscore, and a suffix of a date variable. -/
theorem patterns_fresh_iff
    (h : r.patterns ⟨some beginText, some endText, exactText⟩ subjectName objectName = .ok ps) :
    ∃ subject object p, Variable.ofText subjectName = .ok subject ∧
      Variable.ofText objectName = .ok object ∧ ps = [p] ∧
      p.valueVariables.Nodup ∧ object ∉ p.valueVariables ∧
      (subject ∉ p.valueVariables ↔
        ∀ suffix ∈ (Properties.mk (some beginText) (some endText) exactText).dateSuffixes,
          subject.name ≠ object.name ++ "_" ++ suffix) := by
  obtain ⟨subject, object, p, hsubject, hobject, hps, named⟩ := valueVariables_of_patterns h
  refine ⟨subject, object, p, hsubject, hobject, hps, ?_⟩
  rw [named]
  refine ⟨List.Nodup.map object.suffixed_injective (Properties.nodup_dateSuffixes _), ?_, ?_⟩
  · intro mem
    obtain ⟨suffix, -, eq⟩ := List.mem_map.1 mem
    exact object.suffixed_ne_self suffix eq
  · simp only [List.mem_map, not_exists, not_and, ne_eq, ← Variable.eq_suffixed_iff,
      eq_comm (a := subject)]

end

/-- The hypothesis of `patterns_fresh_iff` holds of a class with all three dates, where no date
variable is the ruler. -/
theorem patterns_fresh_iff_ruler :
    ∃ p, (since (.midnight 1850 1 1 (by decide) (by decide) (by decide))).patterns
        ⟨some "ex:begin", some "ex:end", some "ex:exact"⟩ "ruler" "?date" = .ok [p] ∧
      ⟨"ruler"⟩ ∉ p.valueVariables := by
  have ruler : Variable.ofText "ruler" = .ok ⟨"ruler"⟩ := by decide +kernel
  have date : Variable.ofText "?date" = .ok ⟨"date"⟩ := by decide +kernel
  obtain ⟨first, hfirst⟩ : ∃ i, Iri.ofText "ex:begin" = .ok i := ⟨_, rfl⟩
  obtain ⟨last, hlast⟩ : ∃ i, Iri.ofText "ex:end" = .ok i := ⟨_, rfl⟩
  obtain ⟨exact, hexact⟩ : ∃ i, Iri.ofText "ex:exact" = .ok i := ⟨_, rfl⟩
  have compiled := patterns_of_extent (since (.midnight 1850 1 1 (by decide) (by decide)
    (by decide))) ruler date hfirst hlast
    (by rw [Option.mapM_some, hexact]; rfl : Option.mapM Iri.ofText (some "ex:exact") = .ok _)
  obtain ⟨subject, object, p, hsubject, hobject, hps, -, -, fresh⟩ := patterns_fresh_iff compiled
  obtain rfl := Except.ok.inj (ruler.symm.trans hsubject)
  obtain rfl := Except.ok.inj (date.symm.trans hobject)
  rw [hps] at compiled
  exact ⟨p, compiled, fresh.2 (by decide +kernel)⟩

/-! ## What becomes of a captured subject -/

/-- A triple whose value is its own subject matches no fact. -/
theorem not_holds_self {N : Type} [DecidableEq N] (w : World N) (μ : Solution N) (v : Variable)
    (i : Iri) : ¬ w.graph.Holds μ ⟨.variable v, .iri i, .variable v⟩ := by
  intro h
  obtain ⟨entity, property, value, hsubject, -, hobject, -⟩ := World.holds_iff.1 h
  have both : some (Value.node entity) = some (Value.instant value) := hsubject.symm.trans hobject
  cases both

/-- **A captured subject is bound to nothing.**  If the subject variable is the variable of the
start or of the end, then no extent overlaps the range, whatever the facts. -/
theorem solutions_overlap_captured {N : Type} [DecidableEq N] (w : World N) (r : Range)
    {suffix : String} (h : suffix ∈ ["begin", "end"]) (object : Variable) (first last : Iri) :
    (r.overlapPattern (object.suffixed suffix) object first last).solutions w = ∅ := by
  refine Set.eq_empty_of_forall_notMem fun μ hμ => ?_
  obtain ⟨hfacts, -⟩ := (mem_solutions_filtered _ _).1 hμ
  obtain ⟨-, facts⟩ := Graph.mem_answers_basic.1 hfacts
  simp only [List.mem_cons, List.not_mem_nil, or_false] at h
  rcases h with rfl | rfl
  · exact not_holds_self w μ _ first (facts _ List.mem_cons_self)
  · exact not_holds_self w μ _ last (facts _ (List.mem_cons_of_mem _ List.mem_cons_self))

/-- A subject with the name of the variable for the start is accepted, and is that variable.  The
pattern then has no solutions over any facts. -/
theorem patterns_captured :
    ∃ p, (since (.midnight 1850 1 1 (by decide) (by decide) (by decide))).patterns
        ⟨some "ex:begin", some "ex:end", none⟩ "date_begin" "date" = .ok [p] ∧
      Variable.ofText "date_begin" = .ok ⟨"date_begin"⟩ ∧ ⟨"date_begin"⟩ ∈ p.valueVariables ∧
      ∀ w : World String, p.solutions w = ∅ := by
  have captured : Variable.ofText "date_begin" = .ok (Variable.suffixed ⟨"date"⟩ "begin") := by
    decide +kernel
  obtain ⟨first, hfirst⟩ : ∃ i, Iri.ofText "ex:begin" = .ok i := ⟨_, rfl⟩
  obtain ⟨last, hlast⟩ : ∃ i, Iri.ofText "ex:end" = .ok i := ⟨_, rfl⟩
  have compiled := patterns_of_extent (since (.midnight 1850 1 1 (by decide) (by decide)
    (by decide))) captured (by decide +kernel : Variable.ofText "date" = .ok ⟨"date"⟩) hfirst hlast
    (rfl : Option.mapM Iri.ofText none = .ok none)
  refine ⟨_, compiled, captured, ?_, fun w => ?_⟩
  · rw [valueVariables_overlap]
    exact List.mem_cons_self
  · exact solutions_overlap_captured w _ (by simp) ⟨"date"⟩ first last

end Range
end DateFacet
