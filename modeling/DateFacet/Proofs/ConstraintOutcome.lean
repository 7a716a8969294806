/-
# Why there is no constraint

A range has a constraint for a class unless a name is malformed.  The names that count depend on
the class, and they are checked in order (`Properties.namesInUse`):

| class | names |
| --- | --- |
| start and end | subject, object, start, end, and the exact date if it has one |
| any other | subject, object |

The failure is that of the first name that is malformed (`Range.patterns_outcome`), whatever comes
after it.  A property that is not in use is never looked at, however malformed it is.  A window with
no bound would be refused before any name, but the proof that a range carries rules that out
(`Range.requireBound_range`).

What a well-formed name is, is said here without the check that decides it: any number of marks
before the characters of a name for a variable, and characters of an IRI between blanks for a node.
-/

import DateFacet.Proofs.ConstraintShape
import DateFacet.Proofs.FormReading

namespace DateFacet

open Outcome (forM_eq_ok_iff forM_eq_error_iff map_eq_ok_iff map_eq_error_iff)

namespace Sparql

/-! ## Well-formed names -/

/-- The text is a name of a variable, with any number of marks before it. -/
def Variable.IsWellFormed (text : String) : Prop :=
  ∃ marks name, text.toList = marks ++ name ∧ (∀ c ∈ marks, isMark c = true) ∧
    name ≠ [] ∧ ∀ c ∈ name, isNameChar c = true

/-- The text is that of a named node, with any number of blanks around it. -/
def Iri.IsWellFormed (text : String) : Prop :=
  ∃ before node after, text.toList = before ++ node ++ after ∧
    (∀ c ∈ before, Text.isBlank c = true) ∧ (∀ c ∈ after, Text.isBlank c = true) ∧
    node ≠ [] ∧ ∀ c ∈ node, isForbidden c = false

/-- What the check of a variable looks at. -/
theorem Variable.isWellFormed_iff {text : String} : IsWellFormed text ↔
    text.toList.dropWhile isMark ≠ [] ∧ (text.toList.dropWhile isMark).all isNameChar = true := by
  constructor
  · rintro ⟨marks, name, split, hmarks, ne, legal⟩
    have named : name.all isNameChar = true := List.all_eq_true.2 legal
    rw [split, List.dropWhile_append_of_pos hmarks, dropWhile_isMark named]
    exact ⟨ne, named⟩
  · rintro ⟨ne, legal⟩
    exact ⟨_, _, List.takeWhile_append_dropWhile.symm, List.all_eq_true.1 List.all_takeWhile, ne,
      List.all_eq_true.1 legal⟩

/-- What the check of a named node looks at. -/
theorem Iri.isWellFormed_iff {text : String} :
    IsWellFormed text ↔ isLegal (Text.trim text).toList = true := by
  rw [Text.toList_trim, isLegal_iff]
  constructor
  · rintro ⟨before, node, after, split, hbefore, hafter, ne, legal⟩
    have noBlank : ∀ c ∈ node, Text.isBlank c = false :=
      fun c mem => (Bool.or_eq_false_iff.1 (legal c mem)).1
    rw [split, Text.trimChars_append hbefore hafter ne
      (fun c mem => noBlank c (List.mem_of_mem_head? mem))
      (fun c mem => noBlank c (List.mem_of_getLast? mem))]
    exact ⟨ne, legal⟩
  · rintro ⟨ne, legal⟩
    obtain ⟨before, after, hbefore, hafter, split⟩ := Text.exists_trimChars text.toList
    exact ⟨before, _, after, split, hbefore, hafter, ne, legal⟩

instance : DecidablePred Variable.IsWellFormed :=
  fun _ => decidable_of_iff' _ Variable.isWellFormed_iff

instance : DecidablePred Iri.IsWellFormed :=
  fun _ => decidable_of_iff' _ Iri.isWellFormed_iff

/-- A text that is to be a term. -/
inductive Name
  | variable (text : String)
  | node (text : String)

namespace Name

/-- The text can be the term. -/
def IsWellFormed : Name → Prop
  | .variable text => Variable.IsWellFormed text
  | .node text => Iri.IsWellFormed text

instance : DecidablePred IsWellFormed
  | .variable text => inferInstanceAs (Decidable (Variable.IsWellFormed text))
  | .node text => inferInstanceAs (Decidable (Iri.IsWellFormed text))

/-- The failure that reports the text, as it was given. -/
def error : Name → CompileError
  | .variable text => .invalidVariable text
  | .node text => .invalidIri text

/-- The check of the text, without the term that comes of it. -/
def check : Name → Except CompileError Unit
  | .variable text => (fun _ => ()) <$> Variable.ofText text
  | .node text => (fun _ => ()) <$> Iri.ofText text

/-- **The check of a name passes the well-formed ones and reports any other.** -/
theorem check_eq (n : Name) : n.check = if n.IsWellFormed then .ok () else .error n.error := by
  obtain text | text := n
  · simp only [check, IsWellFormed, error, Variable.isWellFormed_iff, Variable.ofText]
    split <;> rfl
  · simp only [check, IsWellFormed, error, Iri.isWellFormed_iff, Iri.ofText]
    split <;> rfl

/-- The check of a name passes exactly the well-formed ones. -/
theorem check_eq_ok_iff {n : Name} : n.check = .ok () ↔ n.IsWellFormed := by
  simp [check_eq]

/-- The check of a name fails with the error of the name, and just if it is not well-formed. -/
theorem check_eq_error_iff {n : Name} {e : CompileError} :
    n.check = .error e ↔ ¬ n.IsWellFormed ∧ e = n.error := by
  by_cases h : n.IsWellFormed <;> simp [check_eq, h, eq_comm]

end Name
end Sparql

open Sparql

namespace Properties

/-- The names that a constraint for a class is made of, in the order in which they are checked. -/
def namesInUse (p : Properties) (subjectName objectName : String) : List Name :=
  [.variable subjectName, .variable objectName] ++
    match p.beginDate, p.endDate with
    | some beginText, some endText =>
      [.node beginText, .node endText] ++ p.exactDate.toList.map .node
    | _, _ => []

/-- Finding the shape of a constraint checks the names in use, and nothing else can fail. -/
theorem check_shape (p : Properties) (subjectName objectName : String) :
    (fun _ => ()) <$> p.shape subjectName objectName =
      forM (p.namesInUse subjectName objectName) Name.check := by
  obtain ⟨_ | beginText, _ | endText, _ | exactText⟩ := p <;>
    simp [shape, namesInUse, Name.check, map_bind, bind_map_left]

/-- Without a start or without an end, no property of a class shapes its constraint. -/
theorem shape_of_no_extent {p : Properties} (lacks : p.beginDate = none ∨ p.endDate = none)
    (subjectName objectName : String) :
    p.shape subjectName objectName = empty.shape subjectName objectName := by
  obtain ⟨_ | beginText, _ | endText, exactText⟩ := p
  · rfl
  · rfl
  · rfl
  · simp at lacks

end Properties

namespace Range

/-- A range is compiled exactly if the names in use pass their checks, one after the other. -/
theorem check_patterns (r : Range) (p : Properties) (subjectName objectName : String) :
    (fun _ => ()) <$> r.patterns p subjectName objectName =
      forM (p.namesInUse subjectName objectName) Name.check := by
  rw [patterns_eq_map_shape, ← p.check_shape, Functor.map_map]

/-- **A range is refused for the first malformed name, and for nothing else.**  For any range, class
and names: there is a constraint exactly if every name in use is well-formed; a failure reports the
text of the first name in use that is not, as it was given; and none is for a window without a
bound.  The properties of a class without a start or without an end are not in use: the outcome is
that for a class with no property at all. -/
theorem patterns_outcome (r : Range) (p : Properties) (subjectName objectName : String) :
    ((∃ ps, r.patterns p subjectName objectName = .ok ps) ↔
      ∀ n ∈ p.namesInUse subjectName objectName, n.IsWellFormed) ∧
    (∀ e, r.patterns p subjectName objectName = .error e ↔
      ∃ before n after, p.namesInUse subjectName objectName = before ++ n :: after ∧
        (∀ m ∈ before, m.IsWellFormed) ∧ ¬ n.IsWellFormed ∧ e = n.error) ∧
    r.patterns p subjectName objectName ≠ .error .emptyRange ∧
    (p.beginDate = none ∨ p.endDate = none →
      r.patterns p subjectName objectName = r.patterns .empty subjectName objectName) := by
  have failure : ∀ e, r.patterns p subjectName objectName = .error e ↔
      ∃ before n after, p.namesInUse subjectName objectName = before ++ n :: after ∧
        (∀ m ∈ before, m.IsWellFormed) ∧ ¬ n.IsWellFormed ∧ e = n.error := by
    intro e
    rw [← map_eq_error_iff, check_patterns, forM_eq_error_iff]
    simp only [Name.check_eq_ok_iff, Name.check_eq_error_iff]
  refine ⟨?_, failure, fun h => ?_, fun lacks => ?_⟩
  · simp only [← Name.check_eq_ok_iff]
    rw [← forM_eq_ok_iff, ← r.check_patterns, map_eq_ok_iff]
    simp
  · -- The report of a name is never that of a window.
    obtain ⟨-, text | text, -, -, -, -, eq⟩ := (failure _).1 h
    · cases eq
    · cases eq
  · rw [patterns_eq_map_shape, patterns_eq_map_shape, Properties.shape_of_no_extent lacks]

/-- The statements of `patterns_outcome` at the range from 1850 on.  The end is malformed, and so is
the exact date, but the end is checked first; a malformed object is reported before either of them;
and without an end the same names of nodes are not in use. -/
theorem patterns_outcome_since :
    ∃ r : Range,
      r.patterns ⟨some " ex:begin", some "ex:the end", some ""⟩ "?it" "date" =
        .error (.invalidIri "ex:the end") ∧
      r.patterns ⟨some " ex:begin", some "ex:the end", some ""⟩ "?it" "a date" =
        .error (.invalidVariable "a date") ∧
      r.patterns ⟨some "ex:the end", none, some ""⟩ "?it" "date" =
        r.patterns .empty "?it" "date" ∧
      ∃ ps, r.patterns ⟨some "ex:the end", none, some ""⟩ "?it" "date" = .ok ps := by
  have named : ∀ n ∈ [Name.variable "?it", .variable "date", .node " ex:begin"],
      n.IsWellFormed := by decide +kernel
  have subject : ∀ n ∈ [Name.variable "?it"], n.IsWellFormed := by decide +kernel
  have object : ¬ (Name.variable "a date").IsWellFormed := by decide +kernel
  have stop : ¬ (Name.node "ex:the end").IsWellFormed := by decide +kernel
  let r := since (.midnight 1850 1 1 (by decide) (by decide) (by decide))
  refine ⟨r, ?_, ?_, ?_, ?_⟩
  · exact ((patterns_outcome r _ _ _).2.1 _).2 ⟨_, _, [.node ""], rfl, named, stop, rfl⟩
  · exact ((patterns_outcome r _ _ _).2.1 _).2
      ⟨[.variable "?it"], .variable "a date", _, rfl, subject, object, rfl⟩
  · exact (patterns_outcome r _ _ _).2.2.2 (.inr rfl)
  · exact (patterns_outcome r _ _ _).1.2 fun n mem => named n (List.mem_append_left _ mem)

end Range
end DateFacet
