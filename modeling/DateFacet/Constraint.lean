/-
# The constraint of a range as a graph pattern

How a range constrains a query depends on the date properties of the class.

| class | pattern |
| --- | --- |
| start and end | the fact's extent overlaps the range |
| start, end and exact date | that, or the exact date lies in the range |
| any other | the object variable itself lies in the range |

An extent overlaps a range when it begins before the range stops and ends after the range starts.
An open side gives no condition.  The dates of a fact get variables of their own, named after the
object variable.
-/

import DateFacet.Properties
import DateFacet.Range
import DateFacet.Sparql.Pattern

namespace DateFacet

open Sparql

/-- How the constraint reaches the date. -/
inductive Strategy
  /-- Over the properties of the subject. -/
  | rangeOrExactDate
  /-- On the object variable. -/
  | directFilter
  deriving DecidableEq

/-- The strategy for a class. -/
def Properties.strategy (p : Properties) : Strategy :=
  if p.hasExtent then .rangeOrExactDate else .directFilter

/-- The pattern itself links the subject to its dates, so the query must not. -/
def Properties.isBlocking (p : Properties) : Bool := p.hasExtent

/-- The literal of an instant. -/
def Instant.literal (t : Instant) : Literal := ⟨t.text, .dateTime⟩

namespace Range

/-- A comparison of a variable with an instant. -/
def compareWith (v : Variable) (sign : Comparison) (t : Instant) : Condition :=
  .compare sign (.variable v) (.literal t.literal)

/-- The conditions for a value to lie in the range. -/
def within (r : Range) (value : Variable) : List Condition :=
  (r.start.map (compareWith value .ge)).toList ++ (r.stop.map (compareWith value .le)).toList

/-- The conditions for an extent to overlap the range. -/
def overlaps (r : Range) (first last : Variable) : List Condition :=
  (r.stop.map (compareWith first .le)).toList ++ (r.start.map (compareWith last .ge)).toList

/-- Triples and the filter on their values in one group. -/
def filtered (triples : List Triple) (conditions : List Condition) : Pattern :=
  .group (.basic triples :: ((Condition.all? conditions).map Pattern.filter).toList)

/-- The subjects whose extent overlaps the range. -/
def overlapPattern (r : Range) (subject object : Variable) (first last : Iri) : Pattern :=
  filtered
    [⟨.variable subject, .iri first, .variable (object.suffixed "begin")⟩,
      ⟨.variable subject, .iri last, .variable (object.suffixed "end")⟩]
    (r.overlaps (object.suffixed "begin") (object.suffixed "end"))

/-- The subjects whose exact date lies in the range. -/
def exactPattern (r : Range) (subject object : Variable) (exact : Iri) : Pattern :=
  filtered [⟨.variable subject, .iri exact, .variable (object.suffixed "exact")⟩]
    (r.within (object.suffixed "exact"))

/-- The values of the object variable that lie in the range. -/
def directPattern (r : Range) (object : Variable) : Pattern :=
  ((Condition.all? (r.within object)).map Pattern.filter).getD (.group [])

/-- A window has a bound, or there is nothing to compile. -/
def requireBound (start stop : Option Instant) : Except CompileError Unit :=
  if start.isNone && stop.isNone then .error .emptyRange else pure ()

/-- The patterns that constrain a query to the range.  The bounds are checked first, then the names,
the subject before the object, and then the properties that the pattern uses, in the order start,
end, exact date. -/
def patterns (r : Range) (p : Properties) (subjectName objectName : String) :
    Except CompileError (List Pattern) := do
  requireBound r.start r.stop
  let subject ← Variable.ofText subjectName
  let object ← Variable.ofText objectName
  match p.beginDate, p.endDate with
  | some beginText, some endText =>
    let first ← Iri.ofText beginText
    let last ← Iri.ofText endText
    let overlap := r.overlapPattern subject object first last
    match p.exactDate with
    | some exactText =>
      let exact ← Iri.ofText exactText
      return [.union [overlap, r.exactPattern subject object exact]]
    | none => return [overlap]
  | _, _ => return [r.directPattern object]

/-- A window is refused exactly if neither side has a bound. -/
theorem requireBound_eq_pure_iff {start stop : Option Instant} :
    requireBound start stop = pure () ↔ start.isSome ∨ stop.isSome := by
  cases start <;> cases stop <;> simp [requireBound, pure, Except.pure]

/-- **Every range has a bound**, so none is refused for lack of one. -/
theorem requireBound_range (r : Range) : requireBound r.start r.stop = pure () :=
  requireBound_eq_pure_iff.2 r.isBounded

end Range
end DateFacet
