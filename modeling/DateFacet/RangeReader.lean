/-
# From raw dates to ranges

The user types a start and a stop.  A side that is missing, blank or no date stays open.  What
was typed must be in order to the second; only then each side is widened to the first or the last
second of its day or year.  A year starts with the second after midnight.

Widening keeps the order, so the result is a range: `startOfDay_le_endOfDay` and
`startOfYear_le_endOfYear`.

A field of dates has a configuration, which fixes how raw dates are read there and in which words
its ranges are labelled.
-/

import DateFacet.DateText.Meaning
import DateFacet.Label
import DateFacet.Range

namespace DateFacet

/-! ## Granularity -/

/-- The precision at which dates are taken: as whole days or as whole years. -/
inductive Granularity
  | day
  | year
  deriving DecidableEq

namespace Granularity

/-- The name of a granularity. -/
def name : Granularity → String
  | .day => "day"
  | .year => "year"

/-- The granularity of a name in either case, with or without blanks around it. -/
def ofText (text : String) : Except ConfigError Granularity :=
  let name := (Text.trimChars text.toList).map Char.toLower
  if name = "day".toList then .ok .day
  else if name = "year".toList then .ok .year
  else .error (.unknownGranularity text)

end Granularity

namespace Instant

/-- Widening to days keeps the order. -/
theorem startOfDay_le_endOfDay {s e : Instant} (h : s ≤ e) : s.startOfDay ≤ e.endOfDay := by
  rw [le_iff_not_lt, lt_iff] at h ⊢
  simp only [startOfDay, midnight, endOfDay]
  omega

/-- Widening to years keeps the order. -/
theorem startOfYear_le_endOfYear {s e : Instant} (h : s ≤ e) : s.startOfYear ≤ e.endOfYear := by
  rw [le_iff_not_lt, lt_iff] at h ⊢
  simp only [startOfYear, endOfYear]
  omega

end Instant

/-! ## The reader of ranges -/

/-- How raw dates become ranges. -/
structure RangeReader where
  granularity : Granularity
  slashes : SlashOrder
  dayLabel : DayLabel
  deriving DecidableEq

/-- The two texts of a user; a missing one is an open side. -/
structure RawInput where
  start : Option String
  stop : Option String
  deriving DecidableEq

namespace RangeReader

/-- ISO labels, and the day before the month in dates with slashes. -/
def ofGranularity (granularity : Granularity) : RangeReader := ⟨granularity, .dayFirst, .iso⟩

/-- The first second of a side. -/
def widenStart (reader : RangeReader) (t : Instant) : Instant :=
  match reader.granularity with
  | .day => t.startOfDay
  | .year => t.startOfYear

/-- The last second of a side. -/
def widenStop (reader : RangeReader) (t : Instant) : Instant :=
  match reader.granularity with
  | .day => t.endOfDay
  | .year => t.endOfYear

/-- The label of a side. -/
def label (reader : RangeReader) (t : Instant) : String :=
  match reader.granularity with
  | .day => reader.dayLabel.text t
  | .year => yearLabel t

/-- Widening keeps the order at either granularity. -/
theorem widenStart_le_widenStop (reader : RangeReader) {s e : Instant} (h : s ≤ e) :
    reader.widenStart s ≤ reader.widenStop e := by
  unfold widenStart widenStop
  cases reader.granularity
  · exact Instant.startOfDay_le_endOfDay h
  · exact Instant.startOfYear_le_endOfYear h

/-- The date of a side, if its text is one.  A blank side is left open without a look at dates. -/
def readSide (reader : RangeReader) (raw : Option String) : Option Instant :=
  ((raw.map Text.trim).filter (· ≠ "")).bind fun text =>
    (Instant.ofText reader.slashes text).toOption

/-- **The reader of dates has the last word on a side**: it takes the blanks around a text away and
refuses a blank text itself. -/
theorem readSide_eq_bind (reader : RangeReader) (raw : Option String) :
    reader.readSide raw = raw.bind fun text => (Instant.ofText reader.slashes text).toOption := by
  cases raw with
  | none => rfl
  | some text =>
    rw [readSide, Option.map_some, Option.bind_some]
    by_cases blank : Text.trim text = ""
    · rw [Instant.ofText_of_blank reader.slashes blank, blank]
      rfl
    · rw [Option.filter_some, if_pos (decide_eq_true blank), Option.bind_some, Instant.ofText_trim]

/-- The range around two dates, of which at least one is there. -/
def widen (reader : RangeReader) (start stop : Option Instant)
    (isBounded : start.isSome ∨ stop.isSome) (ordered : ∀ s ∈ start, ∀ e ∈ stop, s ≤ e) :
    Range where
  start := start.map reader.widenStart
  stop := stop.map reader.widenStop
  startLabel := (start.map reader.label).getD ""
  stopLabel := (stop.map reader.label).getD ""
  isBounded := by simpa using isBounded
  start_le_stop := by
    intro s hs e he
    obtain ⟨first, hfirst, rfl⟩ := Option.map_eq_some_iff.1 hs
    obtain ⟨last, hlast, rfl⟩ := Option.map_eq_some_iff.1 he
    exact reader.widenStart_le_widenStop (ordered first hfirst last hlast)

/-- The range of two raw texts. -/
def range (reader : RangeReader) (input : RawInput) : Except ValidationError Range :=
  match reader.readSide input.start, reader.readSide input.stop with
  | none, none => .error (.invalidDate (input.start.getD "") (input.stop.getD ""))
  | some s, none =>
    .ok (reader.widen (some s) none (Range.bounded_start s) (Range.ordered_start s))
  | none, some e =>
    .ok (reader.widen none (some e) (Range.bounded_stop e) (Range.ordered_stop e))
  | some s, some e =>
    if h : s ≤ e then
      .ok (reader.widen (some s) (some e) (Range.bounded_both s e) (Range.ordered_both h))
    else .error (.rangeOrder s.text e.text)

end RangeReader

/-! ## Configurations -/

/-- The configuration of a date field: a granularity, an order for dates with slashes, a form for
day labels, and the phrases of its labels. -/
structure Config where
  granularity : Granularity
  dayLabel : DayLabel
  slashes : SlashOrder
  phrases : Phrases
  deriving DecidableEq

namespace Config

/-- Days, ISO labels, the day before the month, and English phrases. -/
def standard : Config := ⟨.day, .iso, .dayFirst, .english⟩

/-- How the field turns raw dates into ranges. -/
def reader (c : Config) : RangeReader := ⟨c.granularity, c.slashes, c.dayLabel⟩

end Config
end DateFacet
