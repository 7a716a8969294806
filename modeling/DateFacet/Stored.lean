/-
# Stored values

How instants, ranges, raw inputs, phrases, properties, catalogues and configurations are written
as JSON and read back.  An instant is stored as its text, and read as any date text with the day
before the month.  A range is checked again when it is read.  Everything else may lack fields that
have a standard value.
-/

import DateFacet.RangeReader
import DateFacet.Json.Decode
import DateFacet.Json.Value
import DateFacet.Properties

namespace DateFacet

open Json (Reading)

/-! ## Instants and ranges -/

/-- A stored instant. -/
def Instant.json (t : Instant) : Json := .string t.text

/-- Decodes an instant. -/
def Instant.ofReading (r : Reading) : Decoded Instant := do
  (Instant.ofText .dayFirst (← r.asString)).mapError fun fault =>
    .validation (.invalidInstant fault)

/-- A stored range. -/
def Range.json (r : Range) : Json :=
  .object [("start", .ofOption r.startText), ("stop", .ofOption r.stopText),
    ("start_label", .string r.startLabel), ("end_label", .string r.stopLabel)]

/-- The fields of a range that have been met. -/
structure Range.Draft where
  start : Option (Option Instant)
  stop : Option (Option Instant)
  startLabel : Option String
  stopLabel : Option String

/-- Takes one field of a range. -/
def Range.Draft.put (draft : Range.Draft) (name : String) (value : Reading) :
    Option (Decoded Range.Draft) :=
  match name with
  | "start" => some do
    return { draft with
      start := ← Reading.once draft.start (Reading.nullable Instant.ofReading) value }
  | "stop" => some do
    return { draft with
      stop := ← Reading.once draft.stop (Reading.nullable Instant.ofReading) value }
  | "start_label" => some do
    return { draft with startLabel := ← Reading.once draft.startLabel Reading.asString value }
  | "end_label" => some do
    return { draft with stopLabel := ← Reading.once draft.stopLabel Reading.asString value }
  | _ => none

/-- Decodes a range. -/
def Range.ofReading (r : Reading) : Decoded Range := do
  let draft ← r.record ["start", "stop", "start_label", "end_label"] 2 Range.Draft.put
    ⟨none, none, none, none⟩
  (Range.ofBounds (draft.start.getD none) (draft.stop.getD none) (draft.startLabel.getD "")
    (draft.stopLabel.getD "")).mapError .validation

/-- A stored list of ranges. -/
def Range.listJson (rs : List Range) : Json := .array (rs.map Range.json)

/-! ## Raw inputs -/

/-- A stored raw input. -/
def RawInput.json (input : RawInput) : Json :=
  .object [("start", .ofOption input.start), ("stop", .ofOption input.stop)]

/-- The fields of a raw input that have been met. -/
structure RawInput.Draft where
  start : Option (Option String)
  stop : Option (Option String)

/-- Takes one field of a raw input. -/
def RawInput.Draft.put (draft : RawInput.Draft) (name : String) (value : Reading) :
    Option (Decoded RawInput.Draft) :=
  match name with
  | "start" => some do
    return { draft with
      start := ← Reading.once draft.start (Reading.nullable Reading.asString) value }
  | "stop" => some do
    return { draft with
      stop := ← Reading.once draft.stop (Reading.nullable Reading.asString) value }
  | _ => none

/-- Decodes a raw input. -/
def RawInput.ofReading (r : Reading) : Decoded RawInput := do
  let draft ← r.record ["start", "stop"] 2 RawInput.Draft.put ⟨none, none⟩
  return ⟨draft.start.getD none, draft.stop.getD none⟩

/-! ## Phrases -/

/-- Stored phrases. -/
def Phrases.json (p : Phrases) : Json :=
  .object [("from", .string p.start), ("to", .string p.stop), ("from_only", .string p.startOnly),
    ("to_only", .string p.stopOnly)]

/-- The phrases that have been met. -/
structure Phrases.Draft where
  start : Option String
  stop : Option String
  startOnly : Option String
  stopOnly : Option String

/-- Takes one phrase. -/
def Phrases.Draft.put (draft : Phrases.Draft) (name : String) (value : Reading) :
    Option (Decoded Phrases.Draft) :=
  match name with
  | "from" => some do
    return { draft with start := ← Reading.once draft.start Reading.asString value }
  | "to" => some do
    return { draft with stop := ← Reading.once draft.stop Reading.asString value }
  | "from_only" => some do
    return { draft with startOnly := ← Reading.once draft.startOnly Reading.asString value }
  | "to_only" => some do
    return { draft with stopOnly := ← Reading.once draft.stopOnly Reading.asString value }
  | _ => none

/-- Decodes phrases; a missing one is English. -/
def Phrases.ofReading (r : Reading) : Decoded Phrases := do
  let draft ← r.record ["from", "to", "from_only", "to_only"] 0 Phrases.Draft.put
    ⟨none, none, none, none⟩
  return ⟨draft.start.getD Phrases.english.start, draft.stop.getD Phrases.english.stop,
    draft.startOnly.getD Phrases.english.startOnly, draft.stopOnly.getD Phrases.english.stopOnly⟩

/-! ## Properties and catalogues -/

/-- A field for a text that is there, and none for one that is not. -/
def optionalField (name : String) (value : Option String) : List (String × Json) :=
  (value.map fun text => (name, Json.string text)).toList

/-- Stored properties. -/
def Properties.json (p : Properties) : Json :=
  .object (optionalField "beginDateProperty" p.beginDate ++
    optionalField "endDateProperty" p.endDate ++ optionalField "exactDateProperty" p.exactDate)

/-- The properties that have been met. -/
structure Properties.Draft where
  beginDate : Option (Option String)
  endDate : Option (Option String)
  exactDate : Option (Option String)

/-- Takes one property. -/
def Properties.Draft.put (draft : Properties.Draft) (name : String) (value : Reading) :
    Option (Decoded Properties.Draft) :=
  match name with
  | "beginDateProperty" => some do
    return { draft with
      beginDate := ← Reading.once draft.beginDate (Reading.nullable Reading.asString) value }
  | "endDateProperty" => some do
    return { draft with
      endDate := ← Reading.once draft.endDate (Reading.nullable Reading.asString) value }
  | "exactDateProperty" => some do
    return { draft with
      exactDate := ← Reading.once draft.exactDate (Reading.nullable Reading.asString) value }
  | _ => none

/-- Decodes the properties of a class. -/
def Properties.ofReading (r : Reading) : Decoded Properties := do
  let draft ← r.record ["beginDateProperty", "endDateProperty", "exactDateProperty"] 0
    Properties.Draft.put ⟨none, none, none⟩
  return ⟨draft.beginDate.getD none, draft.endDate.getD none, draft.exactDate.getD none⟩

/-- Decodes an object whose fields are the classes. -/
def Catalogue.ofReading : Reading → Decoded Catalogue
  | .object fields =>
    Reading.foldFields
      (fun c name value => some ((Properties.ofReading value).map (c.insert name))) .empty fields
  | _ => .error .malformed

/-! ## Configurations -/

/-- The granularities by their names. -/
def Granularity.table : List (String × Granularity) := [("day", .day), ("year", .year)]

/-- The forms of day labels by their names. -/
def DayLabel.table : List (String × DayLabel) :=
  [("iso", .iso), ("day_month_year", .dayMonthYear), ("month_day_year", .monthDayYear)]

/-- The name of a form of day labels. -/
def DayLabel.name : DayLabel → String
  | .iso => "iso"
  | .dayMonthYear => "day_month_year"
  | .monthDayYear => "month_day_year"

/-- The orders of dates with slashes by their names. -/
def SlashOrder.table : List (String × SlashOrder) :=
  [("day_first", .dayFirst), ("month_first", .monthFirst)]

/-- The name of an order of dates with slashes. -/
def SlashOrder.name : SlashOrder → String
  | .dayFirst => "day_first"
  | .monthFirst => "month_first"

/-- A stored configuration. -/
def Config.json (c : Config) : Json :=
  .object [("granularity", .string c.granularity.name), ("day_label", .string c.dayLabel.name),
    ("slash_dates", .string c.slashes.name), ("phrases", c.phrases.json)]

/-- The fields of a configuration that have been met. -/
structure Config.Draft where
  granularity : Option Granularity
  dayLabel : Option DayLabel
  slashes : Option SlashOrder
  phrases : Option Phrases

/-- Takes one field of a configuration. -/
def Config.Draft.put (draft : Config.Draft) (name : String) (value : Reading) :
    Option (Decoded Config.Draft) :=
  match name with
  | "granularity" => some do
    return { draft with
      granularity :=
        ← Reading.once draft.granularity (Reading.choice false Granularity.table) value }
  | "day_label" => some do
    return { draft with
      dayLabel := ← Reading.once draft.dayLabel (Reading.choice false DayLabel.table) value }
  | "slash_dates" => some do
    return { draft with
      slashes := ← Reading.once draft.slashes (Reading.choice false SlashOrder.table) value }
  | "phrases" => some do
    return { draft with phrases := ← Reading.once draft.phrases Phrases.ofReading value }
  | _ => none

/-- Decodes a configuration; what is missing is standard. -/
def Config.ofReading (r : Reading) : Decoded Config := do
  let draft ← r.record ["granularity", "day_label", "slash_dates", "phrases"] 0 Config.Draft.put
    ⟨none, none, none, none⟩
  return ⟨draft.granularity.getD Config.standard.granularity,
    draft.dayLabel.getD Config.standard.dayLabel, draft.slashes.getD Config.standard.slashes,
    draft.phrases.getD Config.standard.phrases⟩

/-- The text of a configuration, laid out over lines. -/
def Config.pretty (c : Config) : String := c.json.pretty

/-- The configuration of a text. -/
def Config.ofText (text : String) : Except ConfigError Config :=
  (Json.decode Config.ofReading text).mapError fun _ => .parse "not a configuration"

/-- The configuration of a file, from its path and the bytes that could be read from it. -/
def Config.ofFile (path : String) (bytes : Option ByteArray) : Except ConfigError Config :=
  match bytes with
  | none => .error (.io path "the file cannot be read")
  | some bytes =>
    match String.fromUTF8? bytes with
    | none => .error (.io path "the file is not UTF-8")
    | some text => Config.ofText text

/-- The catalogue of a text. -/
def Catalogue.ofText (text : String) : Except ConfigError Catalogue :=
  (Json.decode Catalogue.ofReading text).mapError fun _ => .parse "not a catalogue"

end DateFacet
