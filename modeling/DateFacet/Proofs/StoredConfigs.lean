/-
# Stored configurations are read back

A configuration is stored as an object laid out over lines, the properties of a class and the raw
dates of a user as compact objects.

| stored | field without a value | field that is not met |
| --- | --- | --- |
| a configuration, its phrases | none, all are written | standard |
| the properties of a class | not written | no property |
| raw dates | null | none, both are written |

What a reader supplies for a field that is not met never takes the place of a written one: every
field that has a value is written and met once, whatever characters it holds, and an empty text is a
value like any other (`configurations_restored`).
-/

import DateFacet.Proofs.JsonLayout
import DateFacet.Stored

namespace DateFacet

open Json (Reading)
open Outcome (bind_eq_ok_iff mapError_eq_ok_iff)

/-- A text is read back, and so is none. -/
theorem Json.nullable_asString (value : Option String) :
    Reading.nullable Reading.asString (ofOption value).reading = .ok value := by
  cases value <;> rfl

/-! ## Raw dates and properties -/

/-- **Stored raw dates are read back.** -/
theorem RawInput.ofReading_json (input : RawInput) : ofReading input.json.reading = .ok input := by
  have start := Json.nullable_asString input.start
  have stop := Json.nullable_asString input.stop
  simp only [ofReading, json, Json.reading, Json.fieldReadings, Reading.record, Reading.foldFields,
    Draft.put, Reading.once, start, stop]
  rfl

/-- **Stored properties are read back.**  Those that are not there are not written, and then they are
not met. -/
theorem Properties.ofReading_json (p : Properties) : ofReading p.json.reading = .ok p := by
  rcases p with ⟨_ | beginDate, _ | endDate, _ | exactDate⟩ <;> rfl

/-- An empty text is written. -/
example : Properties.json ⟨none, some "", none⟩ = .object [("endDateProperty", .string "")] := rfl

/-! ## Configurations -/

/-- **Stored phrases are read back.** -/
theorem Phrases.ofReading_json (p : Phrases) : ofReading p.json.reading = .ok p := rfl

/-! Each choice is stored by its name, and the table has it under this name. -/

/-- The name of a granularity is the choice of it. -/
theorem Granularity.choice_name (g : Granularity) :
    Reading.choice false table (.string (some g.name)) = .ok g := by
  cases g <;> rfl

theorem DayLabel.choice_name (label : DayLabel) :
    Reading.choice false table (.string (some label.name)) = .ok label := by
  cases label <;> rfl

theorem SlashOrder.choice_name (order : SlashOrder) :
    Reading.choice false table (.string (some order.name)) = .ok order := by
  cases order <;> rfl

namespace Config

/-- **A stored configuration is read back.** -/
theorem ofReading_json (c : Config) : ofReading c.json.reading = .ok c := by
  have phrases := c.phrases.ofReading_json
  simp only [ofReading, json, Json.reading, Json.fieldReadings, Reading.record, Reading.foldFields,
    Draft.put, Reading.once, c.granularity.choice_name, c.dayLabel.choice_name,
    c.slashes.choice_name, phrases]
  rfl

end Config

/-- **What is stored of a field is read back unchanged**: every configuration, with any phrases, from
its lines; the properties of every class, with any of the three there and with any texts; and the raw
dates of every user. -/
theorem configurations_restored :
    (∀ c : Config, Config.ofText c.pretty = .ok c) ∧
    (∀ p : Properties, Json.decode Properties.ofReading p.json.text = .ok p) ∧
    ∀ input : RawInput, Json.decode RawInput.ofReading input.json.text = .ok input := by
  refine ⟨fun c => ?_, fun p => ?_, fun input => ?_⟩
  · exact mapError_eq_ok_iff.2 ((Json.decode_pretty _ _).trans c.ofReading_json)
  · exact (Json.decode_text _ _).trans p.ofReading_json
  · exact (Json.decode_text _ _).trans input.ofReading_json

end DateFacet
