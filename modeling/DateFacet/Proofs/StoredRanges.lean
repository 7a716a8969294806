/-
# Stored ranges are read back

A range is stored as an object with its bounds, which are written instants or null, and its labels.
Reading it back goes through three laws: the text holds the object and nothing else
(`Json.ofText_text`), a written instant names the instant (`Instant.ofText_text`), and the check
that ends the reading accepts every window unchanged (`Range.ofBounds_eq_ok_iff`).

Dates with slashes play no part: an instant is written with dashes, and those are read in the same
way in either order.
-/

import DateFacet.Proofs.JsonText
import DateFacet.Proofs.RangeWindow
import DateFacet.Proofs.RoundTrip

namespace DateFacet

open Json (Reading)
open Outcome (bind_eq_ok_iff mapError_eq_ok_iff)

namespace Instant

/-- An instant is decoded from what is stored of it. -/
theorem ofReading_json (t : Instant) : ofReading t.json.reading = .ok t :=
  bind_eq_ok_iff.2 ⟨t.text, rfl, mapError_eq_ok_iff.2 (t.ofText_text .dayFirst)⟩

/-- A bound is read back, and so is an open side. -/
theorem nullable_ofReading (t : Option Instant) :
    Reading.nullable ofReading (Json.ofOption (t.map text)).reading = .ok t := by
  cases t with
  | none => rfl
  | some t =>
    have bound : ofReading (.string (some t.text)) = .ok t := t.ofReading_json
    rw [Option.map_some, Json.ofOption, Json.reading, Reading.nullable, bound]
    · rfl
    · nofun

end Instant

namespace Range

/-- All four fields of a stored range are met, each of them once. -/
theorem record_json (r : Range) :
    r.json.reading.record ["start", "stop", "start_label", "end_label"] 2 Draft.put
      ⟨none, none, none, none⟩ =
        .ok ⟨some r.start, some r.stop, some r.startLabel, some r.stopLabel⟩ := by
  have start := Instant.nullable_ofReading r.start
  have stop := Instant.nullable_ofReading r.stop
  simp only [json, Json.reading, Json.fieldReadings, Reading.record, Reading.foldFields, Draft.put,
    Reading.once, startText, stopText, start, stop]
  rfl

/-- **A stored range is read back.** -/
theorem ofReading_json (r : Range) : ofReading r.json.reading = .ok r :=
  bind_eq_ok_iff.2 ⟨_, r.record_json, mapError_eq_ok_iff.2
    (ofBounds_eq_ok_iff.2 ⟨⟨r.isBounded, r.start_le_stop⟩, rfl, rfl, rfl, rfl⟩)⟩

/-- **Stored ranges are read back**: from the text of any list of ranges the same list is decoded,
with the same bounds, the same labels, whatever characters they hold, and in the same order. -/
theorem decode_listJson (rs : List Range) :
    Json.decode (Reading.list ofReading) (listJson rs).text = .ok rs := by
  rw [Json.decode_text, listJson]
  exact Json.list_reading fun r _ => ofReading_json r

end Range
end DateFacet
