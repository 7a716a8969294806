/-
# Readings that can be held

A reading that is held in memory has a limit to its levels, that is, to the arrays and objects that
stand one within the other.  Whatever part of it a decoder hands on to another one has the levels
that its place leaves:

| handed on | levels left |
| --- | --- |
| a field of a record, an item of a list | one less |
| the content of a tagged value | as many, for the tag is no level of its own |

So a property that every step of a decoder keeps, for as long as the steps are taken on readings
with these levels, holds of what is decoded (`foldFields_keeps`, `record_keeps`).
-/

import DateFacet.Proofs.JsonText
import DateFacet.Proofs.Outcome
import DateFacet.Sparql.Stored

namespace DateFacet

open Outcome (bind_eq_ok_iff map_eq_ok_iff)

namespace Json
namespace Reading

/-! ## Parts of a reading -/

/-- A list of readings takes one level more than its items. -/
theorem canBeHeld_array {levels : Nat} {items : List Reading} :
    (array items).canBeHeld levels = true ↔
      0 < levels ∧ ∀ item ∈ items, item.canBeHeld (levels - 1) = true := by
  have each : itemsCanBeHeld (levels - 1) items = true ↔
      ∀ item ∈ items, item.canBeHeld (levels - 1) = true := by
    induction items with
    | nil => simp [itemsCanBeHeld]
    | cons item items ih => rw [itemsCanBeHeld, Bool.and_eq_true, ih, List.forall_mem_cons]
  rw [canBeHeld, Bool.and_eq_true, decide_eq_true_eq, each]

/-- A record takes one level more than its values, and its names must have been read. -/
theorem canBeHeld_object {levels : Nat} {fields : List (Option String × Reading)} :
    (object fields).canBeHeld levels = true ↔ 0 < levels ∧
      ∀ field ∈ fields, field.1.isSome = true ∧ field.2.canBeHeld (levels - 1) = true := by
  have each : fieldsCanBeHeld (levels - 1) fields = true ↔
      ∀ field ∈ fields, field.1.isSome = true ∧ field.2.canBeHeld (levels - 1) = true := by
    induction fields with
    | nil => simp [fieldsCanBeHeld]
    | cons field fields ih =>
      obtain ⟨name, value⟩ := field
      rw [fieldsCanBeHeld, Bool.and_eq_true, Bool.and_eq_true, ih, List.forall_mem_cons]
  rw [canBeHeld, Bool.and_eq_true, decide_eq_true_eq, each]

/-! ## What decoders hand on -/

section

variable {σ : Type} {step : σ → String → Reading → Option (Decoded σ)} {levels : Nat} {s t : σ}

/-- **What each step keeps, all fields keep.** -/
theorem foldFields_keeps (Inv : σ → Prop) {fields : List (Option String × Reading)}
    (keeps : ∀ s name value t, Inv s → value.canBeHeld levels = true →
      step s name value = some (.ok t) → Inv t)
    (held : ∀ field ∈ fields, field.2.canBeHeld levels = true) (inv : Inv s)
    (h : foldFields step s fields = .ok t) : Inv t := by
  induction fields generalizing s with
  | nil =>
    obtain rfl := Except.ok.inj h
    exact inv
  | cons field fields ih =>
    obtain ⟨name, value⟩ := field
    obtain ⟨first, others⟩ := List.forall_mem_cons.1 held
    cases name with
    | none => cases h
    | some name =>
      rw [foldFields] at h
      cases taken : step s name value with
      | none =>
        -- A field that the step does not take is skipped, or ends the reading.
        rw [taken] at h
        simp only at h
        split at h
        · exact ih others inv h
        · cases h
      | some next =>
        rw [taken] at h
        obtain ⟨u, rfl, h⟩ := bind_eq_ok_iff.1 h
        exact ih others (keeps s name value u inv first taken) h

/-- **What each step keeps, a record keeps**, whether it is an object or an array. -/
theorem record_keeps (Inv : σ → Prop) {names : List String} {least : Nat} {r : Reading}
    (keeps : ∀ s name value t, Inv s → value.canBeHeld (levels - 1) = true →
      step s name value = some (.ok t) → Inv t)
    (held : r.canBeHeld levels = true) (inv : Inv s)
    (h : r.record names least step s = .ok t) : 0 < levels ∧ Inv t := by
  cases r with
  | object fields =>
    obtain ⟨pos, each⟩ := canBeHeld_object.1 held
    exact ⟨pos, foldFields_keeps Inv keeps (fun field mem => (each field mem).2) inv h⟩
  | array items =>
    obtain ⟨pos, each⟩ := canBeHeld_array.1 held
    obtain ⟨u, hu, h⟩ := bind_eq_ok_iff.1 h
    have zipped : ∀ field ∈ (names.map some).zip items,
        field.2.canBeHeld (levels - 1) = true :=
      fun field mem => each _ (List.of_mem_zip mem).2
    split at h
    · obtain rfl := Except.ok.inj h
      exact ⟨pos, foldFields_keeps Inv keeps zipped inv hu⟩
    · cases h
  | _ => cases h

end

section

variable {α : Type} {read : Reading → Decoded α} {levels : Nat}

/-- A slot of a draft is empty, or it was decoded from a reading with these levels. -/
def IsTaken (levels : Nat) (read : Reading → Decoded α) (slot : Option α) : Prop :=
  ∀ a ∈ slot, ∃ value, value.canBeHeld levels = true ∧ read value = .ok a

theorem isTaken_none : IsTaken levels read none := fun _ mem => nomatch mem

/-- A field that is met only once is taken from its value. -/
theorem isTaken_of_once {slot new : Option α} {value : Reading}
    (held : value.canBeHeld levels = true) (h : once slot read value = .ok new) :
    IsTaken levels read new := by
  cases slot with
  | some a => cases h
  | none =>
    obtain ⟨a, ha, rfl⟩ := map_eq_ok_iff.1 h
    intro b hb
    obtain rfl := Option.some.inj hb
    exact ⟨value, held, ha⟩

/-- Each item of a list is decoded from a part with one level less. -/
theorem exists_of_list {r : Reading} {as : List α} (held : r.canBeHeld levels = true)
    (h : r.list read = .ok as) : 0 < levels ∧
      ∀ a ∈ as, ∃ item, item.canBeHeld (levels - 1) = true ∧ read item = .ok a := by
  cases r with
  | array items =>
    obtain ⟨pos, each⟩ := canBeHeld_array.1 held
    refine ⟨pos, fun a mem => ?_⟩
    obtain ⟨item, hitem, ha⟩ := Outcome.exists_of_mem_mapM h mem
    exact ⟨item, each item hitem, ha⟩
  | _ => cases h

/-- The content of a tagged value has no more levels than the value. -/
theorem canBeHeld_of_tagged {isNested : Bool} {table : List (String × α)} {r content : Reading}
    {a : α} (held : r.canBeHeld levels = true)
    (h : r.tagged isNested table = .ok (a, content)) : content.canBeHeld levels = true := by
  cases r with
  | object fields =>
    obtain ⟨pos, each⟩ := canBeHeld_object.1 held
    rw [tagged] at h
    split at h
    · obtain ⟨_, -, h⟩ := bind_eq_ok_iff.1 h
      cases h
      exact canBeHeld_object.2 ⟨pos, fun field mem => each field (List.mem_filter.1 mem).1⟩
    · cases h
  | array items =>
    obtain ⟨pos, each⟩ := canBeHeld_array.1 held
    cases items with
    | nil => cases h
    | cons tag items =>
      obtain ⟨_, -, h⟩ := bind_eq_ok_iff.1 h
      cases h
      exact canBeHeld_array.2 ⟨pos, (List.forall_mem_cons.1 each).2⟩
  | _ => cases h

/-- The one field of a content is decoded from a part with one level less. -/
theorem exists_of_only {field : String} {r : Reading} {a : α} (held : r.canBeHeld levels = true)
    (h : Sparql.only field read r = .ok a) :
    0 < levels ∧ ∃ value, value.canBeHeld (levels - 1) = true ∧ read value = .ok a := by
  obtain ⟨slot, hslot, h⟩ := bind_eq_ok_iff.1 h
  have kept : 0 < levels ∧ IsTaken (levels - 1) read slot := by
    refine record_keeps (IsTaken (levels - 1) read) (fun _ name value _ _ heldValue taken => ?_)
      held isTaken_none hslot
    split at taken
    · exact isTaken_of_once heldValue (Option.some.inj taken)
    · cases taken
  cases slot with
  | none => cases h
  | some b =>
    obtain rfl := Except.ok.inj h
    exact ⟨kept.1, kept.2 b rfl⟩

end

end Reading

/-! ## Parts of a written value -/

/-- The fields of a stored record are read under their names. -/
theorem fieldReadings_eq (fields : List (String × Json)) :
    fieldReadings fields = fields.map fun field => (some field.1, field.2.reading) := by
  induction fields with
  | nil => rfl
  | cons field fields ih => rw [fieldReadings, ih, List.map_cons]

/-- A stored list takes one level more than its items. -/
theorem canBeHeld_array {levels : Nat} {items : List Json} :
    (array items).reading.canBeHeld levels = true ↔
      0 < levels ∧ ∀ item ∈ items, item.reading.canBeHeld (levels - 1) = true := by
  rw [reading, Reading.canBeHeld_array, itemReadings_eq, List.forall_mem_map]

/-- A stored record takes one level more than its values. -/
theorem canBeHeld_object {levels : Nat} {fields : List (String × Json)} :
    (object fields).reading.canBeHeld levels = true ↔
      0 < levels ∧ ∀ field ∈ fields, field.2.reading.canBeHeld (levels - 1) = true := by
  rw [reading, Reading.canBeHeld_object, fieldReadings_eq, List.forall_mem_map]
  simp only [Option.isSome_some, true_and]

/-- A stored text takes no level. -/
@[simp] theorem canBeHeld_string (levels : Nat) (s : String) :
    (string s).reading.canBeHeld levels = true := by
  rw [reading, Reading.canBeHeld, Option.isSome_some]

end Json
end DateFacet
