/-
# The ways to enter a value

Two texts reach a session in three ways: typed (`add`), as a raw input with sides that may be
absent (`addInput`), and for a look at their range only (`normalize`).  All three read the texts in
the same way:

| | answers with | accepts |
| --- | --- | --- |
| `add` | the range, or why there is none | the range |
| `addInput` | the same, an absent side as the empty text | the same |
| `normalize` | the same | nothing |

So a run may enter its values in whichever way, and reaches the same session
(`Session.run_entries`).  What is entered on one side alone is a value exactly if the session takes
its text for a date (`Session.entries_agree`).  The two questions take the blanks around the text
away at different places, and the one that is about ranges does so twice
(`RangeReader.readSide_eq_bind`).

An absent side is like the empty text and not like a blank one: all three are open sides, but an
input that is refused is reported with its texts as they were entered.
-/

import DateFacet.Proofs.AcceptedValues
import DateFacet.Proofs.RangeOutcome

namespace DateFacet
namespace RangeReader

open Range (IsWindow)

variable {reader : RangeReader}

/-- **An absent side is read like the empty text**, by its date and in every report. -/
theorem range_getD (reader : RangeReader) (input : RawInput) :
    reader.range input =
      reader.range ⟨some (input.start.getD ""), some (input.stop.getD "")⟩ := by
  have side (raw : Option String) :
      reader.readSide (some (raw.getD "")) = reader.readSide raw := by
    cases raw <;> rfl
  simp only [range, side, Option.getD_some]

/-- A side alone is a range exactly if it has a date, whichever side it is. -/
theorem exists_range_alone_iff {text : String} :
    ((∃ r, reader.range ⟨some text, some ""⟩ = .ok r) ↔ (reader.readSide (some text)).isSome) ∧
      ((∃ r, reader.range ⟨some "", some text⟩ = .ok r) ↔
        (reader.readSide (some text)).isSome) := by
  have blank : reader.readSide (some "") = none := rfl
  rw [exists_range_iff, exists_range_iff, blank]
  cases reader.readSide (some text) <;> simp [IsWindow]

end RangeReader

namespace Session

variable {s : Session} {next other : Step}

/-- The two texts that a step enters, an absent one as the empty text. -/
def Step.texts? (next : Step) : Option (String × String) :=
  next.input?.map fun input => (input.start.getD "", input.stop.getD "")

/-- A step that enters texts does what typing them does. -/
theorem step_of_texts {start stop : String} (h : next.texts? = some (start, stop)) :
    s.step next = s.step (.add start stop) := by
  obtain ⟨input, entered, texts⟩ := Option.map_eq_some_iff.1 h
  obtain ⟨rfl, rfl⟩ := Prod.mk.inj texts
  rw [step_of_input entered, step, acceptInput, acceptInput, rangeOf, rangeOf,
    RangeReader.range_getD]

/-- A look at the range of two texts answers what accepting them answers, and accepts nothing. -/
theorem step_normalize (s : Session) (start stop : String) :
    s.step (.normalize start stop) = (s, (s.step (.add start stop)).2) := by
  rw [step, step, acceptInput, ask]
  cases s.rangeOf ⟨some start, some stop⟩ <;> rfl

/-- A session that has just accepted a range tells which. -/
theorem accept_inj {r q : Range} : s.accept r = s.accept q ↔ r = q := by
  simp [accept]

/-- A session that accepts a range has changed. -/
theorem accept_ne (s : Session) (r : Range) : s ≠ s.accept r := by
  intro same
  have longer := congrArg (fun s => s.values.length) same
  simp [accept] at longer

/-- **What a look shows is what would be accepted.** -/
theorem step_normalize_eq_range_iff {start stop : String} {r : Range} :
    (s.step (.normalize start stop)).2 = .ok (.range r) ↔
      (s.step (.add start stop)).1 = s.accept r := by
  rw [step_normalize]
  rcases @step_of_input_cases s (.add start stop) _ rfl with ⟨q, -, eq⟩ | ⟨cause, -, eq⟩
  · rw [eq, accept_inj]
    simp
  · rw [eq]
    exact iff_of_false nofun (s.accept_ne r)

/-! ## Runs -/

/-- The steps are one, or enter the same texts. -/
def Step.Alike (next other : Step) : Prop :=
  next = other ∨ ∃ texts, next.texts? = some texts ∧ other.texts? = some texts

/-- Steps that are alike answer and do the same. -/
theorem step_of_alike (h : next.Alike other) : s.step next = s.step other := by
  rcases h with rfl | ⟨texts, left, right⟩
  · rfl
  · rw [step_of_texts left, step_of_texts right]

/-- **It makes no difference to a run in which way its values are entered.** -/
theorem run_entries {steps others : List Step} (h : List.Forall₂ Step.Alike steps others)
    (s : Session) : s.run steps = s.run others := by
  induction h generalizing s with
  | nil => rfl
  | cons alike _ ih => rw [run_cons, run_cons, step_of_alike alike, ih]

/-! ## One text alone -/

/-- The step has an answer that is no failure. -/
def Succeeds (s : Session) (next : Step) : Prop := ∃ reply, (s.step next).2 = .ok reply

/-- A step with an input succeeds exactly if the input is a range. -/
theorem succeeds_iff_of_input {input : RawInput} (h : next.input? = some input) :
    s.Succeeds next ↔ ∃ r, s.config.reader.range input = .ok r := by
  rw [Succeeds]
  rcases step_of_input_cases (s := s) h with ⟨r, read, eq⟩ | ⟨cause, read, eq⟩
  · simp [eq, read]
  · simp [eq, read]

/-- A session takes a text for a date exactly if the text as a side has one. -/
theorem isText_eq_isSome (s : Session) (text : String) :
    s.isText text = (s.config.reader.readSide (some text)).isSome := by
  rw [RangeReader.readSide_eq_bind]
  rfl

/-- **The ways to enter a value agree.**  In any session: a raw input with both sides has the answer
of typing its texts and leads to the same session; a look at the range of two texts has that answer
too, range or failure, leaves the session as it is, and shows a range exactly if typing the texts
puts it at the end of the list; and an absent side is the empty text in everything that comes of it.
A text alone is accepted as a start exactly if it is accepted as a stop, exactly if the session says
that it is a date, and exactly if it names an instant. -/
theorem entries_agree (s : Session) :
    (∀ start stop, s.step (.addInput ⟨some start, some stop⟩) = s.step (.add start stop) ∧
      s.step (.normalize start stop) = (s, (s.step (.add start stop)).2) ∧
      ∀ r, (s.step (.normalize start stop)).2 = .ok (.range r) ↔
        (s.step (.add start stop)).1 = s.accept r) ∧
    (∀ input : RawInput, s.step (.addInput input) =
      s.step (.addInput ⟨some (input.start.getD ""), some (input.stop.getD "")⟩)) ∧
    ∀ text, [s.Succeeds (.add text ""), s.Succeeds (.add "" text),
      (s.step (.isText text)).2 = .ok (.flag true),
      ∃ t, Instant.ofText s.config.slashes text = .ok t].TFAE := by
  refine ⟨fun start stop =>
      ⟨step_of_texts rfl, s.step_normalize start stop, fun r => step_normalize_eq_range_iff⟩,
    fun input => step_of_alike (.inr ⟨_, rfl, rfl⟩), fun text => ?_⟩
  have asked : (s.step (.isText text)).2 = .ok (.flag true) ↔ s.isText text = true := by
    simp [step, ask]
  obtain ⟨start, stop⟩ := @RangeReader.exists_range_alone_iff s.config.reader text
  rw [asked]
  tfae_have 1 ↔ 3 := by rw [succeeds_iff_of_input rfl, start, isText_eq_isSome]
  tfae_have 2 ↔ 3 := by rw [succeeds_iff_of_input rfl, stop, isText_eq_isSome]
  tfae_have 3 ↔ 4 := by
    rw [isText, Instant.isText]
    cases Instant.ofText s.config.slashes text <;> simp [Except.toOption]
  tfae_finish

end Session
end DateFacet
