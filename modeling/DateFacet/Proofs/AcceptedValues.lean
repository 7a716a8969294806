/-
# What a run of a session accepts

A session is asked one thing after another, while its catalogue is edited in between.  A step can
touch three parts of the session, and each of them follows a rule of its own:

| part | what a step does to it | |
| --- | --- | --- |
| configuration | nothing | `config_step` |
| accepted ranges | puts a range at the end, if its input is one | `values_step` |
| catalogue | inserts or erases a class | `catalogue_step` |

A step that fails touches none of them (`step_of_error`).  What a run does follows by induction from
these equations: the accepted ranges are those of the inputs, in their order, whatever else was
asked in between (`values_run`).  The reader is the only one who makes them, so each is a window
whose ends are those of a day or of a year.
-/

import DateFacet.Proofs.RangeWindow
import DateFacet.Session

namespace DateFacet

/-- The first second of a day, or the second after the first midnight of a year. -/
def Granularity.Opens : Granularity → Instant → Prop
  | .day, t => t.hour = 0 ∧ t.minute = 0 ∧ t.second = 0
  | .year, t => t.month = 1 ∧ t.day = 1 ∧ t.hour = 0 ∧ t.minute = 0 ∧ t.second = 1

/-- The last second of a day, or of a year. -/
def Granularity.Closes : Granularity → Instant → Prop
  | .day, t => t.hour = 23 ∧ t.minute = 59 ∧ t.second = 59
  | .year, t => t.month = 12 ∧ t.day = 31 ∧ t.hour = 23 ∧ t.minute = 59 ∧ t.second = 59

namespace RangeReader

/-- A widened start is the first second of its day or year. -/
theorem opens_widenStart (reader : RangeReader) (t : Instant) :
    reader.granularity.Opens (reader.widenStart t) := by
  unfold widenStart
  cases reader.granularity with
  | day => exact ⟨rfl, rfl, rfl⟩
  | year => exact ⟨rfl, rfl, rfl, rfl, rfl⟩

/-- A widened stop is the last second of its day or year. -/
theorem closes_widenStop (reader : RangeReader) (t : Instant) :
    reader.granularity.Closes (reader.widenStop t) := by
  unfold widenStop
  cases reader.granularity with
  | day => exact ⟨rfl, rfl, rfl⟩
  | year => exact ⟨rfl, rfl, rfl, rfl, rfl⟩

/-- **A range that was read is a window of whole days, or of whole years.** -/
theorem isWindow_and_whole_of_range {reader : RangeReader} {input : RawInput} {r : Range}
    (h : reader.range input = .ok r) :
    Range.IsWindow r.start r.stop ∧ (∀ first ∈ r.start, reader.granularity.Opens first) ∧
      ∀ last ∈ r.stop, reader.granularity.Closes last := by
  obtain ⟨start, stop⟩ := bounds_of_range h
  have window := isWindow_of_range rfl rfl h
  rw [start, stop]
  refine ⟨window.map fun _ _ => reader.widenStart_le_widenStop, fun first hfirst => ?_, fun last hlast => ?_⟩
  · obtain ⟨s, -, rfl⟩ := Option.map_eq_some_iff.1 hfirst
    exact reader.opens_widenStart s
  · obtain ⟨e, -, rfl⟩ := Option.map_eq_some_iff.1 hlast
    exact reader.closes_widenStop e

end RangeReader

namespace Session

/-! ## One step -/

/-- The raw input that a step asks to accept. -/
def Step.input? : Step → Option RawInput
  | .add start stop => some ⟨some start, some stop⟩
  | .addInput input => some input
  | _ => none

/-- What a step makes of the catalogue. -/
def Step.edit : Step → Catalogue → Catalogue
  | .insert className p, c => c.insert className p
  | .erase className, c => c.erase className
  | _, c => c

/-- A step with an input is no edit. -/
theorem Step.edit_of_input {next : Step} {input : RawInput} (h : next.input? = some input)
    (c : Catalogue) : next.edit c = c := by
  cases next with
  | insert => cases h
  | erase => cases h
  | _ => rfl

/-- The range that a step adds, under a configuration. -/
def accepted? (config : Config) (next : Step) : Option Range :=
  next.input?.bind fun input => (config.reader.range input).toOption

variable {s : Session} {next : Step} {input : RawInput}

/-- An input with a range is accepted, and the range is the answer. -/
theorem acceptInput_ok {r : Range} (h : s.config.reader.range input = .ok r) :
    s.acceptInput input = (s.accept r, .ok (.range r)) := by
  rw [acceptInput, rangeOf, h]

/-- An input without a range is refused, and nothing is accepted. -/
theorem acceptInput_error {cause : ValidationError}
    (h : s.config.reader.range input = .error cause) :
    s.acceptInput input = (s, .error (.validation cause)) := by
  rw [acceptInput, rangeOf, h]

/-- The two ways to add a range are one. -/
theorem step_of_input (h : next.input? = some input) : s.step next = s.acceptInput input := by
  cases next <;> cases h <;> rfl

/-- A step without an input edits the catalogue at most. -/
theorem step_of_no_input (h : next.input? = none) :
    (s.step next).1 = { s with catalogue := next.edit s.catalogue } := by
  cases next with
  | add => cases h
  | addInput => cases h
  | _ => rfl

/-- **A step with an input succeeds with the range that it adds, or fails and changes nothing.** -/
theorem step_of_input_cases (h : next.input? = some input) :
    (∃ r, s.config.reader.range input = .ok r ∧ s.step next = (s.accept r, .ok (.range r))) ∨
      ∃ cause, s.config.reader.range input = .error cause ∧
        s.step next = (s, .error (.validation cause)) := by
  rw [step_of_input h]
  cases read : s.config.reader.range input with
  | ok r => exact .inl ⟨r, rfl, acceptInput_ok read⟩
  | error cause => exact .inr ⟨cause, rfl, acceptInput_error read⟩

/-- **A step that fails changes nothing.** -/
theorem step_of_error {e : TemporalError} (h : (s.step next).2 = .error e) :
    (s.step next).1 = s := by
  cases input : next.input? with
  | some input =>
    rcases step_of_input_cases (s := s) input with ⟨r, -, eq⟩ | ⟨cause, -, eq⟩
    · rw [eq] at h
      cases h
    · rw [eq]
  | none =>
    -- Only an edit could change anything, and an edit always has an answer.
    cases next with
    | add => cases input
    | addInput => cases input
    | insert => cases h
    | erase => cases h
    | _ => rfl

/-- No step changes the configuration. -/
@[simp] theorem config_step (s : Session) (next : Step) : (s.step next).1.config = s.config := by
  cases input : next.input? with
  | some input =>
    rcases step_of_input_cases (s := s) input with ⟨r, -, eq⟩ | ⟨cause, -, eq⟩ <;> rw [eq]
    rfl
  | none => rw [step_of_no_input input]

/-- A step accepts the range of its input, if there is one, after those that were there. -/
theorem values_step (s : Session) (next : Step) :
    (s.step next).1.values = s.values ++ (accepted? s.config next).toList := by
  rw [accepted?]
  cases input : next.input? with
  | some input =>
    rcases step_of_input_cases (s := s) input with ⟨r, read, eq⟩ | ⟨cause, read, eq⟩
    · rw [eq, Option.bind_some, read]
      rfl
    · rw [eq, Option.bind_some, read]
      exact (List.append_nil _).symm
  | none =>
    rw [step_of_no_input input]
    exact (List.append_nil _).symm

/-- A step edits the catalogue in the way that it asks for. -/
theorem catalogue_step (s : Session) (next : Step) :
    (s.step next).1.catalogue = next.edit s.catalogue := by
  cases input : next.input? with
  | some input =>
    rw [Step.edit_of_input input]
    rcases step_of_input_cases (s := s) input with ⟨r, -, eq⟩ | ⟨cause, -, eq⟩ <;> rw [eq]
    rfl
  | none => rw [step_of_no_input input]

/-! ## Runs -/

/-- A run takes its first step and goes on from there. -/
theorem run_cons (s : Session) (next : Step) (steps : List Step) :
    s.run (next :: steps) = (s.step next).1.run steps := rfl

/-- No run changes the configuration. -/
@[simp] theorem config_run (s : Session) (steps : List Step) : (s.run steps).config = s.config := by
  induction steps generalizing s with
  | nil => rfl
  | cons next steps ih => rw [run_cons, ih, config_step]

/-- **A run accepts the ranges of its inputs**, after those that were there. -/
theorem values_run (s : Session) (steps : List Step) :
    (s.run steps).values = s.values ++ steps.filterMap (accepted? s.config) := by
  induction steps generalizing s with
  | nil => exact (List.append_nil _).symm
  | cons next steps ih =>
    rw [run_cons, ih, config_step, values_step, List.append_assoc]
    cases h : accepted? s.config next with
    | none => rw [List.filterMap_cons_none h]; rfl
    | some r => rw [List.filterMap_cons_some h]; rfl

/-- Everything that a step may do to what a session has accepted, and to its configuration. -/
structure Appends (s : Session) (next : Step) : Prop where
  config : (s.step next).1.config = s.config
  keeps : s.values <+: (s.step next).1.values
  /-- An input is accepted with one range, which is the answer, or it is refused. -/
  accepts : ∀ input, next.input? = some input →
    (∃ r, s.config.reader.range input = .ok r ∧ s.step next = (s.accept r, .ok (.range r))) ∨
      ∃ cause, s.config.reader.range input = .error cause ∧
        s.step next = (s, .error (.validation cause))
  /-- Whatever fails, it leaves the session as it is. -/
  fails : ∀ e, (s.step next).2 = .error e → (s.step next).1 = s
  /-- Without an input nothing is accepted. -/
  asks : next.input? = none → (s.step next).1.values = s.values

/-- Every step of every session does to it what `Appends` allows. -/
theorem appends (s : Session) (next : Step) : s.Appends next where
  config := config_step s next
  keeps := by
    rw [values_step]
    exact List.prefix_append _ _
  accepts := fun _ h => step_of_input_cases h
  fails := fun _ h => step_of_error h
  asks := fun h => by rw [step_of_no_input h]

/-- What a configuration accepts is a window of whole days or years. -/
theorem isWindow_and_whole_of_accepted {config : Config} {r : Range}
    (h : accepted? config next = some r) :
    Range.IsWindow r.start r.stop ∧ (∀ first ∈ r.start, config.granularity.Opens first) ∧
      ∀ last ∈ r.stop, config.granularity.Closes last := by
  obtain ⟨input, -, h⟩ := Option.bind_eq_some_iff.1 h
  cases read : config.reader.range input with
  | error cause => rw [read] at h; cases h
  | ok other =>
    rw [read] at h
    obtain rfl : other = r := Option.some.inj h
    exact RangeReader.isWindow_and_whole_of_range read

/-- **A session only ever appends, and accepts an input as a whole or not at all.**  After any
steps the configuration is the first one, and the accepted ranges are those that the configuration
makes of the inputs, in order.  Whatever is asked next keeps these ranges in front: an input that is
accepted adds the range that is answered and nothing else, a failure leaves the session as it is,
and all other steps leave the ranges as they are.  Every accepted range has a bound, its start does
not come after its stop, and its bounds are those of days or of years, by the granularity. -/
theorem run_appends (config : Config) (catalogue : Catalogue) (steps : List Step) :
    let s := (start config catalogue).run steps
    s.config = config ∧ s.values = steps.filterMap (accepted? config) ∧
      (∀ next, s.Appends next) ∧
      ∀ r ∈ s.values, Range.IsWindow r.start r.stop ∧
        (∀ first ∈ r.start, config.granularity.Opens first) ∧
          ∀ last ∈ r.stop, config.granularity.Closes last := by
  intro s
  have values : s.values = steps.filterMap (accepted? config) := values_run _ steps
  refine ⟨config_run _ steps, values, s.appends, fun r mem => ?_⟩
  rw [values] at mem
  obtain ⟨next, -, accepted⟩ := List.mem_filterMap.1 mem
  exact isWindow_and_whole_of_accepted accepted

/-- The statements of `run_appends` at a run of three inputs, of which two are accepted, one with an
open start, while the dates of the third are in the wrong order.  Between them a class is inserted,
and a constraint with a malformed variable is asked for. -/
theorem run_appends_reign :
    ((start ⟨.year, .iso, .dayFirst, .english⟩ .empty).run
      [.add "-600" "-500", .insert "ex:reign" ⟨some "ex:begin", some "ex:end", none⟩,
        .add "2021-05-05" "2019-01-01", .patterns 0 "ex:reign" "no name" "date",
        .addInput ⟨none, some "2000"⟩]).values.map Range.key =
      ["-0600-01-01T00:00:01Z - -0500-12-31T23:59:59Z", "null - 2000-12-31T23:59:59Z"] := by
  rw [(run_appends _ _ _).2.1]
  decide +kernel

end Session
end DateFacet
