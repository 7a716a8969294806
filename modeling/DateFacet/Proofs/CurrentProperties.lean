/-
# The properties that a session answers from

A session looks the properties of a class up for every answer and keeps none of them.  What it
finds depends on the history of the catalogue only through the last thing that was said about the
class (`held`):

| last about the class | held |
| --- | --- |
| it was inserted | the properties that were inserted |
| it was erased | nothing |
| neither | the last entry of the class in the specification |

The specification is JSON, in which a class may have several entries; `Catalogue.entriesOfReading`
keeps them all, in their order.  A class of which nothing is held has no properties, so a session
answers about it as about the empty ones.
-/

import DateFacet.Proofs.AcceptedValues
import DateFacet.Stored
import Mathlib.Data.Finset.Card

namespace DateFacet

open Outcome (bind_eq_ok_iff map_eq_ok_iff mapError_eq_ok_iff)

namespace Catalogue

open Json (Reading)

/-! ## The catalogue of a specification -/

/-- The last entry of a class counts. -/
theorem get?_foldl_insert (c : Catalogue) (entries : List (String × Properties)) (name : String) :
    (entries.foldl (fun c entry => c.insert entry.1 entry.2) c).get? name =
      (entries.reverse.lookup name).or (c.get? name) := by
  induction entries generalizing c with
  | nil => rfl
  | cons entry entries ih =>
    obtain ⟨key, p⟩ := entry
    rw [List.foldl_cons, ih, List.reverse_cons, List.lookup_append, Option.or_assoc, get?_insert,
      List.lookup_cons, List.lookup_nil]
    by_cases h : name = key
    · rw [if_pos h, beq_iff_eq.2 h]
      rfl
    · rw [if_neg h, beq_eq_false_iff_ne.2 h]
      rfl

/-- The last of several entries of a class counts. -/
theorem get?_ofList (entries : List (String × Properties)) (name : String) :
    (ofList entries).get? name = entries.reverse.lookup name := by
  rw [ofList, get?_foldl_insert, get?_empty, Option.or_none]

/-- The entries of a specification, in the order in which they are written and as often. -/
def entriesOfReading : Reading → Decoded (List (String × Properties))
  | .object fields => fields.mapM entryOfField
  | _ => .error .malformed
where
  entryOfField : Option String × Reading → Decoded (String × Properties)
    | (some name, value) => (Properties.ofReading value).map (name, ·)
    | (none, _) => .error .malformed

/-- Fields that are read into a catalogue one by one are entries that are inserted one by one. -/
theorem foldFields_insert (c : Catalogue) (fields : List (Option String × Reading)) :
    Reading.foldFields
        (fun c name value => some ((Properties.ofReading value).map (c.insert name))) c fields =
      (fields.mapM entriesOfReading.entryOfField).map
        (List.foldl (fun c entry => c.insert entry.1 entry.2) c) := by
  induction fields generalizing c with
  | nil => rfl
  | cons field fields ih =>
    obtain ⟨name, value⟩ := field
    rw [List.mapM_cons]
    cases name with
    | none => rfl
    | some name =>
      -- Both sides decode the value first, and fail with it.
      simp only [Reading.foldFields, entriesOfReading.entryOfField]
      cases Properties.ofReading value with
      | error e => rfl
      | ok p =>
        change Reading.foldFields _ (c.insert name p) fields = _
        rw [ih]
        cases fields.mapM entriesOfReading.entryOfField <;> rfl

/-- A specification is decoded to the catalogue of its entries. -/
theorem ofReading_eq (reading : Reading) :
    ofReading reading = ofList <$> entriesOfReading reading := by
  cases reading with
  | object fields => exact foldFields_insert empty fields
  | _ => rfl

/-- **The catalogue of a text is that of its entries.** -/
theorem ofText_eq_ok_iff {text : String} {c : Catalogue} : ofText text = .ok c ↔
    ∃ entries, Json.decode entriesOfReading text = .ok entries ∧ c = ofList entries := by
  simp only [ofText, mapError_eq_ok_iff, Json.decode_eq_ok_iff, ofReading_eq]
  constructor
  · rintro ⟨read, closed⟩
    obtain ⟨entries, parts, rfl⟩ := map_eq_ok_iff.1 read
    exact ⟨entries, ⟨parts, closed⟩, rfl⟩
  · rintro ⟨entries, ⟨parts, closed⟩, rfl⟩
    exact ⟨map_eq_ok_iff.2 ⟨entries, parts, rfl⟩, closed⟩

/-- **The size of a catalogue is the number of classes that it knows.** -/
theorem exists_names (c : Catalogue) :
    ∃ names : Finset String, (∀ name, name ∈ names ↔ (c.get? name).isSome = true) ∧
      c.size = names.card := by
  refine ⟨(c.entries.map Prod.fst).toFinset, fun name => ?_, ?_⟩
  · rw [List.mem_toFinset, get?]
    generalize c.entries = entries
    induction entries with
    | nil => simp
    | cons entry entries ih =>
      rw [List.map_cons, List.mem_cons, List.lookup_cons, ih]
      by_cases h : name = entry.1
      · simp [h]
      · simp [h, beq_eq_false_iff_ne.2 h]
  · rw [List.toFinset_card_of_nodup c.nodup, List.length_map, size]

end Catalogue

namespace Session

/-! ## What is held -/

/-- What a step says about a class: its properties if the step inserts it, that it has none if the
step erases it, and otherwise nothing. -/
def Step.setting? (className : String) : Step → Option (Option Properties)
  | .insert name p => if className = name then some (some p) else none
  | .erase name => if className = name then some none else none
  | _ => none

/-- The properties that a class has after steps: by the last of them that says something about it,
or else by its last entry in the specification. -/
def held (entries : List (String × Properties)) (steps : List Step) (className : String) :
    Option Properties :=
  (steps.filterMap (Step.setting? className)).getLast?.getD (entries.reverse.lookup className)

/-- An edit gives its class what it sets, and leaves the others. -/
theorem get?_edit (next : Step) (c : Catalogue) (className : String) :
    (next.edit c).get? className = (next.setting? className).getD (c.get? className) := by
  cases next with
  | insert name p =>
    rw [Step.edit, Step.setting?, Catalogue.get?_insert]
    split <;> rfl
  | erase name =>
    rw [Step.edit, Step.setting?, Catalogue.get?_erase]
    split <;> rfl
  | _ => rfl

/-- After a run a class has what was last said about it. -/
theorem get?_run (s : Session) (steps : List Step) (className : String) :
    (s.run steps).catalogue.get? className =
      (steps.filterMap (Step.setting? className)).getLast?.getD
        (s.catalogue.get? className) := by
  induction steps generalizing s with
  | nil => rfl
  | cons next steps ih =>
    rw [run_cons, ih, catalogue_step, get?_edit]
    cases h : next.setting? className with
    | none => rw [List.filterMap_cons_none h, Option.getD_none]
    | some p => rw [List.filterMap_cons_some h, List.getLast?_cons, Option.getD_some,
        Option.getD_some]

/-- **A class has what was last said of it**, by a step or in the specification. -/
theorem get?_run_start (config : Config) (entries : List (String × Properties))
    (steps : List Step) (className : String) :
    ((start config (.ofList entries)).run steps).catalogue.get? className =
      held entries steps className := by
  rw [get?_run, held]
  exact congrArg _ (Catalogue.get?_ofList entries className)

/-! ## Answers -/

/-- The class that a step asks about. -/
def Step.subject? : Step → Option String
  | .isBlocking className => some className
  | .properties className => some className
  | .get className => some className
  | .patterns _ className _ _ => some className
  | .allPatterns className _ _ => some className
  | _ => none

/-- Every answer about a class is that of the properties that are held of it, or of the empty ones
if nothing is held. -/
structure AnswersBy (s : Session) (className : String) (held : Option Properties) : Prop where
  get : (s.step (.get className)).2 = .ok (.properties held)
  properties : (s.step (.properties className)).2 = .ok (.properties (some (held.getD .empty)))
  isBlocking : (s.step (.isBlocking className)).2 = .ok (.flag (held.getD .empty).isBlocking)
  /-- The patterns of one range are those of the range, if there is one at the index. -/
  patterns : ∀ index subject object,
    (s.step (.patterns index className subject object)).2 =
      ((s.values[index]?.elim (.error (.indexOutOfRange index s.values.length)) fun r =>
        r.patterns (held.getD .empty) subject object).map .patterns).mapError .compile
  allPatterns : ∀ subject object,
    (s.step (.allPatterns className subject object)).2 =
      ((s.values.mapM fun r : Range => r.patterns (held.getD .empty) subject object).map
        .allPatterns).mapError .compile
  /-- An edit of the class is answered with what was held before it. -/
  insert : ∀ p, (s.step (.insert className p)).2 = .ok (.properties held)
  erase : (s.step (.erase className)).2 = .ok (.properties held)

/-- A session answers about a class by what its catalogue has at that time. -/
theorem answersBy (s : Session) (className : String) :
    s.AnswersBy className (s.catalogue.get? className) where
  get := rfl
  properties := by rw [step, ask, Catalogue.resolve_eq]
  isBlocking := by rw [step, ask, Catalogue.resolve_eq]
  patterns := fun index subject object => by
    rw [step, ask, Session.patterns, Catalogue.resolve_eq]
    cases s.values[index]? <;> rfl
  allPatterns := fun subject object => by
    rw [step, ask, Session.allPatterns, Catalogue.resolve_eq]
  insert := fun _ => rfl
  erase := rfl

/-- A question about a class is answered from the accepted ranges and from the properties of this
class, and from nothing else. -/
theorem reply_congr {s t : Session} {className : String} {query : Step}
    (values : s.values = t.values)
    (same : s.catalogue.get? className = t.catalogue.get? className)
    (h : query.subject? = some className) : (s.step query).2 = (t.step query).2 := by
  have left := s.answersBy className
  have right := t.answersBy className
  rw [same] at left
  cases query with
  | isBlocking => cases h; rw [left.isBlocking, right.isBlocking]
  | properties => cases h; rw [left.properties, right.properties]
  | get => cases h; rw [left.get, right.get]
  | patterns => cases h; rw [left.patterns, right.patterns, values]
  | allPatterns => cases h; rw [left.allPatterns, right.allPatterns, values]
  | _ => cases h

/-- A step that neither adds a range nor edits the class changes no answer about the class. -/
theorem reply_after_step {next query : Step} {className : String} (s : Session)
    (input : next.input? = none) (setting : next.setting? className = none)
    (h : query.subject? = some className) :
    ((s.step next).1.step query).2 = (s.step query).2 := by
  refine reply_congr ?_ ?_ h
  · rw [step_of_no_input input]
  · rw [catalogue_step, get?_edit, setting, Option.getD_none]

/-- **A session never answers from an old specification.**  The catalogue of a specification is
that of its entries, of which the last one of a class counts; without a specification there are no
entries.  After any steps from there, every answer about a class is the one by the properties that
were last inserted for it and not erased since, or by the empty ones, and an edit of the class is
answered with what was held before it.  No edit of another class changes an answer about this one,
and the size of the catalogue is the number of classes of which something is held. -/
theorem answers_current :
    (∀ text c, Catalogue.ofText text = .ok c ↔
      ∃ entries, Json.decode Catalogue.entriesOfReading text = .ok entries ∧
        c = .ofList entries) ∧
    Catalogue.ofList [] = .empty ∧
    ∀ (config : Config) (entries : List (String × Properties)) (steps : List Step),
      let s := (start config (.ofList entries)).run steps
      (∀ className, s.AnswersBy className (held entries steps className)) ∧
      (∀ className query, query.subject? = some className → ∀ other, className ≠ other →
        (∀ p, ((s.step (.insert other p)).1.step query).2 = (s.step query).2) ∧
          ((s.step (.erase other)).1.step query).2 = (s.step query).2) ∧
      ∃ names : Finset String, (∀ name, name ∈ names ↔ (held entries steps name).isSome = true) ∧
        s.catalogue.size = names.card := by
  refine ⟨fun _ _ => Catalogue.ofText_eq_ok_iff, rfl, fun config entries steps => ?_⟩
  intro s
  refine ⟨fun className => ?_, fun className query h other ne => ⟨fun p => ?_, ?_⟩, ?_⟩
  · rw [← get?_run_start config]
    exact s.answersBy className
  · exact reply_after_step s rfl (if_neg ne) h
  · exact reply_after_step s rfl (if_neg ne) h
  · simp only [← get?_run_start config]
    exact s.catalogue.exists_names

/-- The statements of `answers_current` at a specification with two entries of one class: the
second one counts, through edits of another class, until the class is erased. -/
theorem answers_current_reign :
    ∃ entries c,
      Json.decode Catalogue.entriesOfReading
        "\x7b\"ex:reign\":\x7b\x7d,\"ex:reign\":\x7b\"exactDateProperty\":\"ex:date\"\x7d\x7d" =
          .ok entries ∧
      Catalogue.ofText
        "\x7b\"ex:reign\":\x7b\x7d,\"ex:reign\":\x7b\"exactDateProperty\":\"ex:date\"\x7d\x7d" =
          .ok c ∧
      (((start .standard c).run [.insert "ex:war" .empty, .erase "ex:war"]).step
        (.get "ex:reign")).2 = .ok (.properties (some ⟨none, none, some "ex:date"⟩)) ∧
      (((start .standard c).run [.insert "ex:war" .empty, .erase "ex:reign"]).step
        (.properties "ex:reign")).2 = .ok (.properties (some .empty)) := by
  have decoded : Json.decode Catalogue.entriesOfReading
      "\x7b\"ex:reign\":\x7b\x7d,\"ex:reign\":\x7b\"exactDateProperty\":\"ex:date\"\x7d\x7d" =
        .ok [("ex:reign", .empty), ("ex:reign", ⟨none, none, some "ex:date"⟩)] := by
    decide +kernel
  obtain ⟨ofText, -, answers⟩ := answers_current
  refine ⟨_, _, decoded, (ofText _ _).2 ⟨_, decoded, rfl⟩, ?_, ?_⟩
  · rw [((answers _ _ _).1 "ex:reign").get]
    exact congrArg (fun p => Except.ok (Reply.properties p)) (by decide +kernel)
  · rw [((answers _ _ _).1 "ex:reign").properties]
    exact congrArg (fun p => Except.ok (Reply.properties (some p))) (by decide +kernel)

end Session
end DateFacet
