/-
# Written JSON is read back

Each character of a string is written as one piece: as itself, as a letter after a backslash, or as
four hexadecimal digits.  A reader takes the piece off whatever follows it, and the piece stands for
the character again (`standsFor_escapeChar`).  So a string ends at its own closing mark, whatever it
holds.

A written value is then read as its tree (`reading`), in front of any rest (`readValue_chars`).  The
length of the value is fuel enough, since each value takes at least a character more than the values
in it.
-/

import DateFacet.Json.Decode
import DateFacet.Json.Value
import DateFacet.Proofs.Outcome

namespace DateFacet
namespace Json

/-! ## Strings -/

/-- Characters are read as one piece of a string, which stands for `c`. -/
def StandsFor (cs : List Char) (c : Char) : Prop :=
  ∃ piece,
    (∀ rest, scanPieces (cs ++ rest) =
      (scanPieces rest).map fun (pieces, rest) => (piece :: pieces, rest)) ∧
    ∀ pieces, joinPieces (piece :: pieces) = (joinPieces pieces).map (c :: ·)

/-- A backslash and a letter of the table are one character. -/
theorem standsFor_letter {letter c : Char} (h : escaped? letter = some c) :
    StandsFor ['\\', letter] c := by
  refine ⟨.char c, fun rest => ?_, fun _ => rfl⟩
  have ne : letter ≠ 'u' := by
    rintro rfl
    cases h
  rw [List.cons_append, List.cons_append, List.nil_append, scanPieces]
  · rw [h]
    cases scanPieces rest <;> rfl
  · exact fun _ _ _ _ _ eq _ => ne eq

/-- The two hexadecimal digits of a small code point are read back. -/
theorem hexUnit?_code : ∀ code < 0x20,
    hexUnit? '0' '0' (Nat.digitChar (code / 16)) (Nat.digitChar (code % 16)) = some code := by
  decide

/-- A code that is no half of a surrogate pair stands for a character by itself. -/
theorem joinPieces_unit {code : Nat} (h : code < 0xD800) (pieces : List Piece) :
    joinPieces (.unit code :: pieces) = (joinPieces pieces).map (Char.ofNat code :: ·) := by
  have high : isHighHalf code = false := by simp [isHighHalf]; omega
  have low : isLowHalf code = false := by simp [isLowHalf]; omega
  match pieces with
  | [] => simp [joinPieces, high, low]
  | .char c :: pieces => simp [joinPieces, high, low]
  | .unit next :: pieces => simp [joinPieces, high, low]

/-- A control character is read back from its code. -/
theorem standsFor_code {c : Char} (h : c.toNat < 0x20) : StandsFor (codeEscape c.toNat) c := by
  refine ⟨.unit c.toNat, fun rest => ?_, fun pieces => ?_⟩
  · rw [codeEscape]
    simp only [List.cons_append, List.nil_append, scanPieces, hexUnit?_code c.toNat h]
    cases scanPieces rest <;> rfl
  · rw [joinPieces_unit (by omega), Char.ofNat_toNat]

/-- A character that needs no escape stands for itself. -/
theorem standsFor_self {c : Char} (quote : c ≠ '"') (backslash : c ≠ '\\') (h : 0x20 ≤ c.toNat) :
    StandsFor [c] c := by
  refine ⟨.char c, fun rest => ?_, fun _ => rfl⟩
  rw [List.cons_append, List.nil_append, scanPieces]
  · rw [if_neg (by simp only [backslash, false_or]; omega)]
    cases scanPieces rest <;> rfl
  · exact quote
  · exact fun _ _ _ _ _ eq _ => backslash eq
  · exact fun _ _ eq _ => backslash eq

/-- **Every character is read back from the way it is written.** -/
theorem standsFor_escapeChar (c : Char) : StandsFor (escapeChar c) c := by
  unfold escapeChar
  -- The two marks and five control characters have letters; then come codes, and the rest.
  iterate 7
    split
    · next h =>
      subst h
      exact standsFor_letter rfl
  split
  · next h => exact standsFor_code h
  · next quote backslash _ _ _ _ _ code => exact standsFor_self quote backslash (by omega)

/-- An escaped string is scanned up to its quotation mark, in pieces that join to it. -/
theorem exists_scanPieces_escaped (cs rest : List Char) :
    ∃ pieces, scanPieces (cs.flatMap escapeChar ++ '"' :: rest) = some (pieces, rest) ∧
      joinPieces pieces = some cs := by
  induction cs with
  | nil => exact ⟨[], by simp [scanPieces], rfl⟩
  | cons c cs ih =>
    obtain ⟨pieces, scanned, joined⟩ := ih
    obtain ⟨piece, scan, join⟩ := standsFor_escapeChar c
    refine ⟨piece :: pieces, ?_, ?_⟩
    · rw [List.flatMap_cons, List.append_assoc, scan, scanned]
      rfl
    · rw [join, joined]
      rfl

/-- **A written string is read back**, whatever follows it. -/
theorem scanString_quoted (s : String) (rest : List Char) :
    ∃ inner, quoted s ++ rest = '"' :: inner ∧ scanString inner = some (some s, rest) := by
  obtain ⟨pieces, scanned, joined⟩ := exists_scanPieces_escaped s.toList rest
  refine ⟨s.toList.flatMap escapeChar ++ '"' :: rest, by simp [quoted], ?_⟩
  rw [scanString, scanned]
  simp [joined]

/-! ## Values -/

mutual

/-- The tree of a value. -/
def reading : Json → Reading
  | .null => .null
  | .string value => .string (some value)
  | .array items => .array (itemReadings items)
  | .object fields => .object (fieldReadings fields)

/-- The trees of items. -/
def itemReadings : List Json → List Reading
  | [] => []
  | item :: items => item.reading :: itemReadings items

/-- The trees of fields. -/
def fieldReadings : List (String × Json) → List (Option String × Reading)
  | [] => []
  | (name, value) :: fields => (some name, value.reading) :: fieldReadings fields

end

/-- The items of a list are read one by one. -/
theorem itemReadings_eq (items : List Json) : itemReadings items = items.map reading := by
  induction items with
  | nil => rfl
  | cons item items ih => rw [itemReadings, ih, List.map_cons]

/-- Nothing is skipped before a character that is no blank. -/
theorem skipSpace_cons {c : Char} (h : isSpace c = false) (cs : List Char) :
    skipSpace (c :: cs) = c :: cs := by
  rw [skipSpace, List.dropWhile_cons, h]
  rfl

/-- A value starts with no blank and with no closing bracket. -/
theorem exists_chars_eq_cons (v : Json) :
    ∃ c cs, v.chars = c :: cs ∧ isSpace c = false ∧ c ≠ ']' := by
  cases v with
  | null => exact ⟨'n', _, rfl, by decide, by decide⟩
  | string value => exact ⟨'"', _, rfl, by decide, by decide⟩
  | array items => exact ⟨'[', _, rfl, by decide, by decide⟩
  | object fields => exact ⟨'\x7b', _, rfl, by decide, by decide⟩

/-- An item that is not the last has a comma after it. -/
theorem itemChars_cons_cons (item next : Json) (items : List Json) :
    itemChars (item :: next :: items) = item.chars ++ ',' :: itemChars (next :: items) := by
  rw [itemChars]
  nofun

/-- A field that is not the last has a comma after it. -/
theorem fieldChars_cons_cons (name : String) (value : Json) (next : String × Json)
    (fields : List (String × Json)) : fieldChars ((name, value) :: next :: fields) =
      quoted name ++ ':' :: value.chars ++ ',' :: fieldChars (next :: fields) := by
  rw [fieldChars]
  nofun

/-- Written items begin with neither a blank nor the end of their list. -/
theorem exists_itemChars_eq_cons (item : Json) (items : List Json) :
    ∃ c cs, itemChars (item :: items) = c :: cs ∧ isSpace c = false ∧ c ≠ ']' := by
  obtain ⟨c, cs, eq, facts⟩ := item.exists_chars_eq_cons
  cases items with
  | nil => exact ⟨c, cs, eq, facts⟩
  | cons next items => exact ⟨c, _, by rw [itemChars_cons_cons, eq, List.cons_append], facts⟩

section

variable {fuel : Nat} {cs inner more rest : List Char} {value : Reading} {name : Option String}

/-! What the reader does at a value, at an item and at a field, by what it does after it.  Blanks may
stand before the first item or field and after the last. -/

/-- A list is read with its items. -/
theorem readValue_array {c : Char} {items : List Reading} (front : skipSpace more = c :: cs)
    (notClosing : c ≠ ']') (h : readItems fuel (c :: cs) = (items, some rest)) :
    readValue (fuel + 1) ('[' :: more) = (.array items, some rest) := by
  rw [readValue, skipSpace_cons (by decide)]
  simp only [front]
  split
  · next eq => exact absurd (List.cons.inj eq).1 notClosing
  · rw [h]

/-- A record is read with its fields. -/
theorem readValue_object {fields : List (Option String × Reading)}
    (front : skipSpace more = '"' :: cs)
    (h : readFields fuel ('"' :: cs) = (fields, some rest)) :
    readValue (fuel + 1) ('\x7b' :: more) = (.object fields, some rest) := by
  rw [readValue, skipSpace_cons (by decide)]
  simp only [front]
  split
  · next eq => exact absurd (List.cons.inj eq).1 (by decide)
  · rw [h]

/-- Items end at the one that the end of the list follows. -/
theorem readItems_last (h : readValue fuel cs = (value, some more))
    (closing : skipSpace more = ']' :: rest) : readItems (fuel + 1) cs = ([value], some rest) := by
  rw [readItems, h]
  simp only [closing]

/-- After an item and a comma, the items go on. -/
theorem readItems_next {items : List Reading}
    (h : readValue fuel cs = (value, some (',' :: more)))
    (others : readItems fuel more = (items, some rest)) :
    readItems (fuel + 1) cs = (value :: items, some rest) := by
  rw [readItems, h]
  simp only [skipSpace_cons (show isSpace ',' = false by decide), others]

/-- Fields end at the one that the end of the record follows. -/
theorem readFields_last (scanned : scanString inner = some (name, ':' :: cs))
    (h : readValue fuel cs = (value, some more)) (closing : skipSpace more = '\x7d' :: rest) :
    readFields (fuel + 1) ('"' :: inner) = ([(name, value)], some rest) := by
  rw [readFields, skipSpace_cons (by decide)]
  simp only [scanned, skipSpace_cons (show isSpace ':' = false by decide), h, closing]

/-- After a field and a comma, the fields go on. -/
theorem readFields_next {fields : List (Option String × Reading)}
    (scanned : scanString inner = some (name, ':' :: cs))
    (h : readValue fuel cs = (value, some (',' :: more)))
    (others : readFields fuel more = (fields, some rest)) :
    readFields (fuel + 1) ('"' :: inner) = ((name, value) :: fields, some rest) := by
  rw [readFields, skipSpace_cons (by decide)]
  simp only [scanned, skipSpace_cons (show isSpace ':' = false by decide), h,
    skipSpace_cons (show isSpace ',' = false by decide), others]

end

mutual

/-- **A written value is read as its tree**, in front of any rest. -/
theorem readValue_chars : ∀ (v : Json) (fuel : Nat) (rest : List Char), v.chars.length ≤ fuel →
    readValue fuel (v.chars ++ rest) = (v.reading, some rest)
  | .null, 0, _, h => absurd h (by decide)
  | .null, fuel + 1, rest, _ => rfl
  | .string value, 0, _, h => by simp [chars, quoted] at h
  | .string value, fuel + 1, rest, _ => by
      obtain ⟨inner, eq, scanned⟩ := scanString_quoted value rest
      rw [chars, eq, readValue, skipSpace_cons (by decide)]
      simp only [scanned, reading]
  | .array [], 0, _, h => absurd h (by decide)
  | .array [], fuel + 1, rest, _ => rfl
  | .array (item :: items), 0, _, h => by simp [chars] at h
  | .array (item :: items), fuel + 1, rest, h => by
      -- The bracket takes one of the fuel and one of the length.
      rw [chars, List.cons_append, List.length_cons, List.length_append, List.length_singleton] at h
      obtain ⟨c, cs, eq, space, notClosing⟩ := exists_itemChars_eq_cons item items
      have read := readItems_itemChars item items fuel rest (by omega)
      rw [eq, List.cons_append] at read
      rw [chars, eq, reading, List.cons_append, List.cons_append, List.append_assoc,
        List.cons_append]
      exact readValue_array (skipSpace_cons space _) notClosing read
  | .object [], 0, _, h => absurd h (by decide)
  | .object [], fuel + 1, rest, _ => rfl
  | .object (field :: fields), 0, _, h => by simp [chars] at h
  | .object ((name, value) :: fields), fuel + 1, rest, h => by
      rw [chars, List.cons_append, List.length_cons, List.length_append, List.length_singleton] at h
      obtain ⟨inner, eq, read⟩ := readFields_fieldChars name value fields fuel rest (by omega)
      rw [chars, reading, List.cons_append, List.cons_append, List.append_assoc,
        List.singleton_append, eq]
      exact readValue_object (skipSpace_cons (by decide) _) read

/-- Written items are read up to the bracket that closes them. -/
theorem readItems_itemChars : ∀ (item : Json) (items : List Json) (fuel : Nat)
    (rest : List Char), (itemChars (item :: items)).length < fuel →
      readItems fuel (itemChars (item :: items) ++ ']' :: rest) =
        (itemReadings (item :: items), some rest)
  | _, _, 0, _, h => absurd h (Nat.not_lt_zero _)
  | item, [], fuel + 1, rest, h => by
      rw [itemChars] at h ⊢
      exact readItems_last (readValue_chars item fuel (']' :: rest) (by omega))
        (skipSpace_cons (by decide) _)
  | item, next :: items, fuel + 1, rest, h => by
      rw [itemChars_cons_cons, List.length_append, List.length_cons] at h
      rw [itemChars_cons_cons, List.append_assoc, List.cons_append]
      exact readItems_next (readValue_chars item fuel _ (by omega))
        (readItems_itemChars next items fuel rest (by omega))

/-- Written fields start with the mark of the first name, and are read up to the brace that closes
them. -/
theorem readFields_fieldChars : ∀ (name : String) (value : Json) (fields : List (String × Json))
    (fuel : Nat) (rest : List Char), (fieldChars ((name, value) :: fields)).length < fuel →
      ∃ inner, fieldChars ((name, value) :: fields) ++ '\x7d' :: rest = '"' :: inner ∧
        readFields fuel ('"' :: inner) = (fieldReadings ((name, value) :: fields), some rest)
  | _, _, _, 0, _, h => absurd h (Nat.not_lt_zero _)
  | name, value, [], fuel + 1, rest, h => by
      rw [fieldChars, List.length_append, List.length_cons] at h
      rw [fieldChars, List.append_assoc, List.cons_append]
      obtain ⟨inner, eq, scanned⟩ := scanString_quoted name
        (':' :: (value.chars ++ '\x7d' :: rest))
      exact ⟨inner, eq, readFields_last scanned (readValue_chars value fuel _ (by omega))
        (skipSpace_cons (by decide) _)⟩
  | name, value, (next, nextValue) :: fields, fuel + 1, rest, h => by
      rw [fieldChars_cons_cons, List.length_append, List.length_append, List.length_cons,
        List.length_cons] at h
      rw [fieldChars_cons_cons, List.append_assoc, List.append_assoc, List.cons_append,
        List.cons_append]
      obtain ⟨others, more, readMore⟩ := readFields_fieldChars next nextValue fields fuel rest
        (by omega)
      rw [more]
      obtain ⟨inner, eq, scanned⟩ := scanString_quoted name
        (':' :: (value.chars ++ ',' :: '"' :: others))
      exact ⟨inner, eq, readFields_next scanned (readValue_chars value fuel _ (by omega)) readMore⟩

end

/-- **The text of a value holds the value and nothing else.** -/
theorem ofText_text (v : Json) : Document.ofText v.text = ⟨v.reading, true⟩ := by
  have read := v.readValue_chars (2 * v.chars.length + 2) [] (by omega)
  rw [List.append_nil] at read
  rw [Document.ofText, text, String.toList_ofList]
  simp only [read]
  rfl

/-- What is decoded from the text of a value is what is decoded from its tree. -/
theorem decode_text {α : Type} (read : Reading → Decoded α) (v : Json) :
    decode read v.text = read v.reading := by
  rw [decode, ofText_text]
  exact bind_pure _

/-- A list is read back if each of its items is. -/
theorem list_reading {α : Type} {read : Reading → Decoded α} {json : α → Json} {as : List α}
    (h : ∀ a ∈ as, read (json a).reading = .ok a) :
    Reading.list read (array (as.map json)).reading = .ok as := by
  rw [reading, itemReadings_eq, Reading.list, List.map_map]
  induction as with
  | nil => rfl
  | cons a as ih =>
    obtain ⟨first, others⟩ := List.forall_mem_cons.1 h
    have one : read ((reading ∘ json) a) = .ok a := first
    rw [List.map_cons, List.mapM_cons, ih others, one]
    rfl

end Json
end DateFacet
