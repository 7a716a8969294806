/-
# JSON laid out over lines is read back

A value that is laid out over lines has the tokens of its compact text with blanks between some of
them: a new line after an opening bracket, after a comma and before a closing bracket, and a blank
after a colon.  These are the places where a reader passes over blanks, so it reads the same tree
(`readValue_laidOut`), and the text of the whole holds the value and nothing else (`ofText_pretty`).

What the reader does at an item or a field is the same as for a compact text, and the lemmas of
`DateFacet.Proofs.JsonText` say it; only the blanks before and after are of this module.
-/

import DateFacet.Proofs.JsonText

namespace DateFacet
namespace Json

/-! ## Blanks -/

/-- Blanks in front are skipped. -/
theorem skipSpace_append {blanks : List Char} (h : ∀ c ∈ blanks, isSpace c = true)
    (cs : List Char) : skipSpace (blanks ++ cs) = skipSpace cs :=
  List.dropWhile_append_of_pos h

/-- A new line is made of blanks. -/
theorem isSpace_newLine (level : Nat) : ∀ c ∈ newLine level, isSpace c = true := by
  intro c hc
  rcases List.mem_cons.1 hc with rfl | hc
  · rfl
  · rw [List.eq_of_mem_replicate hc]
    rfl

/-- The break and the indentation of a line are skipped up to what stands in it. -/
theorem skipSpace_newLine (level : Nat) {c : Char} (h : isSpace c = false) (cs : List Char) :
    skipSpace (newLine level ++ c :: cs) = c :: cs := by
  rw [skipSpace_append (isSpace_newLine level), skipSpace_cons h]

section

variable {blanks : List Char} (h : ∀ c ∈ blanks, isSpace c = true)

include h

/-! A value, the items of an array and the fields of an object are read past blanks. -/

/-- Blanks before a value do not matter. -/
theorem readValue_append (fuel : Nat) (cs : List Char) :
    readValue fuel (blanks ++ cs) = readValue fuel cs := by
  cases fuel with
  | zero => rfl
  | succ fuel => rw [readValue, readValue, skipSpace_append h]

/-- Blanks before the items of a list do not matter. -/
theorem readItems_append (fuel : Nat) (cs : List Char) :
    readItems fuel (blanks ++ cs) = readItems fuel cs := by
  cases fuel with
  | zero => rfl
  | succ fuel => rw [readItems, readItems, readValue_append h]

/-- Blanks before the fields of a record do not matter. -/
theorem readFields_append (fuel : Nat) (cs : List Char) :
    readFields fuel (blanks ++ cs) = readFields fuel cs := by
  cases fuel with
  | zero => rfl
  | succ fuel => rw [readFields, readFields, skipSpace_append h]

end

/-! ## Values -/

/-- A value starts with no blank and with no closing bracket. -/
theorem exists_laidOut_eq_cons (v : Json) (level : Nat) :
    ∃ c cs, v.laidOut level = c :: cs ∧ isSpace c = false ∧ c ≠ ']' := by
  match v with
  | null => exact ⟨'n', _, rfl, by decide, by decide⟩
  | string value => exact ⟨'"', _, rfl, by decide, by decide⟩
  | array [] => exact ⟨'[', _, rfl, by decide, by decide⟩
  | array (item :: items) => exact ⟨'[', _, rfl, by decide, by decide⟩
  | object [] => exact ⟨'\x7b', _, rfl, by decide, by decide⟩
  | object ((name, value) :: fields) => exact ⟨'\x7b', _, rfl, by decide, by decide⟩

/-- No value is laid out in nothing. -/
theorem length_laidOut_pos (v : Json) (level : Nat) : 0 < (v.laidOut level).length := by
  obtain ⟨c, cs, eq, -⟩ := v.exists_laidOut_eq_cons level
  rw [eq, List.length_cons]
  omega

/-- After the colon of a field stands one blank. -/
theorem readValue_afterColon {fuel : Nat} {cs more : List Char} {value : Reading}
    (h : readValue fuel cs = (value, some more)) :
    readValue fuel (' ' :: cs) = (value, some more) :=
  (readValue_append (by simp [isSpace] : ∀ c ∈ [' '], isSpace c = true) fuel cs).trans h

mutual

/-- **A value laid out over lines is read as its tree**, in front of any rest. -/
theorem readValue_laidOut : ∀ (v : Json) (level fuel : Nat) (rest : List Char),
    (v.laidOut level).length ≤ fuel →
      readValue fuel (v.laidOut level ++ rest) = (v.reading, some rest)
  | v, level, 0, _, h => absurd (v.length_laidOut_pos level) (by omega)
  | .null, _, fuel + 1, rest, _ => rfl
  | .string value, _, fuel + 1, rest, _ => by
      obtain ⟨inner, eq, scanned⟩ := scanString_quoted value rest
      rw [laidOut, eq, readValue, skipSpace_cons (by decide)]
      simp only [scanned, reading]
  | .array [], _, fuel + 1, rest, _ => rfl
  | .array (item :: items), level, fuel + 1, rest, h => by
      simp only [laidOut, List.cons_append, List.length_cons, List.length_append] at h
      obtain ⟨c, cs, eq, space, notClosing⟩ := item.exists_laidOut_eq_cons (level + 1)
      have read := readItems_itemLines item items (level + 1) fuel
        (newLine level ++ ']' :: rest) rest (skipSpace_newLine level (by decide) rest)
        (by rw [List.length_append]; omega)
      rw [eq] at read
      simp only [laidOut, eq, reading, List.cons_append, List.append_assoc, List.nil_append]
        at read ⊢
      exact readValue_array (skipSpace_newLine _ space _) notClosing read
  | .object [], _, fuel + 1, rest, _ => rfl
  | .object ((name, value) :: fields), level, fuel + 1, rest, h => by
      simp only [laidOut, List.cons_append, List.length_cons, List.length_append] at h
      obtain ⟨inner, eq, read⟩ := readFields_fieldLines name value fields (level + 1) fuel
        (newLine level ++ '\x7d' :: rest) rest (skipSpace_newLine level (by decide) rest)
        (by simp only [List.length_append, List.length_cons]; omega)
      simp only [laidOut, reading, List.cons_append, List.append_assoc, List.nil_append] at eq ⊢
      rw [eq]
      exact readValue_object (skipSpace_newLine _ (by decide) _) read

/-- Items on lines are read up to the bracket that closes them. -/
theorem readItems_itemLines : ∀ (item : Json) (items : List Json) (level fuel : Nat)
    (more rest : List Char), skipSpace more = ']' :: rest →
    (item.laidOut level ++ itemLines level items).length < fuel →
      readItems fuel (item.laidOut level ++ itemLines level items ++ more) =
        (itemReadings (item :: items), some rest)
  | _, _, _, 0, _, _, _, h => absurd h (Nat.not_lt_zero _)
  | item, [], level, fuel + 1, more, rest, closing, h => by
      rw [itemLines, List.append_nil] at h ⊢
      exact readItems_last (readValue_laidOut item level fuel more (by omega)) closing
  | item, next :: items, level, fuel + 1, more, rest, closing, h => by
      simp only [itemLines, List.cons_append, List.length_append, List.length_cons] at h
      have others := readItems_itemLines next items level fuel more rest closing
        (by rw [List.length_append]; omega)
      rw [← readItems_append (isSpace_newLine level)] at others
      simp only [itemLines, List.cons_append, List.append_assoc] at others ⊢
      exact readItems_next (readValue_laidOut item level fuel _ (by omega)) others

/-- Fields on lines start with the mark of the first name, and are read up to the brace that closes
them. -/
theorem readFields_fieldLines : ∀ (name : String) (value : Json) (fields : List (String × Json))
    (level fuel : Nat) (more rest : List Char), skipSpace more = '\x7d' :: rest →
    (quoted name ++ [':', ' '] ++ value.laidOut level ++ fieldLines level fields).length < fuel →
      ∃ inner, quoted name ++ [':', ' '] ++ value.laidOut level ++ fieldLines level fields ++ more =
          '"' :: inner ∧
        readFields fuel ('"' :: inner) = (fieldReadings ((name, value) :: fields), some rest)
  | _, _, _, _, 0, _, _, _, h => absurd h (Nat.not_lt_zero _)
  | name, value, [], level, fuel + 1, more, rest, closing, h => by
      simp only [fieldLines, List.length_append, List.length_cons, List.append_nil] at h
      obtain ⟨inner, eq, scanned⟩ := scanString_quoted name
        (':' :: ' ' :: (value.laidOut level ++ more))
      have read := readValue_afterColon (readValue_laidOut value level fuel more (by omega))
      refine ⟨inner, ?_, readFields_last scanned read closing⟩
      simpa only [fieldLines, List.append_nil, List.append_assoc, List.cons_append,
        List.nil_append] using eq
  | name, value, (next, nextValue) :: fields, level, fuel + 1, more, rest, closing, h => by
      simp only [fieldLines, List.cons_append, List.length_append, List.length_cons] at h
      obtain ⟨others, eqMore, readMore⟩ := readFields_fieldLines next nextValue fields level fuel
        more rest closing (by simp only [List.length_append, List.length_cons]; omega)
      have read := readValue_afterColon (readValue_laidOut value level fuel
        (',' :: (newLine level ++ '"' :: others)) (by omega))
      rw [← readFields_append (isSpace_newLine level)] at readMore
      obtain ⟨inner, eq, scanned⟩ := scanString_quoted name
        (':' :: ' ' :: (value.laidOut level ++ ',' :: (newLine level ++ '"' :: others)))
      refine ⟨inner, ?_, readFields_next scanned read readMore⟩
      rw [← eqMore] at eq
      simpa only [fieldLines, List.append_assoc, List.cons_append, List.nil_append] using eq

end

/-- **The lines of a value hold the value and nothing else.** -/
theorem ofText_pretty (v : Json) : Document.ofText v.pretty = ⟨v.reading, true⟩ := by
  have read := v.readValue_laidOut 0 (2 * (v.laidOut 0).length + 2) [] (by omega)
  rw [List.append_nil] at read
  rw [Document.ofText, pretty, String.toList_ofList]
  simp only [read]
  rfl

/-- What is decoded from the lines of a value is what is decoded from its tree. -/
theorem decode_pretty {α : Type} (read : Reading → Decoded α) (v : Json) :
    decode read v.pretty = read v.reading := by
  rw [decode, ofText_pretty]
  exact bind_pure _

end Json
end DateFacet
