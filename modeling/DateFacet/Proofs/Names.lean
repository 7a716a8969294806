/-
# Checked names

A text is checked where it becomes the name of a variable or a named node, and the check takes the
marks or the blanks around it away.  Checked once more, a name stays as it is, so the names that
pass unchanged (`Variable.IsNamed`) are those that a check has given, with any suffix of the same
characters.
-/

import DateFacet.Sparql.Term

namespace DateFacet
namespace Sparql

/-! ## Names of variables -/

namespace Variable

/-- The check of names accepts the name as it is. -/
def IsNamed (v : Variable) : Prop := ofText v.name = .ok v

/-- No character of a name is a mark. -/
theorem isMark_eq_false {c : Char} (h : isNameChar c = true) : isMark c = false := by
  rw [← Bool.not_eq_true]
  intro mark
  rw [isMark, Bool.or_eq_true, decide_eq_true_eq, decide_eq_true_eq] at mark
  rcases mark with rfl | rfl <;> cases h

/-- No mark stands before the characters of a name. -/
theorem dropWhile_isMark {cs : List Char} (h : cs.all isNameChar = true) :
    cs.dropWhile isMark = cs := by
  cases cs with
  | nil => rfl
  | cons c cs =>
    rw [List.all_cons, Bool.and_eq_true] at h
    exact List.dropWhile_cons_of_neg (Bool.not_eq_true _ ▸ isMark_eq_false h.1)

/-- What is read has characters, all of them those of a name. -/
theorem legal_of_ofText {text : String} {v : Variable} (h : ofText text = .ok v) :
    v.name.toList ≠ [] ∧ v.name.toList.all isNameChar = true := by
  rw [ofText] at h
  split at h
  · next legal =>
    obtain rfl := Except.ok.inj h
    rw [String.toList_ofList]
    exact legal
  · cases h

/-- The check in words. -/
theorem isNamed_iff {v : Variable} :
    v.IsNamed ↔ v.name.toList ≠ [] ∧ v.name.toList.all isNameChar = true := by
  refine ⟨legal_of_ofText, fun legal => ?_⟩
  rw [IsNamed, ofText, dropWhile_isMark legal.2, if_pos legal, String.ofList_toList]

instance : DecidablePred IsNamed := fun _ => decidable_of_iff' _ isNamed_iff

/-- A name that was read has passed its check. -/
theorem isNamed_of_ofText {text : String} {v : Variable} (h : ofText text = .ok v) : v.IsNamed :=
  isNamed_iff.2 (legal_of_ofText h)

/-- A name with a suffix of name characters is well-formed again. -/
theorem IsNamed.suffixed {v : Variable} (h : v.IsNamed) {suffix : String}
    (legal : suffix.toList.all isNameChar = true) : (v.suffixed suffix).IsNamed := by
  rw [isNamed_iff] at h ⊢
  have chars : (v.suffixed suffix).name.toList = v.name.toList ++ '_' :: suffix.toList := by
    simp [Variable.suffixed]
  rw [chars, List.all_append, List.all_cons, h.2, legal]
  exact ⟨by simp, rfl⟩

end Variable

/-! ## Named nodes -/

/-- A named node has the text that it was read from, without the blanks around it. -/
theorem Iri.text_of_ofText {text : String} {i : Iri} (h : ofText text = .ok i) :
    i.text = Text.trim text := by
  rw [ofText] at h
  split at h
  · obtain rfl := Except.ok.inj h
    rfl
  · cases h

/-- A named node has passed its check. -/
theorem Iri.ofText_text (i : Iri) : ofText i.text = .ok i := by
  obtain ⟨-, notForbidden⟩ := (isLegal_iff _).1 i.legal
  have noBlank : ∀ c ∈ i.text.toList, Text.isBlank c = false := by
    intro c mem
    exact (Bool.or_eq_false_iff.1 (notForbidden c mem)).1
  have trimmed : Text.trim i.text = i.text := by
    rw [Text.trim, Text.trimChars_eq_self_of_all noBlank, String.ofList_toList]
  rw [ofText, dif_pos (by rw [trimmed]; exact i.legal)]
  simp only [trimmed]

end Sparql
end DateFacet
