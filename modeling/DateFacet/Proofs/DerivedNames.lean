/-
# Names of derived variables

A variable is checked where a text becomes its name, and where it is decoded.  A suffix is not: it is
put behind the name as it is.  So the name of a variable is legal exactly if all suffixes on the way
to it were (`Variable.Derived.isNamed_tfae`).

A name that is legal is found again from everything that is written of it, the name alone, the name
behind its mark, and the JSON text.  One that is not is found again from none of them.
-/

import DateFacet.Proofs.StoredPatterns
import Mathlib.Tactic.TFAE

namespace DateFacet

namespace Sparql
namespace Variable

/-- The ways to a variable, with the suffixes that were added. -/
inductive Derived : List String → Variable → Prop
  | read {text : String} {v : Variable} (h : ofText text = .ok v) : Derived [] v
  /-- Decoded from a value, which may be a part of a larger one. -/
  | decoded {r : Json.Reading} {v : Variable} (h : ofReading r = .ok v) : Derived [] v
  /-- Met in a pattern. -/
  | met {p : Pattern} {v : Variable} (h : p.Obtained) (mem : .variable v ∈ p.terms) : Derived [] v
  | suffixed {suffixes : List String} {v : Variable} (h : Derived suffixes v) (suffix : String) :
    Derived (suffixes ++ [suffix]) (v.suffixed suffix)

/-- A variable is written as its name behind a mark. -/
def text (v : Variable) : String := String.ofList v.chars

/-- A derived name is the name, an underscore and the suffix. -/
theorem toList_name_suffixed (v : Variable) (suffix : String) :
    (v.suffixed suffix).name.toList = v.name.toList ++ '_' :: suffix.toList := by
  simp [suffixed]

/-- The mark in front of a name is passed over. -/
theorem ofText_text_iff {v : Variable} : ofText v.text = .ok v ↔ v.IsNamed := by
  refine ⟨isNamed_of_ofText, fun named => ?_⟩
  obtain ⟨ne, legal⟩ := isNamed_iff.1 named
  have name : v.text.toList.dropWhile isMark = v.name.toList := by
    rw [text, String.toList_ofList, chars, List.dropWhile_cons_of_pos (by decide),
      dropWhile_isMark legal]
  rw [ofText, name, if_pos ⟨ne, legal⟩, String.ofList_toList]

/-- A stored variable is read back exactly if its name is well-formed. -/
theorem decode_text_iff {v : Variable} :
    Json.decode ofReading v.json.text = .ok v ↔ v.IsNamed := by
  rw [Json.decode_text]
  exact ⟨isNamed_of_ofReading, ofReading_json⟩

namespace Derived

variable {suffixes : List String} {v : Variable}

/-- A name is never empty, and its characters are legal if those of the suffixes are. -/
theorem name_iff (h : Derived suffixes v) : v.name.toList ≠ [] ∧
    (v.name.toList.all isNameChar = true ↔
      ∀ suffix ∈ suffixes, suffix.toList.all isNameChar = true) := by
  have checked : ∀ {v : Variable}, v.IsNamed → v.name.toList ≠ [] ∧
      (v.name.toList.all isNameChar = true ↔
        ∀ suffix ∈ ([] : List String), suffix.toList.all isNameChar = true) := by
    intro v named
    obtain ⟨ne, legal⟩ := isNamed_iff.1 named
    exact ⟨ne, iff_of_true legal nofun⟩
  induction h with
  | read h => exact checked (isNamed_of_ofText h)
  | decoded h => exact checked (isNamed_of_ofReading h)
  | met h mem => exact checked (h.isStorable.named _ mem)
  | @suffixed suffixes v _ suffix ih =>
    have underscore : isNameChar '_' = true := rfl
    rw [toList_name_suffixed, List.all_append, List.all_cons, underscore, Bool.true_and,
      Bool.and_eq_true, ih.2, List.forall_mem_append, List.forall_mem_singleton]
    exact ⟨by simp, Iff.rfl⟩

/-- **When a derived name is legal.**  The name is not empty in any case.  It has only letters,
digits and underscores exactly if every suffix does.  Then, and only then, the same variable is made
of its name, of its text and of its JSON text. -/
theorem isNamed_tfae (h : Derived suffixes v) : v.name ≠ "" ∧
    [∀ suffix ∈ suffixes, ∀ c ∈ suffix.toList, isNameChar c = true,
      ∀ c ∈ v.name.toList, isNameChar c = true,
      ofText v.name = .ok v,
      ofText v.text = .ok v,
      Json.decode ofReading v.json.text = .ok v].TFAE := by
  obtain ⟨ne, legal⟩ := h.name_iff
  simp only [List.all_eq_true] at legal
  refine ⟨fun empty => ne (by rw [empty]; rfl), ?_⟩
  tfae_have 1 ↔ 2 := legal.symm
  tfae_have 2 ↔ 3 := by
    rw [← List.all_eq_true]
    exact ⟨fun all => isNamed_iff.2 ⟨ne, all⟩, fun named => (isNamed_iff.1 named).2⟩
  tfae_have 4 ↔ 3 := ofText_text_iff
  tfae_have 5 ↔ 3 := decode_text_iff
  tfae_finish

end Derived

/-- The hypothesis of `Derived.isNamed_tfae` holds of a name with a mark in front and two suffixes, of
which one is empty. -/
theorem isNamed_tfae_begin : Derived ["begin", ""] ⟨"date_begin_"⟩ ∧
    Json.decode ofReading (json ⟨"date_begin_"⟩).text = .ok ⟨"date_begin_"⟩ := by
  have read : ofText "?date" = .ok ⟨"date"⟩ := by decide +kernel
  have derived : Derived ["begin", ""] ⟨"date_begin_"⟩ :=
    ((Derived.read read).suffixed "begin").suffixed ""
  have legal : ["begin", ""].all (·.toList.all isNameChar) = true := by decide +kernel
  simp only [List.all_eq_true] at legal
  exact ⟨derived, (derived.isNamed_tfae.2.out 0 4).1 legal⟩

/-- A suffix with a blank gives a name with a blank, which no check accepts. -/
theorem suffixed_blank : Derived ["a b"] ⟨"x_a b"⟩ ∧ isNameChar ' ' = false ∧
    ' ' ∈ "x_a b".toList ∧ ofText "x_a b" = .error (.invalidVariable "x_a b") ∧
    text ⟨"x_a b"⟩ = "?x_a b" ∧ ofText "?x_a b" = .error (.invalidVariable "?x_a b") ∧
    Json.decode ofReading (json ⟨"x_a b"⟩).text ≠ .ok ⟨"x_a b"⟩ := by
  have read : ofText "x" = .ok ⟨"x"⟩ := by decide +kernel
  refine ⟨(Derived.read read).suffixed "a b", by decide, by decide +kernel, by decide +kernel,
    by decide +kernel, by decide +kernel, ?_⟩
  rw [Ne, decode_text_iff]
  decide +kernel

end Variable
end Sparql
end DateFacet
