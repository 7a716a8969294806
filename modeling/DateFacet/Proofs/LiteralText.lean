/-
# Literals and their quotation marks

The content of a literal is text of any kind, and it is written into a query.  A reader of the query
knows nothing of how it was written.  It has the rule for strings in quotation marks:

| in the text | in the content |
| --- | --- |
| a character other than `"`, `\`, and the two that end a line | the character itself |
| `\"`, `\\` | `"`, `\` |
| `\n`, `\r` | the two that end a line |

`Literal.Spells` is this rule as a relation of a text and a content, with no direction in which it is
read.  `Literal.scanLexical` decides it from the left up to the first mark that is not escaped
(`Literal.scanLexical_eq_some_iff`), so no other mark in the query can close the literal, and no other
content can be read (`Literal.reading_iff`).
-/

import DateFacet.Proofs.TermReading

namespace DateFacet
namespace Sparql

namespace Literal

/-- The text may stand between quotation marks, and says the content. -/
inductive Spells : List Char → List Char → Prop
  | nil : Spells [] []
  | plain {c : Char} {body content : List Char} (quote : c ≠ '"') (backslash : c ≠ '\\')
    (newline : c ≠ '\n') (ret : c ≠ '\r') (h : Spells body content) :
    Spells (c :: body) (c :: content)
  | escape {letter c : Char} {body content : List Char} (stands : escaped? letter = some c)
    (h : Spells body content) : Spells ('\\' :: letter :: body) (c :: content)

variable {cs body content rest : List Char}

/-- What says a content is read as this content, up to the quotation mark. -/
theorem scanLexical_append (h : Spells body content) (rest : List Char) :
    scanLexical (body ++ '"' :: rest) = some (content, rest) := by
  induction h with
  | nil => rfl
  | plain quote backslash newline ret _ ih =>
    rw [List.cons_append, scanLexical]
    · rw [if_neg (by simp [backslash, newline, ret]), ih]
      rfl
    · exact quote
    · exact fun _ _ eq => absurd eq backslash
  | escape stands _ ih =>
    rw [List.cons_append, List.cons_append, scanLexical, stands, ih]
    rfl

/-- What is read before a quotation mark says the content that is read. -/
theorem exists_spells (h : scanLexical cs = some (content, rest)) :
    ∃ body, cs = body ++ '"' :: rest ∧ Spells body content := by
  induction cs using scanLexical.induct generalizing content rest with
  | case1 => cases h
  | case2 cs =>
    cases h
    exact ⟨[], rfl, .nil⟩
  | case3 letter cs ih =>
    rw [scanLexical] at h
    obtain ⟨c, stands, h⟩ := Option.bind_eq_some_iff.1 h
    obtain ⟨⟨content, rest⟩, read, h⟩ := Option.bind_eq_some_iff.1 h
    cases h
    obtain ⟨body, rfl, spells⟩ := ih read
    exact ⟨'\\' :: letter :: body, rfl, .escape stands spells⟩
  -- A bare line break, and a backslash at the very end, stop the reader.
  | case4 c cs quote backslash stop =>
    rw [scanLexical, if_pos stop] at h
    · cases h
    · exact quote
    · exact backslash
  | case5 c cs quote backslash go ih =>
    rw [scanLexical, if_neg go] at h
    · obtain ⟨⟨content, rest⟩, read, h⟩ := Option.bind_eq_some_iff.1 h
      cases h
      obtain ⟨body, rfl, spells⟩ := ih read
      obtain ⟨noBackslash, noNewline, noReturn⟩ := by simpa only [not_or] using go
      exact ⟨c :: body, rfl, .plain quote noBackslash noNewline noReturn spells⟩
    · exact quote
    · exact backslash

/-- **Reading up to a quotation mark** finds the texts that say a content, and no others. -/
theorem scanLexical_eq_some_iff :
    scanLexical cs = some (content, rest) ↔ ∃ body, cs = body ++ '"' :: rest ∧ Spells body content := by
  refine ⟨exists_spells, ?_⟩
  rintro ⟨body, rfl, spells⟩
  exact scanLexical_append spells rest

/-- No other literal is written in the same way. -/
theorem chars_injective : Function.Injective chars := by
  intro k l same
  have nothing : EndsTerm [] := nofun
  have read := k.scan_lexical nothing
  have behind := k.chars_append []
  rw [same, l.chars_append [], List.cons.injEq, and_iff_right rfl] at behind
  rw [← behind, l.scan_lexical nothing] at read
  cases read
  rfl

/-- **A literal ends at its own mark.**  However the text of a literal, in front of any other text, is
taken apart into a quotation mark, something that may stand between two of them, the second, and
what follows, the second is the mark that closes the literal.  The content is the one of the literal,
and what follows up to its end is the datatype behind its marks.  So nothing else is written as this
literal is. -/
theorem reading_iff (l : Literal) :
    (∀ rest body content after,
      l.chars ++ rest = '"' :: body ++ '"' :: after ∧ Spells body content ↔
        body = l.lexical.toList.flatMap escapeChar ∧ content = l.lexical.toList ∧
          after = ['^', '^'] ++ l.datatype.chars ++ rest) ∧
      ∀ k : Literal, k.chars = l.chars ↔ k = l := by
  refine ⟨fun rest body content after => ?_, fun k => chars_injective.eq_iff⟩
  have own := scanLexical_escaped l.lexical.toList ('^' :: '^' :: (l.datatype.chars ++ rest))
  rw [chars_append, List.cons_append, List.cons.injEq, and_iff_right rfl]
  constructor
  · rintro ⟨text, spells⟩
    have read := scanLexical_append spells after
    rw [← text, own] at read
    cases read
    exact ⟨(List.append_cancel_right text).symm, rfl, rfl⟩
  · rintro ⟨rfl, rfl, rfl⟩
    obtain ⟨body, text, spells⟩ := scanLexical_eq_some_iff.1 own
    rw [← List.append_cancel_right text] at spells
    exact ⟨rfl, spells⟩

end Literal
end Sparql
end DateFacet
