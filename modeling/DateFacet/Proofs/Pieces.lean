/-
# Pieces of a written pattern

A written pattern is a row of pieces: its terms, and marks around them.

| marks | written |
| --- | --- |
| blank, stop | a space, `.` |
| parentheses, braces | `(`, `)`, `{`, `}` |
| comparison signs | `<`, `<=`, `=`, `>=`, `>` |
| connectives | `&&`, `||` |
| words | `FILTER`, `UNION` |

The characters alone do not tell which of them belong to a term: the IRI `<.>` has those of three
marks, and `FILTER:a` is a prefixed name.  So a term is tried before a mark (`Piece.scan`), and then
it matters what follows.  A sign with a blank behind it is no IRI, for the blank would belong to the
IRI, and a word is no prefixed name without a colon.  Pieces that stand side by side as they do in a
pattern (`Piece.Precedes`) are read back (`Piece.splits_spell`), unless a variable has a name that is
none.
-/

import DateFacet.Proofs.Precedence
import Mathlib.Data.List.Chain

namespace DateFacet
namespace Sparql

/-! ## Pieces -/

/-- What stands between the terms of a written pattern. -/
inductive Mark
  | blank
  | stop
  | opening
  | closing
  | openingBrace
  | closingBrace
  | sign (s : Comparison)
  | joint (j : Joint)
  | filter
  | union
  deriving DecidableEq

namespace Mark

/-- The written mark. -/
def chars : Mark → List Char
  | .blank => [' ']
  | .stop => ['.']
  | .opening => ['(']
  | .closing => [')']
  | .openingBrace => ['\x7b']
  | .closingBrace => ['\x7d']
  | .sign s => s.chars
  | .joint .and => ['&', '&']
  | .joint .or => ['|', '|']
  | .filter => ['F', 'I', 'L', 'T', 'E', 'R']
  | .union => ['U', 'N', 'I', 'O', 'N']

/-- The written marks, one after the other. -/
def spell (ms : List Mark) : List Char := ms.flatMap chars

end Mark

/-- A part of a written pattern: a term as a whole, or a mark. -/
inductive Piece
  | term (t : Term)
  | mark (m : Mark)
  deriving DecidableEq

namespace Piece

/-- The written piece. -/
def chars : Piece → List Char
  | .term t => t.chars
  | .mark m => m.chars

/-- The term, if the piece is one. -/
def term? : Piece → Option Term
  | .term t => some t
  | .mark _ => none

/-- The written pieces, one after the other. -/
def spell (ps : List Piece) : List Char := ps.flatMap chars

/-- The terms among the pieces, in order and as often as they occur. -/
def terms (ps : List Piece) : List Term := ps.filterMap term?

section

variable (ps qs : List Piece)

@[simp] theorem spell_nil : spell [] = [] := rfl

/-- A term is spelled as it is written. -/
@[simp] theorem spell_term (t : Term) : spell (.term t :: ps) = t.chars ++ spell ps := rfl

@[simp] theorem spell_mark (m : Mark) : spell (.mark m :: ps) = m.chars ++ spell ps := rfl

@[simp] theorem spell_append : spell (ps ++ qs) = spell ps ++ spell qs := List.flatMap_append

/-- A term is one of the terms. -/
@[simp] theorem terms_term (t : Term) : terms (.term t :: ps) = t :: terms ps := rfl

@[simp] theorem terms_mark (m : Mark) : terms (.mark m :: ps) = terms ps := rfl

@[simp] theorem terms_append : terms (ps ++ qs) = terms ps ++ terms qs := List.filterMap_append

end

/-- The terms of pieces are those that stand among them. -/
theorem mem_terms {ps : List Piece} {t : Term} : t ∈ terms ps ↔ .term t ∈ ps := by
  rw [terms, List.mem_filterMap]
  constructor
  · rintro ⟨p, mem, h⟩
    cases p with
    | term u => rwa [← Option.some.inj h]
    | mark m => cases h
  · intro mem
    exact ⟨.term t, mem, rfl⟩

/-- Pieces are marks, then each term with the marks behind it. -/
theorem exists_interleaved (ps : List Piece) :
    ∃ (front : List Mark) (rest : List (Term × List Mark)), rest.map Prod.fst = terms ps ∧
      spell ps = Mark.spell front ++ rest.flatMap fun (t, marks) => t.chars ++ Mark.spell marks := by
  induction ps with
  | nil => exact ⟨[], [], rfl, rfl⟩
  | cons p ps ih =>
    obtain ⟨front, rest, listed, written⟩ := ih
    cases p with
    | term t => exact ⟨[], (t, front) :: rest, by simp [listed], by simp [written, Mark.spell]⟩
    | mark m => exact ⟨m :: front, rest, listed, by simp [written, Mark.spell]⟩

end Piece

/-! ## Reading the pieces of a text -/

/-- The mark in front, and what follows it. -/
def Mark.scan : List Char → Option (Mark × List Char)
  | ' ' :: rest => some (.blank, rest)
  | '.' :: rest => some (.stop, rest)
  | '(' :: rest => some (.opening, rest)
  | ')' :: rest => some (.closing, rest)
  | '\x7b' :: rest => some (.openingBrace, rest)
  | '\x7d' :: rest => some (.closingBrace, rest)
  | '&' :: '&' :: rest => some (.joint .and, rest)
  | '|' :: '|' :: rest => some (.joint .or, rest)
  | 'F' :: 'I' :: 'L' :: 'T' :: 'E' :: 'R' :: rest => some (.filter, rest)
  | 'U' :: 'N' :: 'I' :: 'O' :: 'N' :: rest => some (.union, rest)
  | cs => (Comparison.scan cs).map fun (s, rest) => (.sign s, rest)

namespace Piece

/-- The piece in front, and what follows it.  A term goes before a mark. -/
def scan (cs : List Char) : Option (Piece × List Char) :=
  match Term.scan cs with
  | some (t, rest) => some (.term t, rest)
  | none => (Mark.scan cs).map fun (m, rest) => (.mark m, rest)

/-- Characters are these pieces in this order. -/
inductive Splits : List Char → List Piece → Prop
  | nil : Splits [] []
  | cons {p : Piece} {cs rest : List Char} {ps : List Piece} (h : scan cs = some (p, rest))
    (others : Splits rest ps) : Splits cs (p :: ps)

/-- **Characters are split into pieces in one way.** -/
theorem Splits.unique {cs : List Char} {ps qs : List Piece} (h : Splits cs ps)
    (h' : Splits cs qs) : ps = qs := by
  induction h generalizing qs with
  | nil =>
    cases h' with
    | nil => rfl
    | cons found => cases found
  | cons found _ ih =>
    cases h' with
    | nil => cases found
    | cons other others =>
      rw [found] at other
      cases other
      rw [ih others]

/-- The second piece may stand right behind the first one. -/
def Precedes : Piece → Piece → Prop
  | .term _, q => q = .mark .blank ∨ q = .mark .closing
  | .mark (.sign _), q => q = .mark .blank
  | .mark .union, q => q = .mark .blank
  | .mark .filter, q => q = .mark .opening
  | .mark _, _ => True

/-- A term may end before these pieces. -/
def EndTerm (ps : List Piece) : Prop := ∀ q ∈ ps.head?, q = .mark .blank ∨ q = .mark .closing

/-- Where a term may end before pieces, it ends before what they spell. -/
theorem EndTerm.endsTerm {ps : List Piece} (h : EndTerm ps) : EndsTerm (spell ps) := by
  cases ps with
  | nil => exact nofun
  | cons p ps =>
    rcases h p rfl with rfl | rfl
    · exact endsTerm_blank _
    · exact (Condition.ends_paren _).endsTerm

/-- A written term is scanned as one piece, in front of anything that ends it. -/
theorem scan_term {t : Term} (named : ∀ v, t = .variable v → v.IsNamed) {rest : List Char}
    (ends : EndsTerm rest) : scan (t.chars ++ rest) = some (.term t, rest) := by
  rw [scan, Term.scan_chars named ends]

/-- No term is read at a comparison sign with a blank behind it. -/
theorem scan_sign (s : Comparison) (rest : List Char) :
    scan (s.chars ++ ' ' :: rest) = some (.mark (.sign s), ' ' :: rest) := by
  have noTerm : Term.scan (s.chars ++ ' ' :: rest) = none := by
    -- A term in front would be the token in front, but that is the sign.
    by_contra found
    obtain ⟨⟨t, others⟩, found⟩ := Option.ne_none_iff_exists'.1 found
    have token := Token.scan_of_term found
    rw [Token.scan_sign] at token
    cases token
  rw [scan, noTerm]
  cases s <;> rfl

/-- A mark is read where the next piece may stand behind it. -/
theorem scan_mark {m : Mark} {ps : List Piece} (next : ∀ q ∈ ps.head?, Precedes (.mark m) q) :
    scan (m.chars ++ spell ps) = some (.mark m, spell ps) := by
  cases m with
  | sign s =>
    cases ps with
    | nil => cases s <;> rfl
    | cons q ps =>
      obtain rfl := next q rfl
      exact scan_sign s _
  | union | filter =>
    cases ps with
    | nil => rfl
    | cons q ps =>
      obtain rfl := next q rfl
      rfl
  | joint j => cases j <;> rfl
  | blank | stop | opening | closing | openingBrace | closingBrace => rfl

/-- **Pieces that may stand side by side are read back**, if the variables are named. -/
theorem splits_spell {ps : List Piece} (named : ∀ v, .variable v ∈ terms ps → v.IsNamed)
    (chain : ps.IsChain Precedes) : Splits (spell ps) ps := by
  induction ps with
  | nil => exact .nil
  | cons p ps ih =>
    -- Whether the piece is read depends on what follows, of which the first piece is known.
    obtain ⟨next, others⟩ := List.isChain_cons.1 chain
    cases p with
    | term t =>
      have own : ∀ v, t = .variable v → v.IsNamed := by
        rintro v rfl
        exact named v List.mem_cons_self
      have rest := ih (fun v mem => named v (List.mem_cons_of_mem t mem)) others
      exact .cons (scan_term own (EndTerm.endsTerm next)) rest
    | mark m => exact .cons (scan_mark next) (ih named others)

end Piece

/-! ## Names of the variables that are read -/

/-- A variable that is scanned is named. -/
theorem Variable.isNamed_of_scan {cs rest : List Char} {v : Variable}
    (h : scan cs = some (v, rest)) : v.IsNamed := by
  rw [scan] at h
  split at h
  · cases h
  · next ne =>
    cases h
    rw [isNamed_iff, String.toList_ofList]
    exact ⟨ne, List.all_takeWhile⟩

/-- A variable that is scanned as a term is named. -/
theorem Term.isNamed_of_scan {cs rest : List Char} {v : Variable}
    (h : scan cs = some (.variable v, rest)) : v.IsNamed := by
  unfold scan at h
  split at h
  · obtain ⟨⟨u, others⟩, found, eq⟩ := Option.map_eq_some_iff.1 h
    cases eq
    exact Variable.isNamed_of_scan found
  · obtain ⟨_, -, eq⟩ := Option.map_eq_some_iff.1 h
    cases eq
  · obtain ⟨_, -, eq⟩ := Option.map_eq_some_iff.1 h
    cases eq

/-- A variable that is scanned as a piece is named. -/
theorem Piece.isNamed_of_scan {cs rest : List Char} {v : Variable}
    (h : scan cs = some (.term (.variable v), rest)) : v.IsNamed := by
  rw [scan] at h
  split at h
  · next found =>
    cases h
    exact Term.isNamed_of_scan found
  · obtain ⟨_, -, eq⟩ := Option.map_eq_some_iff.1 h
    cases eq

/-- Every variable that is read has a legal name. -/
theorem Piece.Splits.isNamed {cs : List Char} {ps : List Piece} (h : Splits cs ps) :
    ∀ v, .variable v ∈ terms ps → v.IsNamed := by
  induction h with
  | nil => exact fun _ mem => nomatch mem
  | @cons p cs rest ps found _ ih =>
    intro v mem
    rcases List.mem_cons.1 (mem_terms.1 mem) with rfl | mem
    · exact isNamed_of_scan found
    · exact ih v (mem_terms.2 mem)

end Sparql
end DateFacet
