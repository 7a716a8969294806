/-
# Terminals of a query

A query is read as a row of tokens.  The terminals of the grammar say which words may be one:

| terminal | words |
| --- | --- |
| IRI | `<`, characters of an IRI, `>` |
| label | a letter, then characters of a name and dots, of which the last is no dot |
| local name | the same with digits, colons and codes, and not only a letter in front |
| prefixed name | a label or nothing, a colon, a local name |

A code is a percent sign with two hexadecimal digits, or a backslash with a mark.  Of all words that
the text goes on with, the longest one is the token (`IsToken`).

Where no code stands, a name is known by its characters (`mem_name_iff`).
-/

import DateFacet.Proofs.Scanning
import Mathlib.Computability.Language

namespace DateFacet
namespace Sparql
namespace Terminal

open scoped Computability

/-- The words of one character that passes. -/
def oneOf (pass : Char → Bool) : Language Char := {w | ∃ c, pass c = true ∧ w = [c]}

/-- The word is the token at the start of the text: the longest one that the terminal has there. -/
def IsToken (terminal : Language Char) (word text : List Char) : Prop :=
  (word ∈ terminal ∧ word <+: text) ∧
    ∀ other ∈ terminal, other <+: text → other.length ≤ word.length

/-- A whole text is a token if the terminal has it. -/
theorem isToken_self {terminal : Language Char} {word : List Char} :
    IsToken terminal word word ↔ word ∈ terminal :=
  ⟨fun h => h.1.1, fun mem => ⟨⟨mem, List.prefix_rfl⟩, fun _ _ go => go.length_le⟩⟩

/-! ## The terminals -/

/-- The characters between the brackets of an IRI: no control character, no blank, and none of nine
marks. -/
def isIriChar (c : Char) : Bool :=
  !(c.toNat ≤ 0x20 || ['<', '>', '"', '\x7b', '\x7d', '|', '^', '\x60', '\\'].contains c)

/-- An IRI in angle brackets. -/
def iri : Language Char := oneOf (· = '<') * (oneOf isIriChar)∗ * oneOf (· = '>')

/-- A character in one of the ranges of code points. -/
def isWithin (ranges : List (Nat × Nat)) (c : Char) : Bool :=
  ranges.any fun (first, last) => first ≤ c.toNat && c.toNat ≤ last

/-- The letters that a label may start with. -/
def isLetter : Char → Bool :=
  isWithin [(0x41, 0x5A), (0x61, 0x7A), (0xC0, 0xD6), (0xD8, 0xF6), (0xF8, 0x2FF), (0x370, 0x37D),
    (0x37F, 0x1FFF), (0x200C, 0x200D), (0x2070, 0x218F), (0x2C00, 0x2FEF), (0x3001, 0xD7FF),
    (0xF900, 0xFDCF), (0xFDF0, 0xFFFD), (0x10000, 0xEFFFF)]

/-- The ASCII letters are the first two ranges. -/
theorem isLetter_of_isAlpha {c : Char} (h : c.isAlpha = true) : isLetter c = true := by
  have ascii : 0x41 ≤ c.toNat ∧ c.toNat ≤ 0x5A ∨ 0x61 ≤ c.toNat ∧ c.toNat ≤ 0x7A := by
    rcases Bool.or_eq_true_iff.1 h with upper | lower
    · exact .inl (of_decide_eq_true upper)
    · obtain ⟨first, last⟩ := Bool.and_eq_true_iff.1 lower
      exact .inr ⟨of_decide_eq_true first, of_decide_eq_true last⟩
  simp only [isLetter, isWithin, List.any_cons, Bool.or_eq_true, Bool.and_eq_true,
    decide_eq_true_eq]
  exact ascii.elim .inl fun lower => .inr (.inl lower)

/-- The letters and the underscore. -/
def isStart (c : Char) : Bool := isLetter c || c = '_'

/-- The characters that a name may end with. -/
def isNamePart (c : Char) : Bool :=
  isStart c || c = '-' || c.isDigit || isWithin [(0xB7, 0xB7), (0x300, 0x36F), (0x203F, 0x2040)] c

/-- A hexadecimal digit. -/
def isHexDigit (c : Char) : Bool :=
  c.isDigit || isWithin [(0x41, 0x46), (0x61, 0x66)] c

/-- The marks that may stand in a local name behind a backslash. -/
def escapable : List Char :=
  ['_', '~', '.', '-', '!', '$', '&', '\x27', '(', ')', '*', '+', ',', ';', '=', '/', '?', '#', '@',
    '%']

/-- What stands for a character in a local name. -/
def code : Language Char :=
  oneOf (· = '%') * oneOf isHexDigit * oneOf isHexDigit +
    oneOf (· = '\\') * oneOf escapable.contains

/-- A first character and perhaps others, with conditions on the first, on the last and on those
between them; a code may stand in place of each. -/
def name (code : Language Char) (first inner last : Char → Bool) : Language Char :=
  (oneOf first + code) * (1 + (oneOf inner + code)∗ * (oneOf last + code))

/-- The name of a name space. -/
def label : Language Char := name 0 isLetter (fun c => isNamePart c || c = '.') isNamePart

/-- The name of something in a name space. -/
def localName : Language Char :=
  name code (fun c => isStart c || c = ':' || c.isDigit)
    (fun c => isNamePart c || c = '.' || c = ':') (fun c => isNamePart c || c = ':')

/-- A prefixed name. -/
def prefixedName : Language Char := (1 + label) * oneOf (· = ':') * localName

/-! ## Words and their characters -/

section

variable {pass first inner last : Char → Bool} {P : Char → Prop} {L M : Language Char}
  {w : List Char}

/-- One mark is the word of the mark alone. -/
theorem mem_oneOf_eq {mark : Char} : w ∈ oneOf (· = mark) ↔ w = [mark] := by
  constructor
  · rintro ⟨c, pass, rfl⟩
    rw [of_decide_eq_true pass]
  · rintro rfl
    exact ⟨mark, decide_eq_true rfl, rfl⟩

/-- Words are repeated characters where the parts of the whole are single ones. -/
theorem mem_kstar_iff (single : ∀ part ⊆ w, part ∈ L ↔ part ∈ oneOf pass) :
    w ∈ L∗ ↔ ∀ c ∈ w, pass c = true := by
  constructor
  · intro mem c hc
    obtain ⟨parts, rfl, each⟩ := Language.mem_kstar.1 mem
    obtain ⟨part, hpart, hc⟩ := List.mem_flatten.1 hc
    have sub : part ⊆ parts.flatten := fun _ => List.mem_flatten_of_mem hpart
    obtain ⟨d, hd, rfl⟩ := (single part sub).1 (each part hpart)
    rwa [List.mem_singleton.1 hc]
  · intro each
    refine Language.mem_kstar.2 ⟨w.map fun c => [c], (List.flatMap_singleton' w).symm, ?_⟩
    intro part hpart
    obtain ⟨c, hc, rfl⟩ := List.mem_map.1 hpart
    have sub : [c] ⊆ w := List.cons_subset.2 ⟨hc, List.nil_subset w⟩
    exact (single [c] sub).2 ⟨c, each c hc, rfl⟩

/-- **Names without codes**, by their characters. -/
theorem mem_name_iff (noCode : ∀ part ⊆ w, part ∉ L) :
    w ∈ name L first inner last ↔ ∃ c cs, w = c :: cs ∧ first c = true ∧
      (cs = [] ∨ ∃ ds d, cs = ds ++ [d] ∧ (∀ e ∈ ds, inner e = true) ∧ last d = true) := by
  -- Without codes each place of the name is one character.
  have single : ∀ pass, ∀ part ⊆ w, part ∈ oneOf pass + L ↔ part ∈ oneOf pass :=
    fun pass part sub => or_iff_left (noCode part sub)
  constructor
  · intro mem
    obtain ⟨head, hhead, cs, hcs, rfl⟩ := Language.mem_mul.1 mem
    obtain ⟨c, hc, rfl⟩ := (single first head (List.subset_append_left _ _)).1 hhead
    refine ⟨c, cs, rfl, hc, ?_⟩
    rcases hcs with hcs | hcs
    · exact .inl hcs
    · obtain ⟨ds, hds, tail, htail, rfl⟩ := Language.mem_mul.1 hcs
      have sub : ds ++ tail ⊆ [c] ++ (ds ++ tail) := List.subset_append_right _ _
      obtain ⟨hdsSub, htailSub⟩ := List.append_subset.1 sub
      obtain ⟨d, hd, rfl⟩ := (single last tail htailSub).1 htail
      exact .inr ⟨ds, d, rfl, (mem_kstar_iff fun part hpart =>
        single inner part (List.Subset.trans hpart hdsSub)).1 hds, hd⟩
  · rintro ⟨c, cs, rfl, hc, rest⟩
    refine Language.append_mem_mul (a := [c]) (.inl ⟨c, hc, rfl⟩) ?_
    rcases rest with rfl | ⟨ds, d, rfl, hds, hd⟩
    · exact .inl rfl
    · refine .inr (Language.append_mem_mul ?_ (.inl ⟨d, hd, rfl⟩))
      have sub : ds ⊆ c :: (ds ++ [d]) :=
        List.Subset.trans (List.subset_append_left ds [d]) (List.subset_cons_self c _)
      exact (mem_kstar_iff fun part hpart => single inner part (List.Subset.trans hpart sub)).2 hds

/-- A name without codes that may end with each of its characters but a dot, and whose first
character is none. -/
theorem mem_name_iff_getLast? {c : Char} {cs : List Char} (noCode : ∀ part ⊆ c :: cs, part ∉ L)
    (hfirst : first c = true) (ne : c ≠ '.') (hinner : ∀ d ∈ cs, inner d = true)
    (hlast : ∀ d ∈ cs, last d = true ↔ d ≠ '.') :
    c :: cs ∈ name L first inner last ↔ (c :: cs).getLast? ≠ some '.' := by
  rw [mem_name_iff noCode]
  rcases List.eq_nil_or_concat' cs with rfl | ⟨ds, d, rfl⟩
  · simp [hfirst, ne]
  · have ends : (c :: (ds ++ [d])).getLast? ≠ some '.' ↔ d ≠ '.' := by
      rw [← List.cons_append, List.getLast?_concat, Ne, Option.some_inj]
    rw [ends, ← hlast d (List.mem_append_right ds List.mem_cons_self)]
    constructor
    · rintro ⟨_, _, eq, -, nil | ⟨es, e, eq', -, he⟩⟩
      · cases eq
        simp at nil
      · cases eq
        obtain ⟨-, eq⟩ := List.append_inj' eq' rfl
        rwa [(List.cons.inj eq).1]
    · intro hd
      exact ⟨c, ds ++ [d], rfl, hfirst, .inr ⟨ds, d, rfl,
        fun e he => hinner e (List.mem_append_left _ he), hd⟩⟩

/-- All words of the language consist of such characters. -/
def IsOver (P : Char → Prop) (L : Language Char) : Prop := ∀ w ∈ L, ∀ c ∈ w, P c

/-- A mark that does not pass is in no word. -/
theorem isOver_oneOf {mark : Char} (h : pass mark = false) : IsOver (· ≠ mark) (oneOf pass) := by
  rintro _ ⟨d, hd, rfl⟩ c hc rfl
  rw [List.mem_singleton.1 hc, hd] at h
  cases h

theorem isOver_zero : IsOver P 0 := nofun

/-- The empty word consists of any characters. -/
theorem isOver_one : IsOver P 1 := by
  rintro _ rfl c hc
  cases hc

/-- Either of two languages consists of the characters that both do. -/
theorem IsOver.add (hL : IsOver P L) (hM : IsOver P M) : IsOver P (L + M) :=
  fun w mem => mem.elim (hL w) (hM w)

/-- Words that are put together consist of the characters of both. -/
theorem IsOver.mul (hL : IsOver P L) (hM : IsOver P M) : IsOver P (L * M) := by
  intro w mem c hc
  obtain ⟨u, hu, v, hv, rfl⟩ := Language.mem_mul.1 mem
  exact (List.mem_append.1 hc).elim (hL u hu c) (hM v hv c)

/-- Words that are repeated consist of the same characters. -/
theorem IsOver.kstar (h : IsOver P L) : IsOver P L∗ := by
  intro w mem c hc
  obtain ⟨parts, rfl, each⟩ := Language.mem_kstar.1 mem
  obtain ⟨part, hpart, hc⟩ := List.mem_flatten.1 hc
  exact h part (each part hpart) c hc

/-- A mark that no place of a name lets pass is in no name. -/
theorem isOver_name {mark : Char} (hfirst : first mark = false) (hinner : inner mark = false)
    (hlast : last mark = false) (hL : IsOver (· ≠ mark) L) :
    IsOver (· ≠ mark) (name L first inner last) :=
  ((isOver_oneOf hfirst).add hL).mul
    (isOver_one.add (((isOver_oneOf hinner).add hL).kstar.mul ((isOver_oneOf hlast).add hL)))

end

/-- Every code starts with a percent sign or a backslash. -/
theorem exists_mem_of_mem_code {w : List Char} (mem : w ∈ code) : ∃ c ∈ w, c = '%' ∨ c = '\\' := by
  rcases mem with mem | mem
  · obtain ⟨u, hu, v, -, rfl⟩ := Language.mem_mul.1 mem
    obtain ⟨mark, hmark, digit, -, rfl⟩ := Language.mem_mul.1 hu
    rw [mem_oneOf_eq.1 hmark]
    exact ⟨'%', by simp⟩
  · obtain ⟨mark, hmark, escaped, -, rfl⟩ := Language.mem_mul.1 mem
    rw [mem_oneOf_eq.1 hmark]
    exact ⟨'\\', by simp⟩

/-- A label has no colon. -/
theorem isOver_label : IsOver (· ≠ ':') label :=
  isOver_name (by decide) (by decide) (by decide) isOver_zero

/-- Names do not go on behind a blank. -/
theorem isOver_prefixedName : IsOver (· ≠ ' ') prefixedName := by
  have codes : IsOver (· ≠ ' ') code :=
    (((isOver_oneOf (by decide)).mul (isOver_oneOf (by decide))).mul (isOver_oneOf (by decide))).add
      ((isOver_oneOf (by decide)).mul (isOver_oneOf (by decide)))
  have labels : IsOver (· ≠ ' ') label :=
    isOver_name (by decide) (by decide) (by decide) isOver_zero
  have names : IsOver (· ≠ ' ') localName := isOver_name (by decide) (by decide) (by decide) codes
  exact ((isOver_one.add labels).mul (isOver_oneOf (by decide))).mul names

/-! ## IRIs -/

/-- An IRI in brackets is written with characters that may stand there, between the brackets. -/
theorem mem_iri {w : List Char} :
    w ∈ iri ↔ ∃ cs, (∀ c ∈ cs, isIriChar c = true) ∧ w = '<' :: cs ++ ['>'] := by
  constructor
  · intro mem
    obtain ⟨before, hbefore, after, hafter, rfl⟩ := Language.mem_mul.1 mem
    obtain ⟨mark, hmark, cs, hcs, rfl⟩ := Language.mem_mul.1 hbefore
    rw [mem_oneOf_eq.1 hmark, mem_oneOf_eq.1 hafter]
    exact ⟨cs, (mem_kstar_iff fun _ _ => Iff.rfl).1 hcs, rfl⟩
  · rintro ⟨cs, each, rfl⟩
    have content : cs ∈ (oneOf isIriChar)∗ := (mem_kstar_iff fun _ _ => Iff.rfl).2 each
    exact Language.append_mem_mul (Language.append_mem_mul (mem_oneOf_eq.2 rfl) content)
      (mem_oneOf_eq.2 rfl)

/-- **An IRI ends at the first closing bracket**, if all characters up to there may be in one, and
otherwise there is none. -/
theorem isToken_iri_iff {cs : List Char} (h : '>' ∉ cs) (rest word : List Char) :
    IsToken iri word ('<' :: cs ++ '>' :: rest) ↔
      word = '<' :: cs ++ ['>'] ∧ ∀ c ∈ cs, isIriChar c = true := by
  have only : ∀ w ∈ iri, w <+: '<' :: cs ++ '>' :: rest →
      w = '<' :: cs ++ ['>'] ∧ ∀ c ∈ cs, isIriChar c = true := by
    intro w mem go
    obtain ⟨ds, each, rfl⟩ := mem_iri.1 mem
    obtain ⟨others, eq⟩ := go
    have close : '>' ∉ ds := fun hds => absurd (each '>' hds) (by decide)
    obtain ⟨rfl, -⟩ := Text.append_mark_inj close h (by simpa using eq)
    exact ⟨rfl, each⟩
  constructor
  · rintro ⟨⟨mem, go⟩, -⟩
    exact only word mem go
  · rintro ⟨rfl, each⟩
    have go : '<' :: cs ++ ['>'] <+: '<' :: cs ++ '>' :: rest := ⟨rest, by simp⟩
    refine ⟨⟨mem_iri.2 ⟨cs, each, rfl⟩, go⟩, fun other mem hother => ?_⟩
    rw [(only other mem hother).1]

end Terminal
end Sparql
end DateFacet
