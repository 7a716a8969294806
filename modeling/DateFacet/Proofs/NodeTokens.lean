/-
# Named nodes as tokens

A named node is written to be one token of a query: as it is, if it has the shape of a prefixed
name, and otherwise between angle brackets.  The check of nodes and that shape are both wider than
the terminals of the grammar:

| written | passes although the terminal has no such word |
| --- | --- |
| in brackets | a control character that is not blank |
| as it is | a dot at the end of either part |

With a control character there is no token at all (`Iri.brackets_isToken_iff`).  A name with a dot at
its end is cut short: the token ends before the last dots, and the first of them is read as the end
of the triple (`Iri.prefixed_isToken_iff`).
-/

import DateFacet.Proofs.FormReading
import DateFacet.Proofs.TermReading
import DateFacet.Proofs.Terminals
import DateFacet.Sparql.Pattern
import Mathlib.Data.List.DropRight

namespace DateFacet

/-- Trimming takes no character away that is not blank. -/
theorem Text.mem_trimChars_iff {cs : List Char} {c : Char} (notBlank : isBlank c = false) :
    c ∈ trimChars cs ↔ c ∈ cs := by
  obtain ⟨before, after, hbefore, hafter, split⟩ := exists_trimChars cs
  have hc : ¬isBlank c = true := by simp [notBlank]
  conv_rhs => rw [split, List.mem_append, List.mem_append]
  constructor
  · exact fun mem => .inl (.inr mem)
  · rintro ((mem | mem) | mem)
    · exact absurd (hbefore c mem) hc
    · exact mem
    · exact absurd (hafter c mem) hc

/-- A part that does not end with what is dropped is a part of what is left. -/
theorem Text.prefix_rdropWhile {pass : Char → Bool} {part cs : List Char} (h : part <+: cs)
    (last : ∀ c ∈ part.getLast?, pass c = false) : part <+: cs.rdropWhile pass := by
  induction cs using List.reverseRecOn with
  | nil => rwa [List.rdropWhile_nil]
  | append_singleton cs c ih =>
    rcases Bool.eq_false_or_eq_true (pass c) with dropped | kept
    · rw [List.rdropWhile_concat_pos _ _ _ dropped]
      rcases List.prefix_concat_iff.1 h with rfl | h
      · rw [last c (by simp)] at dropped
        cases dropped
      · exact ih h
    · rwa [List.rdropWhile_concat_neg _ _ _ (by simp [kept])]

namespace Sparql

open Terminal (IsToken)

/-! ## Nodes in brackets -/

/-- The control characters before U+0020 that are not blank. -/
def Iri.isControl (c : Char) : Bool := c.toNat ≤ 8 || (0xE ≤ c.toNat && c.toNat ≤ 0x1F)

namespace Iri

/-- These control characters are no blanks, so the check of an IRI lets them pass. -/
theorem isBlank_of_isControl {c : Char} (h : isControl c = true) : Text.isBlank c = false := by
  simp only [isControl, Bool.or_eq_true, Bool.and_eq_true, decide_eq_true_eq] at h
  simp only [Text.isBlank, Bool.or_eq_false_iff, Bool.and_eq_false_iff, decide_eq_false_iff_not,
    beq_eq_false_iff_ne]
  omega

/-- Among the characters that the check lets pass, the terminal lacks just these. -/
theorem isIriChar_eq {c : Char} (h : isForbidden c = false) :
    Terminal.isIriChar c = !isControl c := by
  obtain ⟨notBlank, notMark⟩ := Bool.or_eq_false_iff.1 h
  rw [Terminal.isIriChar, notMark, Bool.or_false]
  simp only [Text.isBlank, Bool.or_eq_false_iff, Bool.and_eq_false_iff, decide_eq_false_iff_not,
    beq_eq_false_iff_ne] at notBlank
  congr 1
  rw [Bool.eq_iff_iff]
  simp only [isControl, Bool.or_eq_true, Bool.and_eq_true, decide_eq_true_eq]
  omega

/-- Of the characters of a named node, only control characters may not stand in brackets. -/
theorem isIriChar_of_mem (i : Iri) {c : Char} (mem : c ∈ i.text.toList) :
    Terminal.isIriChar c = !isControl c :=
  isIriChar_eq (((isLegal_iff _).1 i.legal).2 c mem)

/-- **A node in brackets is one token** if no control character stands in it, and otherwise there is
none. -/
theorem isToken_chars_iff {i : Iri} (full : i.isPrefixed = false) (rest word : List Char) :
    IsToken Terminal.iri word (i.chars ++ rest) ↔
      word = i.chars ∧ ∀ c ∈ i.text.toList, isControl c = false := by
  have written : i.chars = '<' :: i.text.toList ++ ['>'] := by
    rw [chars, if_neg (by simp [full])]
  have close : '>' ∉ i.text.toList := by
    intro mem
    exact absurd (((isLegal_iff _).1 i.legal).2 '>' mem) (by decide)
  have legal : (∀ c ∈ i.text.toList, Terminal.isIriChar c = true) ↔
      ∀ c ∈ i.text.toList, isControl c = false := by
    refine forall₂_congr fun c mem => ?_
    rw [i.isIriChar_of_mem mem, Bool.not_eq_true']
  rw [written, List.append_assoc, List.singleton_append, Terminal.isToken_iri_iff close, legal]

end Iri

/-- The node of a term: itself, or the datatype of a literal. -/
def Term.node? : Term → Option Iri
  | .variable _ => none
  | .iri i => some i
  | .literal l => some l.datatype

/-- The nodes that a written pattern holds, datatypes among them, in order. -/
def Pattern.nodes (p : Pattern) : List Iri := p.terms.filterMap Term.node?

namespace Iri

/-- **When a node in brackets is an IRI.**  The check lets a character pass that no IRI has if and
only if it is one of the control characters before U+0020 that are not blank.  Of these trimming
takes none away.  So a node in brackets, in whatever pattern and before whatever follows, is one
token exactly if the text that was typed has none of them, and otherwise there is no token. -/
theorem brackets_isToken_iff {text : String} {i : Iri} (accepted : ofText text = .ok i) :
    (∀ c ∈ i.text.toList, Terminal.isIriChar c = !isControl c) ∧
      (∀ c, isControl c = true → (c ∈ i.text.toList ↔ c ∈ text.toList)) ∧
      (i.isPrefixed = false → ∀ rest word, IsToken Terminal.iri word (i.chars ++ rest) ↔
        word = i.chars ∧ ∀ c ∈ text.toList, isControl c = false) ∧
      ∀ p : Pattern, ∀ j ∈ p.nodes, j.isPrefixed = false → ∀ rest word,
        IsToken Terminal.iri word (j.chars ++ rest) ↔
          word = j.chars ∧ ∀ c ∈ j.text.toList, isControl c = false := by
  have kept : ∀ c, isControl c = true → (c ∈ i.text.toList ↔ c ∈ text.toList) := by
    intro c control
    rw [text_of_ofText accepted, Text.toList_trim,
      Text.mem_trimChars_iff (isBlank_of_isControl control)]
  have none_iff : (∀ c ∈ i.text.toList, isControl c = false) ↔
      ∀ c ∈ text.toList, isControl c = false := by
    simp only [← Bool.not_eq_true]
    exact ⟨fun h c mem control => h c ((kept c control).2 mem) control,
      fun h c mem control => h c ((kept c control).1 mem) control⟩
  refine ⟨fun c mem => i.isIriChar_of_mem mem, kept, fun full rest word => ?_,
    fun _ _ _ full rest word => isToken_chars_iff full rest word⟩
  rw [isToken_chars_iff full, none_iff]

/-- The hypothesis of `brackets_isToken_iff` holds of a node between blanks, which is a token before
the rest of a triple. -/
theorem brackets_isToken_iff_begin :
    ∃ i, ofText " http://example.org/begin " = .ok i ∧ i.isPrefixed = false ∧
      IsToken Terminal.iri i.chars (i.chars ++ " ?date .".toList) := by
  have accepted : ofText " http://example.org/begin " =
      .ok ⟨"http://example.org/begin", by decide +kernel⟩ := by decide +kernel
  have full : isPrefixed ⟨"http://example.org/begin", by decide +kernel⟩ = false := by
    decide +kernel
  have plain : " http://example.org/begin ".toList.all (!isControl ·) = true := by decide +kernel
  obtain ⟨-, -, token, -⟩ := brackets_isToken_iff accepted
  refine ⟨_, accepted, full, (token full _ _).2 ⟨rfl, fun c mem => ?_⟩⟩
  simpa using List.all_eq_true.1 plain c mem

/-- A control character within a text is accepted, and what is written is no IRI. -/
theorem ofText_control :
    ∃ i, ofText "a\x01b" = .ok i ∧ i.chars = ['<', 'a', '\x01', 'b', '>'] ∧
      Terminal.isIriChar '\x01' = false ∧ i.chars ∉ Terminal.iri ∧
      ∀ rest word, ¬ IsToken Terminal.iri word (i.chars ++ rest) := by
  have accepted : ofText "a\x01b" = .ok ⟨"a\x01b", by decide +kernel⟩ := by decide +kernel
  have full : isPrefixed ⟨"a\x01b", by decide +kernel⟩ = false := by decide +kernel
  have control : '\x01' ∈ "a\x01b".toList ∧ isControl '\x01' = true := by decide +kernel
  have noToken : ∀ rest word,
      ¬ IsToken Terminal.iri word (chars ⟨"a\x01b", by decide +kernel⟩ ++ rest) := by
    intro rest word token
    have none := ((isToken_chars_iff full rest word).1 token).2 '\x01' control.1
    rw [control.2] at none
    cases none
  refine ⟨_, accepted, by decide +kernel, by decide, fun mem => ?_, noToken⟩
  have whole := Terminal.isToken_self.2 mem
  rw [← List.append_nil (chars _)] at whole
  exact noToken [] _ whole

/-! ## Prefixed names -/

/-- The grammar lets every letter, digit and underscore start a name. -/
theorem isStart_or_isDigit {c : Char} (h : (c.isAlphanum || c = '_') = true) :
    Terminal.isStart c = true ∨ c.isDigit = true := by
  rw [Char.isAlphanum, Bool.or_eq_true, Bool.or_eq_true] at h
  rcases h with (alpha | digit) | underscore
  · exact .inl (by simp [Terminal.isStart, Terminal.isLetter_of_isAlpha alpha])
  · exact .inr digit
  · exact .inl (by simp [Terminal.isStart, of_decide_eq_true underscore])

/-- In the grammar a name may end with each of its characters but the dot. -/
theorem isNamePart_iff {c : Char} (h : isNameChar c = true) :
    Terminal.isNamePart c = true ↔ c ≠ '.' := by
  constructor
  · rintro part rfl
    exact absurd part (by decide)
  · intro ne
    rw [isNameChar, Bool.or_eq_true, Bool.or_eq_true] at h
    rcases h with (start | dot) | dash
    · rcases isStart_or_isDigit start with start | digit
      · simp [Terminal.isNamePart, start]
      · simp [Terminal.isNamePart, digit]
    · exact absurd (of_decide_eq_true dot) ne
    · simp [Terminal.isNamePart, of_decide_eq_true dash]

/-- A name space is a label of the grammar unless it ends with a dot. -/
theorem mem_label_iff {space : List Char} (h : isNameSpace space = true) :
    space ∈ Terminal.label ↔ space.getLast? ≠ some '.' := by
  cases space with
  | nil => cases h
  | cons c cs =>
    rw [isNameSpace, Bool.and_eq_true, List.all_eq_true] at h
    obtain ⟨alpha, chars⟩ := h
    refine Terminal.mem_name_iff_getLast? (fun _ _ => Language.notMem_zero _)
      (Terminal.isLetter_of_isAlpha alpha) ?_ (fun d hd => ?_) fun d hd =>
        isNamePart_iff (chars d hd)
    · rintro rfl
      cases alpha
    · rcases eq_or_ne d '.' with rfl | ne
      · simp
      · simp [(isNamePart_iff (chars d hd)).2 ne]

/-- No code of the grammar stands in a local name. -/
theorem notMem_code_of_isLocalName {name : List Char} (h : isLocalName name = true) :
    ∀ part ⊆ name, part ∉ Terminal.code := by
  intro part sub mem
  obtain ⟨c, hc, mark⟩ := Terminal.exists_mem_of_mem_code mem
  have pass := isPrefixedChar_of_isLocalName h c (sub hc)
  rcases mark with rfl | rfl
  · exact absurd pass (by decide)
  · exact absurd pass (by decide)

/-- A local name is one of the grammar unless it ends with a dot. -/
theorem mem_localName_iff {name : List Char} (h : isLocalName name = true) :
    name ∈ Terminal.localName ↔ name.getLast? ≠ some '.' := by
  have noCode := notMem_code_of_isLocalName h
  cases name with
  | nil => cases h
  | cons c cs =>
    rw [isLocalName, Bool.and_eq_true, List.all_eq_true] at h
    obtain ⟨start, chars⟩ := h
    refine Terminal.mem_name_iff_getLast? noCode ?_ ?_ (fun d hd => ?_) fun d hd => ?_
    · rcases isStart_or_isDigit start with start | digit
      · simp [start]
      · simp [digit]
    · rintro rfl
      exact absurd start (by decide)
    · rcases eq_or_ne d '.' with rfl | ne
      · simp
      · simp [(isNamePart_iff (chars d hd)).2 ne]
    · have ne : d ≠ ':' := by
        rintro rfl
        exact absurd (chars _ hd) (by decide)
      rw [decide_eq_false ne, Bool.or_false, isNamePart_iff (chars d hd)]

/-- What a local name starts with is a local name. -/
theorem isLocalName_of_isPrefix {part name : List Char} (go : part <+: name) (ne : part ≠ [])
    (h : isLocalName name = true) : isLocalName part = true := by
  obtain ⟨rest, rfl⟩ := go
  cases part with
  | nil => exact absurd rfl ne
  | cons c cs =>
    rw [List.cons_append, isLocalName, Bool.and_eq_true, List.all_append, Bool.and_eq_true] at h
    rw [isLocalName, h.1, h.2.1]
    rfl

/-- The part before the colon has no colon. -/
theorem colon_notMem_of_isNameSpace {space : List Char} (h : isNameSpace space = true) :
    ':' ∉ space := by
  cases space with
  | nil => cases h
  | cons c cs =>
    rw [isNameSpace, Bool.and_eq_true, List.all_eq_true] at h
    rw [List.mem_cons, not_or]
    refine ⟨?_, fun mem => absurd (h.2 ':' mem) (by decide)⟩
    rintro rfl
    exact absurd h.1 (by decide)

section

variable {space name : List Char} (hspace : isNameSpace space = true)
  (hname : isLocalName name = true)

include hspace hname

/-- The prefixed names that a text starts with have the whole name space and some of the local name,
and neither ends with a dot. -/
theorem prefixedName_and_prefix_iff (rest word : List Char) :
    word ∈ Terminal.prefixedName ∧ word <+: space ++ ':' :: name ++ ' ' :: rest ↔
      space.getLast? ≠ some '.' ∧ ∃ part, part <+: name ∧ part ≠ [] ∧
        part.getLast? ≠ some '.' ∧ word = space ++ ':' :: part := by
  constructor
  · rintro ⟨mem, go⟩
    -- No prefixed name has a blank, so the word ends before the one behind the local name.
    obtain ⟨others, eq⟩ := Text.prefix_of_prefix_mark go fun blank =>
      Terminal.isOver_prefixedName word mem ' ' blank rfl
    obtain ⟨front, hfront, part, hpart, rfl⟩ := Language.mem_mul.1 mem
    obtain ⟨label, hlabel, mark, hmark, rfl⟩ := Language.mem_mul.1 hfront
    obtain rfl := Terminal.mem_oneOf_eq.1 hmark
    have colon : ':' ∉ label := fun hc =>
      (Terminal.isOver_one.add Terminal.isOver_label) label hlabel ':' hc rfl
    -- Both have their colon behind the same name space, for neither has another colon before it.
    obtain ⟨rfl, goesOn⟩ := Text.append_mark_inj colon (colon_notMem_of_isNameSpace hspace)
      (by simpa using eq)
    have go : part <+: name := ⟨others, goesOn⟩
    have ne : part ≠ [] := by
      rintro rfl
      have noCode : ∀ w ⊆ [], w ∉ Terminal.code :=
        fun w sub => notMem_code_of_isLocalName hname w
          (List.Subset.trans sub (List.nil_subset name))
      obtain ⟨_, _, eq, -⟩ := (Terminal.mem_name_iff noCode).1 hpart
      cases eq
    have ends : label ∈ Terminal.label := by
      refine hlabel.resolve_left fun nil => ?_
      rw [nil] at hspace
      cases hspace
    exact ⟨(mem_label_iff hspace).1 ends, part, go, ne,
      (mem_localName_iff (isLocalName_of_isPrefix go ne hname)).1 hpart, by simp⟩
  · rintro ⟨dot, part, go, ne, last, rfl⟩
    have front : space ++ [':'] ∈ (1 + Terminal.label) * Terminal.oneOf (· = ':') :=
      Language.append_mem_mul (.inr ((mem_label_iff hspace).2 dot)) (Terminal.mem_oneOf_eq.2 rfl)
    have back : part ∈ Terminal.localName :=
      (mem_localName_iff (isLocalName_of_isPrefix go ne hname)).2 last
    constructor
    · rw [List.append_cons]
      exact Language.append_mem_mul front back
    · obtain ⟨others, rfl⟩ := go
      exact ⟨others ++ ' ' :: rest, by simp⟩

omit hspace in
/-- What is left of a local name without its last dots. -/
theorem rdropWhile_dot_localName :
    name.rdropWhile (· = '.') ≠ [] ∧ (name.rdropWhile (· = '.')).getLast? ≠ some '.' := by
  have ne : name.rdropWhile (· = '.') ≠ [] := by
    intro nil
    cases name with
    | nil => cases hname
    | cons c cs =>
      rw [isLocalName, Bool.and_eq_true] at hname
      have dot := List.rdropWhile_eq_nil_iff.1 nil c List.mem_cons_self
      rw [of_decide_eq_true dot] at hname
      exact absurd hname.1 (by decide)
  refine ⟨ne, fun last => List.rdropWhile_last_not _ _ ne ?_⟩
  rw [List.getLast?_eq_some_getLast ne] at last
  exact decide_eq_true (Option.some.inj last)

/-- **A prefixed name ends before its last dots** as a token, and is none if its name space ends with
a dot. -/
theorem isToken_prefixedName_iff (rest word : List Char) :
    IsToken Terminal.prefixedName word (space ++ ':' :: name ++ ' ' :: rest) ↔
      space.getLast? ≠ some '.' ∧ word = space ++ ':' :: name.rdropWhile (· = '.') := by
  have words := prefixedName_and_prefix_iff hspace hname rest
  have kept : name.rdropWhile (· = '.') <+: name := List.rdropWhile_prefix _ _
  obtain ⟨ne, last⟩ := rdropWhile_dot_localName hname
  have longest : ∀ part, part <+: name → part.getLast? ≠ some '.' →
      part <+: name.rdropWhile (· = '.') := by
    intro part go dot
    refine Text.prefix_rdropWhile go fun c hc => decide_eq_false ?_
    rintro rfl
    exact dot hc
  constructor
  · rintro ⟨token, greatest⟩
    obtain ⟨dot, part, go, -, hpart, rfl⟩ := (words word).1 token
    obtain ⟨mem, within⟩ := (words (space ++ ':' :: name.rdropWhile (· = '.'))).2
      ⟨dot, _, kept, ne, last, rfl⟩
    have length := greatest _ mem within
    simp only [List.length_append, List.length_cons] at length
    rw [(longest part go hpart).eq_of_length_le (by omega)]
    exact ⟨dot, rfl⟩
  · rintro ⟨dot, rfl⟩
    refine ⟨(words _).2 ⟨dot, _, kept, ne, last, rfl⟩, fun other mem within => ?_⟩
    obtain ⟨-, part, go, -, hpart, rfl⟩ := (words other).1 ⟨mem, within⟩
    simpa using (longest part go hpart).length_le

/-- A prefixed name is one of the grammar exactly if neither part ends with a dot. -/
theorem mem_prefixedName_iff : space ++ ':' :: name ∈ Terminal.prefixedName ↔
    space.getLast? ≠ some '.' ∧ name.getLast? ≠ some '.' := by
  have go : space ++ ':' :: name <+: space ++ ':' :: name ++ ' ' :: [] := List.prefix_append _ _
  rw [← and_iff_left (a := _ ∈ _) go, prefixedName_and_prefix_iff hspace hname]
  constructor
  · rintro ⟨dot, part, -, -, last, eq⟩
    rw [(List.cons.inj (List.append_cancel_left eq)).2]
    exact ⟨dot, last⟩
  · rintro ⟨dot, last⟩
    refine ⟨dot, name, List.prefix_rfl, ?_, last, rfl⟩
    rintro rfl
    cases hname

end

end Iri

/-- The written triple from its predicate on. -/
def Triple.fromPredicate (t : Triple) : List Char :=
  t.chars.drop (t.subject.chars.length + 1)

/-- From the predicate on, a triple is written up to its dot. -/
theorem Triple.fromPredicate_eq (t : Triple) :
    t.fromPredicate = t.predicate.chars ++ ' ' :: (t.object.chars ++ [' ', '.']) := by
  have written : t.chars = t.subject.chars ++
      ' ' :: (t.predicate.chars ++ ' ' :: (t.object.chars ++ [' ', '.'])) := by
    simp [chars]
  rw [fromPredicate, written, List.drop_length_add_append, List.drop_succ_cons, List.drop_zero]

namespace Iri

/-- **When a name without brackets is a prefixed name.**  It is the text that was typed, without the
blanks around it, and both its parts start as they do in the grammar.  It is a prefixed name exactly
if neither of them ends with a dot.  In a triple, the token read for such a property is the name
without its last dots, of which the next one then ends the triple, and there is no token if the name
space ends with a dot. -/
theorem prefixed_isToken_iff {text : String} {i : Iri} (accepted : ofText text = .ok i)
    (bare : i.isPrefixed = true) :
    i.chars = Text.trimChars text.toList ∧ ∃ space name, i.chars = space ++ ':' :: name ∧
      isNameSpace space = true ∧ isLocalName name = true ∧
      (i.chars ∈ Terminal.prefixedName ↔
        space.getLast? ≠ some '.' ∧ name.getLast? ≠ some '.') ∧
      ∀ t : Triple, t.predicate = .iri i → ∀ word,
        IsToken Terminal.prefixedName word t.fromPredicate ↔
          space.getLast? ≠ some '.' ∧ word = space ++ ':' :: name.rdropWhile (· = '.') := by
  obtain ⟨space, name, split, hspace, hname⟩ := exists_parts bare
  have written : i.chars = i.text.toList := by rw [chars, if_pos bare]
  refine ⟨by rw [written, text_of_ofText accepted, Text.toList_trim], space, name,
    written.trans split, hspace, hname, ?_, fun t property word => ?_⟩
  · rw [written, split]
    exact mem_prefixedName_iff hspace hname
  · have predicate : t.predicate.chars = space ++ ':' :: name := by
      rw [property, Term.chars, written, split]
    rw [t.fromPredicate_eq, predicate]
    exact isToken_prefixedName_iff hspace hname _ word

/-- The hypotheses of `prefixed_isToken_iff` hold of a property between blanks.  Dots within its local
name stay. -/
theorem prefixed_isToken_iff_begin :
    ∃ i, ofText " ex:date.begin " = .ok i ∧ i.isPrefixed = true ∧
      IsToken Terminal.prefixedName "ex:date.begin".toList
        (Triple.fromPredicate ⟨.variable ⟨"it"⟩, .iri i, .variable ⟨"date"⟩⟩) := by
  have accepted : ofText " ex:date.begin " = .ok ⟨"ex:date.begin", by decide +kernel⟩ := by
    decide +kernel
  have bare : isPrefixed ⟨"ex:date.begin", by decide +kernel⟩ = true := by decide +kernel
  obtain ⟨-, space, name, written, hspace, hname, -, token⟩ := prefixed_isToken_iff accepted bare
  have parts : space = "ex".toList ∧ name = "date.begin".toList := by
    refine Text.append_mark_inj (colon_notMem_of_isNameSpace hspace) (by decide +kernel) ?_
    exact written.symm.trans (by decide +kernel)
  obtain ⟨rfl, rfl⟩ := parts
  exact ⟨_, accepted, bare, (token _ rfl _).2 ⟨by decide +kernel, by decide +kernel⟩⟩

/-- A dot at the end of a property is accepted and written as it is.  The token that a triple has for
it ends before the dot. -/
theorem prefixed_cut_short :
    ∃ i, ofText "ex:begin." = .ok i ∧ i.chars = "ex:begin.".toList ∧
      i.chars ∉ Terminal.prefixedName ∧ ∀ subject object,
        IsToken Terminal.prefixedName "ex:begin".toList
            (Triple.fromPredicate ⟨subject, .iri i, object⟩) ∧
          "ex:begin.".toList <+: Triple.fromPredicate ⟨subject, .iri i, object⟩ := by
  have accepted : ofText "ex:begin." = .ok ⟨"ex:begin.", by decide +kernel⟩ := by decide +kernel
  have written : chars ⟨"ex:begin.", by decide +kernel⟩ = "ex".toList ++ ':' :: "begin.".toList := by
    decide +kernel
  have hspace : isNameSpace "ex".toList = true := by decide +kernel
  have hname : isLocalName "begin.".toList = true := by decide +kernel
  refine ⟨_, accepted, by decide +kernel, fun mem => ?_, fun subject object => ?_⟩
  · rw [written, mem_prefixedName_iff hspace hname] at mem
    exact mem.2 (by decide +kernel)
  · rw [Triple.fromPredicate_eq, Term.chars, written]
    refine ⟨(isToken_prefixedName_iff hspace hname _ _).2 ⟨by decide +kernel, by decide +kernel⟩, ?_⟩
    exact List.prefix_append _ _

end Iri
end Sparql
end DateFacet
