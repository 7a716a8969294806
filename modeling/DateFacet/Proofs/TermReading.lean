/-
# Written terms are read back

The first character of a written term tells its kind, and each kind has its own end:

| term | first character | end |
| --- | --- | --- |
| variable | `?` | the last character of its name |
| literal | `"` | that of its datatype |
| IRI | `<` | the first `>` |
| prefixed name | any other | the last character of a name, or colon |

Within a literal no quotation mark stands without a backslash, and every backslash has a character
of its own, so the literal ends at its own mark whatever it holds.  Names end where something else
follows: behind a term there is a blank, a closing parenthesis, or nothing (`EndsTerm`).
-/

import DateFacet.Proofs.Names
import DateFacet.Proofs.Scanning
import Mathlib.Data.List.Basic

namespace DateFacet

/-- A word is taken off what follows it. -/
theorem Text.dropPrefix?_append (word rest : List Char) :
    (word ++ rest).dropPrefix? word = some rest :=
  List.dropPrefix?_append_of_beq rest BEq.rfl

namespace Sparql

/-- A term may end before these characters. -/
def EndsTerm (rest : List Char) : Prop := ∀ c ∈ rest.head?, c = ' ' ∨ c = ')'

/-- A blank ends a term. -/
theorem endsTerm_blank (rest : List Char) : EndsTerm (' ' :: rest) := by
  intro c mem
  exact .inl (Option.some.inj mem).symm

/-- Neither mark that may follow a term passes as a part of it. -/
theorem EndsTerm.stops {rest : List Char} (h : EndsTerm rest) {pass : Char → Bool}
    (blank : pass ' ' = false) (paren : pass ')' = false) :
    ∀ c ∈ rest.head?, pass c = false := by
  intro c mem
  rcases h c mem with rfl | rfl
  · exact blank
  · exact paren

/-! ## Variables -/

/-- Reads the name of a variable behind its mark. -/
def Variable.scan (cs : List Char) : Option (Variable × List Char) :=
  let name := cs.takeWhile isNameChar
  if name = [] then none else some (⟨String.ofList name⟩, cs.dropWhile isNameChar)

/-- A name is scanned in front of anything that ends a term. -/
theorem Variable.scan_name {v : Variable} (h : v.IsNamed) {rest : List Char}
    (ends : EndsTerm rest) : scan (v.name.toList ++ rest) = some (v, rest) := by
  obtain ⟨ne, legal⟩ := isNamed_iff.1 h
  obtain ⟨name, others⟩ := Text.takeWhile_dropWhile_append (List.all_eq_true.1 legal)
    (ends.stops (by decide) (by decide))
  rw [scan]
  simp only [name, others]
  rw [if_neg ne, String.ofList_toList]

/-! ## Named nodes -/

namespace Iri

/-- The named node with these characters, if they are legal. -/
def ofChars? (cs : List Char) : Option Iri :=
  if h : isLegal (String.ofList cs).toList = true then some ⟨String.ofList cs, h⟩ else none

/-- A named node is found again from its characters. -/
theorem ofChars?_toList (i : Iri) : ofChars? i.text.toList = some i := by
  simp only [ofChars?, String.ofList_toList]
  rw [dif_pos i.legal]

/-- The characters of a prefixed name. -/
def isPrefixedChar (c : Char) : Bool := isNameChar c || c = ':'

/-- A name space has characters of a prefixed name. -/
theorem isPrefixedChar_of_isNameSpace {cs : List Char} (h : isNameSpace cs = true) :
    ∀ c ∈ cs, isPrefixedChar c = true := by
  cases cs with
  | nil => exact fun _ mem => nomatch mem
  | cons c cs =>
    rw [isNameSpace, Bool.and_eq_true, List.all_eq_true] at h
    refine List.forall_mem_cons.2 ⟨?_, fun d mem => ?_⟩
    · simp [isPrefixedChar, isNameChar, Char.isAlphanum, h.1]
    · simp [isPrefixedChar, h.2 d mem]

/-- A local name has characters of a prefixed name. -/
theorem isPrefixedChar_of_isLocalName {cs : List Char} (h : isLocalName cs = true) :
    ∀ c ∈ cs, isPrefixedChar c = true := by
  cases cs with
  | nil => exact fun _ mem => nomatch mem
  | cons c cs =>
    rw [isLocalName, Bool.and_eq_true, List.all_eq_true] at h
    refine List.forall_mem_cons.2 ⟨?_, fun d mem => ?_⟩
    · rcases Bool.or_eq_true _ _ ▸ h.1 with alphanum | underscore
      · simp [isPrefixedChar, isNameChar, alphanum]
      · simp [isPrefixedChar, isNameChar, of_decide_eq_true underscore]
    · simp [isPrefixedChar, h.2 d mem]

/-- The first colon of a prefixed name stands between its parts. -/
theorem exists_parts {cs : List Char} (h : isPrefixedName cs = true) :
    ∃ space name, cs = space ++ ':' :: name ∧ isNameSpace space = true ∧
      isLocalName name = true := by
  rw [isPrefixedName, Bool.and_eq_true] at h
  obtain ⟨space, localName⟩ := h
  cases after : cs.dropWhile (· ≠ ':') with
  | nil =>
    rw [after] at localName
    cases localName
  | cons colon name =>
    obtain rfl : colon = ':' := by
      have head := List.head?_dropWhile_not (· ≠ ':') cs
      rw [after] at head
      simpa using head
    rw [after] at localName
    refine ⟨cs.takeWhile (· ≠ ':'), name, ?_, space, localName⟩
    rw [← after, List.takeWhile_append_dropWhile]

/-- A prefixed name has the characters of both its parts, and the colon between them. -/
theorem isPrefixedChar_of_isPrefixedName {cs : List Char} (h : isPrefixedName cs = true) :
    ∀ c ∈ cs, isPrefixedChar c = true := by
  obtain ⟨space, name, rfl, hspace, hname⟩ := exists_parts h
  intro c mem
  rcases List.mem_append.1 mem with mem | mem
  · exact isPrefixedChar_of_isNameSpace hspace c mem
  · rcases List.mem_cons.1 mem with rfl | mem
    · rfl
    · exact isPrefixedChar_of_isLocalName hname c mem

/-- A prefixed name starts with one of its characters. -/
theorem exists_text_eq_cons {i : Iri} (h : i.isPrefixed = true) :
    ∃ c cs, i.text.toList = c :: cs ∧ isPrefixedChar c = true := by
  obtain ⟨ne, -⟩ := (isLegal_iff _).1 i.legal
  obtain ⟨c, cs, eq⟩ := List.exists_cons_of_ne_nil ne
  have run := isPrefixedChar_of_isPrefixedName h
  rw [eq] at run
  exact ⟨c, cs, eq, run c List.mem_cons_self⟩

/-- Reads a named node. -/
def scan : List Char → Option (Iri × List Char)
  | '<' :: cs =>
    match cs.dropWhile (· ≠ '>') with
    | _ :: rest => (ofChars? (cs.takeWhile (· ≠ '>'))).map (·, rest)
    | [] => none
  | cs =>
    let name := cs.takeWhile isPrefixedChar
    if isPrefixedName name then (ofChars? name).map (·, cs.dropWhile isPrefixedChar) else none

/-- A prefixed name is scanned as it is, in front of anything that ends a term. -/
theorem scan_name {i : Iri} (h : i.isPrefixed = true) {rest : List Char} (ends : EndsTerm rest) :
    scan (i.text.toList ++ rest) = some (i, rest) := by
  have run := isPrefixedChar_of_isPrefixedName h
  obtain ⟨name, others⟩ := Text.takeWhile_dropWhile_append run
    (ends.stops (by decide) (by decide))
  rw [scan]
  · simp only [name, others]
    rw [if_pos (show isPrefixedName i.text.toList = true from h), ofChars?_toList]
    rfl
  · -- The mark of an IRI is no character of a name.
    intro cs eq
    obtain ⟨c, text, first, pass⟩ := exists_text_eq_cons h
    rw [first, List.cons_append] at eq
    rw [(List.cons.inj eq).1] at pass
    exact absurd pass (by decide)

/-- An IRI in angle brackets is scanned up to the closing one. -/
theorem scan_quoted (i : Iri) (rest : List Char) :
    scan ('<' :: i.text.toList ++ '>' :: rest) = some (i, rest) := by
  obtain ⟨-, notForbidden⟩ := (isLegal_iff _).1 i.legal
  have run : ∀ c ∈ i.text.toList, decide (c ≠ '>') = true := by
    intro c mem
    refine decide_eq_true fun eq => ?_
    rw [eq] at mem
    exact absurd (notForbidden '>' mem) (by decide)
  have stop : decide ('>' ≠ '>') = false := rfl
  obtain ⟨name, others⟩ := Text.takeWhile_dropWhile_mark run stop rest
  rw [List.cons_append, scan]
  simp only [name, others, ofChars?_toList]
  rfl

/-- **A written node is read back.** -/
theorem scan_chars (i : Iri) {rest : List Char} (ends : EndsTerm rest) :
    scan (i.chars ++ rest) = some (i, rest) := by
  rw [chars]
  split
  · next prefixed => exact scan_name prefixed ends
  · rw [List.append_assoc]
    exact i.scan_quoted rest

/-- A written node starts with neither mark of another kind of term. -/
theorem chars_ne_cons (i : Iri) {mark : Char} (other : mark ≠ '<')
    (noName : isPrefixedChar mark = false) (rest cs : List Char) : i.chars ++ rest ≠ mark :: cs := by
  intro eq
  rw [chars] at eq
  split at eq
  · next prefixed =>
    obtain ⟨c, text, first, pass⟩ := exists_text_eq_cons prefixed
    rw [first, List.cons_append] at eq
    rw [(List.cons.inj eq).1, noName] at pass
    cases pass
  · exact other (List.cons.inj eq).1.symm

end Iri

/-! ## Literals -/

namespace Literal

/-- The character that a letter after a backslash stands for. -/
def escaped? : Char → Option Char
  | '"' => some '"'
  | '\\' => some '\\'
  | 'n' => some '\n'
  | 'r' => some '\r'
  | _ => none

/-- Reads the content of a literal up to the mark that closes it.  No line ends within it. -/
def scanLexical : List Char → Option (List Char × List Char)
  | [] => none
  | '"' :: rest => some ([], rest)
  | '\\' :: letter :: rest => do
    let c ← escaped? letter
    let (cs, rest) ← scanLexical rest
    some (c :: cs, rest)
  | c :: rest =>
    if c = '\\' ∨ c = '\n' ∨ c = '\r' then none else do
      let (cs, rest) ← scanLexical rest
      some (c :: cs, rest)

/-- An escaped character is scanned as the character. -/
theorem scanLexical_escapeChar (c : Char) {cs rest inner : List Char}
    (h : scanLexical inner = some (cs, rest)) :
    scanLexical (escapeChar c ++ inner) = some (c :: cs, rest) := by
  have letter : ∀ letter, escaped? letter = some c →
      scanLexical ('\\' :: letter :: inner) = some (c :: cs, rest) := by
    intro letter stands
    rw [scanLexical, stands]
    simp only [h]
    rfl
  unfold escapeChar
  -- Four characters have a letter; the others stand for themselves.
  split
  · next eq => exact letter '"' (by rw [eq]; rfl)
  split
  · next eq => exact letter '\\' (by rw [eq]; rfl)
  split
  · next eq => exact letter 'n' (by rw [eq]; rfl)
  split
  · next eq => exact letter 'r' (by rw [eq]; rfl)
  · next quote backslash newline ret =>
    rw [List.cons_append, List.nil_append, scanLexical]
    · rw [if_neg (by simp [backslash, newline, ret]), h]
      rfl
    · exact quote
    · exact fun _ _ eq => absurd eq backslash

/-- **The content of a literal is read back**, whatever it holds and whatever follows it. -/
theorem scanLexical_escaped (cs rest : List Char) :
    scanLexical (cs.flatMap escapeChar ++ '"' :: rest) = some (cs, rest) := by
  induction cs with
  | nil => rfl
  | cons c cs ih =>
    rw [List.flatMap_cons, List.append_assoc]
    exact scanLexical_escapeChar c ih

/-- Reads a literal behind its first mark. -/
def scan (cs : List Char) : Option (Literal × List Char) := do
  let (lexical, rest) ← scanLexical cs
  match rest with
  | '^' :: '^' :: rest => do
    let (datatype, rest) ← Iri.scan rest
    some (⟨String.ofList lexical, datatype⟩, rest)
  | _ => none

/-- The content of a literal stands behind its first mark. -/
theorem chars_append (l : Literal) (rest : List Char) :
    l.chars ++ rest = '"' :: (l.lexical.toList.flatMap escapeChar ++
      '"' :: '^' :: '^' :: (l.datatype.chars ++ rest)) := by
  simp [chars]

/-- An escaped text and its datatype are scanned as the literal. -/
theorem scan_lexical (l : Literal) {rest : List Char} (ends : EndsTerm rest) :
    scan (l.lexical.toList.flatMap escapeChar ++ '"' :: '^' :: '^' :: (l.datatype.chars ++ rest)) =
      some (l, rest) := by
  have content := scanLexical_escaped l.lexical.toList ('^' :: '^' :: (l.datatype.chars ++ rest))
  have datatype := l.datatype.scan_chars ends
  rw [scan, content]
  simp only [Option.bind_eq_bind, Option.bind_some, datatype, String.ofList_toList]

end Literal

/-! ## Terms -/

namespace Term

/-- Reads a term. -/
def scan : List Char → Option (Term × List Char)
  | '?' :: cs => (Variable.scan cs).map fun (v, rest) => (.variable v, rest)
  | '"' :: cs => (Literal.scan cs).map fun (l, rest) => (.literal l, rest)
  | cs => (Iri.scan cs).map fun (i, rest) => (.iri i, rest)

/-- **A written term is read back**, in front of anything that may follow a term. -/
theorem scan_chars {t : Term} (named : ∀ v, t = .variable v → v.IsNamed) {rest : List Char}
    (ends : EndsTerm rest) : scan (t.chars ++ rest) = some (t, rest) := by
  match t with
  | .variable v =>
    have name := Variable.scan_name (named v rfl) ends
    rw [chars, Variable.chars, List.cons_append, scan, name]
    rfl
  | .literal l =>
    have content := l.scan_lexical ends
    rw [chars, l.chars_append, scan, content]
    rfl
  | .iri i =>
    have node := i.scan_chars ends
    rw [chars, scan, node]
    · rfl
    · exact i.chars_ne_cons (by decide) (by decide) rest
    · exact i.chars_ne_cons (by decide) (by decide) rest

end Term
end Sparql
end DateFacet
