/-
# The listed terms of a pattern

The terms of a pattern are listed on one way through it, and its text is written on another.  Both are
compared with the pieces of the pattern (`Pattern.pieces`), which are what is written with the terms
kept whole:

| part | marks |
| --- | --- |
| triple | a blank behind each term, and a stop |
| comparison | the sign between blanks |
| connective | `&&` or `||` between blanks, parentheses around a member that is no comparison |
| filter | `FILTER`, and parentheses |
| group | braces, a blank before each member and before the end |
| union | `UNION` between blanks, braces around an alternative that is no group |

The pieces of a part spell what is written for it and hold the terms that are listed for it, and what
follows the part cannot be taken for the rest of its last term (`Piece.Writes`).  Each way of putting
parts together keeps this, with any number of members.
-/

import DateFacet.Proofs.Pieces

namespace DateFacet
namespace Sparql

/-! ## Parts -/

namespace Piece

/-- Pieces spell these characters, hold these terms, and may stand in front of everything that a term
may stand in front of. -/
structure Writes (ps : List Piece) (cs : List Char) (ts : List Term) : Prop where
  chars : spell ps = cs
  terms : terms ps = ts
  chain : ∀ {qs : List Piece}, EndTerm qs → qs.IsChain Precedes → (ps ++ qs).IsChain Precedes

/-- A term may end before a blank. -/
theorem endTerm_blank (ps : List Piece) : EndTerm (.mark .blank :: ps) := by
  intro q mem
  exact .inl (Option.some.inj mem).symm

theorem endTerm_closing (ps : List Piece) : EndTerm (.mark .closing :: ps) := by
  intro q mem
  exact .inr (Option.some.inj mem).symm

/-- A term may end before pieces if it may end before each part of them. -/
theorem EndTerm.append {ps qs : List Piece} (h : EndTerm ps) (h' : EndTerm qs) :
    EndTerm (ps ++ qs) := by
  cases ps with
  | nil => exact h'
  | cons p ps => exact h

namespace Writes

variable {m n : Mark} {ps qs : List Piece} {cs ds : List Char} {ts us : List Term}

theorem nil : Writes [] [] [] := ⟨rfl, rfl, fun _ chain => chain⟩

/-- A term writes itself. -/
theorem term (t : Term) : Writes [.term t] t.chars [t] :=
  ⟨by simp, rfl, fun ends chain => chain.cons ends⟩

/-- Pieces and others behind them write what both do, if a term may end between them. -/
theorem append (h : Writes ps cs ts) (h' : Writes qs ds us) (ends : EndTerm qs) :
    Writes (ps ++ qs) (cs ++ ds) (ts ++ us) where
  chars := by rw [spell_append, h.chars, h'.chars]
  terms := by rw [terms_append, h.terms, h'.terms]
  chain next chain := by
    rw [List.append_assoc]
    exact h.chain (ends.append next) (h'.chain next chain)

/-- Most marks may have anything behind them. -/
theorem mark (m : Mark) (h : Writes ps cs ts) (free : ∀ q, Precedes (.mark m) q) :
    Writes (.mark m :: ps) (m.chars ++ cs) ts where
  chars := by rw [spell_mark, h.chars]
  terms := by rw [terms_mark, h.terms]
  chain next chain := (h.chain next chain).cons fun q _ => free q

/-- A blank may stand in front of anything. -/
theorem blank (h : Writes ps cs ts) : Writes (.mark .blank :: ps) (' ' :: cs) ts :=
  h.mark .blank fun _ => trivial

/-- Some marks have one other mark behind them. -/
theorem mark_mark (h : Writes (.mark n :: ps) cs ts) (fits : Precedes (.mark m) (.mark n)) :
    Writes (.mark m :: .mark n :: ps) (m.chars ++ cs) ts where
  chars := by rw [spell_mark, h.chars]
  terms := by rw [terms_mark, h.terms]
  chain next chain := (h.chain next chain).cons fun q mem => by
    rwa [← Option.some.inj mem]

/-- A mark at the end. -/
theorem last (m : Mark) (free : ∀ q, Precedes (.mark m) q) : Writes [.mark m] m.chars [] := by
  simpa using nil.mark m free

/-- Marks behind a part. -/
theorem closed (h : Writes ps cs ts) (h' : Writes qs ds []) (ends : EndTerm qs) :
    Writes (ps ++ qs) (cs ++ ds) ts := by
  simpa using h.append h' ends

/-- A brace closes behind a blank. -/
theorem closingBrace (h : Writes ps cs ts) :
    Writes (ps ++ [.mark .blank, .mark .closingBrace]) (cs ++ [' ', '\x7d']) ts :=
  h.closed (last .closingBrace fun _ => trivial).blank (endTerm_blank _)

/-- A parenthesis closes at once. -/
theorem closing (h : Writes ps cs ts) :
    Writes (ps ++ [.mark .closing]) (cs ++ [')']) ts :=
  h.closed (last .closing fun _ => trivial) (endTerm_closing _)

end Writes
end Piece

open Piece (Writes)

/-! ## The pieces of a condition -/

namespace Condition

/-- Conditions have a property if the members of a joined one pass it on. -/
theorem induction_members {motive : Condition → Prop}
    (compare : ∀ sign left right, motive (.compare sign left right))
    (all : ∀ cs, (∀ c ∈ cs, motive c) → motive (.all cs))
    (any : ∀ cs, (∀ c ∈ cs, motive c) → motive (.any cs)) : ∀ c, motive c :=
  @Condition.rec motive (fun cs => ∀ c ∈ cs, motive c) compare all any nofun
    fun _ _ first others => List.forall_mem_cons.2 ⟨first, others⟩

/-- The pieces of a member of a joined condition, from those of the member: in parentheses unless it
is a comparison. -/
def memberPieces (ps : List Piece) : Condition → List Piece
  | .compare _ _ _ => ps
  | _ => .mark .opening :: ps ++ [.mark .closing]

mutual

/-- The pieces of a condition. -/
def pieces : Condition → List Piece
  | .compare sign left right =>
    [.term left, .mark .blank, .mark (.sign sign), .mark .blank, .term right]
  | .all members => chainPieces .and members
  | .any members => chainPieces .or members

/-- The pieces of members with a connective between them. -/
def chainPieces (j : Joint) : List Condition → List Piece
  | [] => []
  | [c] => c.memberPieces c.pieces
  | c :: cs =>
    c.memberPieces c.pieces ++
      .mark .blank :: .mark (.joint j) :: .mark .blank :: chainPieces j cs

end

/-- The pieces of a comparison write it. -/
theorem writes_compare (sign : Comparison) (left right : Term) :
    Writes (compare sign left right).pieces (compare sign left right).chars
      (compare sign left right).terms := by
  have relation : Writes (.mark (.sign sign) :: [.mark .blank, .term right]) _ _ :=
    (Writes.term right).blank.mark_mark rfl
  have whole := (Writes.term left).append relation.blank (Piece.endTerm_blank _)
  simpa [pieces, chars, terms, Mark.chars] using whole

section

variable {c : Condition} {cs : List Condition}

/-- The pieces of a member write it with its parentheses. -/
theorem writes_member (h : Writes c.pieces c.chars c.terms) :
    Writes (c.memberPieces c.pieces) (c.member c.chars) c.terms := by
  have paren := h.closing.mark .opening fun _ => trivial
  cases c with
  | compare => exact h
  | all => exact paren
  | any => exact paren

/-- The pieces of members write them with the connective between them. -/
theorem writes_chain (j : Joint) (h : ∀ c ∈ cs, Writes c.pieces c.chars c.terms) :
    Writes (chainPieces j cs) (memberChars j.word cs) (memberTerms cs) := by
  induction cs with
  | nil => exact .nil
  | cons c cs ih =>
    obtain ⟨first, others⟩ := List.forall_mem_cons.1 h
    cases cs with
    | nil =>
      rw [chainPieces, memberChars, memberTerms, memberTerms, List.append_nil]
      exact writes_member first
    | cons d cs =>
      have word : Writes (.mark .blank :: .mark (.joint j) :: .mark .blank :: chainPieces j (d :: cs))
          (j.word ++ memberChars j.word (d :: cs)) (memberTerms (d :: cs)) := by
        have joint := (ih others).blank.mark (.joint j) fun _ => trivial
        cases j <;> exact joint.blank
      have whole := (writes_member first).append word (Piece.endTerm_blank _)
      rw [chainPieces, memberChars_cons_cons, List.append_assoc, memberTerms]
      · exact whole
      · exact List.cons_ne_nil d cs

end

/-- **The pieces of a condition spell it and hold the terms that are listed for it.** -/
theorem writes (c : Condition) : Writes c.pieces c.chars c.terms := by
  induction c using induction_members with
  | compare sign left right => exact writes_compare sign left right
  | all cs h => exact writes_chain .and h
  | any cs h => exact writes_chain .or h

end Condition

/-! ## The pieces of a pattern -/

/-- The pieces of a triple. -/
def Triple.pieces (t : Triple) : List Piece :=
  [.term t.subject, .mark .blank, .term t.predicate, .mark .blank, .term t.object, .mark .blank,
    .mark .stop]

/-- The pieces of a triple write it. -/
theorem Triple.writes (t : Triple) : Writes t.pieces t.chars t.terms := by
  have stop := Writes.last .stop fun _ => trivial
  have object := (Writes.term t.object).closed stop.blank (Piece.endTerm_blank _)
  have predicate := (Writes.term t.predicate).append object.blank (Piece.endTerm_blank _)
  have whole := (Writes.term t.subject).append predicate.blank (Piece.endTerm_blank _)
  simpa [pieces, chars, terms, Mark.chars] using whole

namespace Pattern

/-- Patterns have a property if the members of a group or a union pass it on. -/
theorem induction_members {motive : Pattern → Prop} (basic : ∀ ts, motive (.basic ts))
    (filter : ∀ c, motive (.filter c)) (group : ∀ ps, (∀ p ∈ ps, motive p) → motive (.group ps))
    (union : ∀ ps, (∀ p ∈ ps, motive p) → motive (.union ps)) : ∀ p, motive p :=
  @Pattern.rec motive (fun ps => ∀ p ∈ ps, motive p) basic filter group union nofun
    fun _ _ first others => List.forall_mem_cons.2 ⟨first, others⟩

/-- The pieces of triples, with a blank between them. -/
def triplePieces : List Triple → List Piece
  | [] => []
  | [t] => t.pieces
  | t :: ts => t.pieces ++ .mark .blank :: triplePieces ts

/-- The pieces of an alternative, from those of the pattern: in braces unless it is a group. -/
def blockPieces (ps : List Piece) : Pattern → List Piece
  | .group _ => ps
  | _ => .mark .openingBrace :: .mark .blank :: ps ++ [.mark .blank, .mark .closingBrace]

mutual

/-- The pieces of a pattern. -/
def pieces : Pattern → List Piece
  | .basic triples => triplePieces triples
  | .filter condition => .mark .filter :: .mark .opening :: condition.pieces ++ [.mark .closing]
  | .group members =>
    .mark .openingBrace :: memberPieces members ++ [.mark .blank, .mark .closingBrace]
  | .union members => alternativePieces members

/-- The pieces of the members of a group, with a blank before each. -/
def memberPieces : List Pattern → List Piece
  | [] => []
  | p :: ps => .mark .blank :: p.pieces ++ memberPieces ps

/-- The pieces of the alternatives of a union. -/
def alternativePieces : List Pattern → List Piece
  | [] => []
  | [p] => p.blockPieces p.pieces
  | p :: ps =>
    p.blockPieces p.pieces ++
      .mark .blank :: .mark .union :: .mark .blank :: alternativePieces ps

end

/-- The pieces of triples write them. -/
theorem writes_triples (ts : List Triple) :
    Writes (triplePieces ts) (tripleChars ts) (ts.flatMap Triple.terms) := by
  induction ts with
  | nil => exact .nil
  | cons t ts ih =>
    cases ts with
    | nil =>
      rw [triplePieces, tripleChars, List.flatMap_singleton]
      exact t.writes
    | cons u ts =>
      have whole := t.writes.append ih.blank (Piece.endTerm_blank _)
      rw [triplePieces, tripleChars, List.flatMap_cons]
      · exact whole
      · exact List.cons_ne_nil u ts
      · exact List.cons_ne_nil u ts

/-- The pieces of a filter write it. -/
theorem writes_filter (c : Condition) :
    Writes (filter c).pieces (filter c).chars (filter c).terms := by
  have paren := c.writes.closing.mark .opening fun _ => trivial
  exact paren.mark_mark rfl

section

variable {p : Pattern} {ps : List Pattern}

/-- The pieces of an alternative write it with its braces. -/
theorem writes_block (h : Writes p.pieces p.chars p.terms) :
    Writes (p.blockPieces p.pieces) (p.alternative p.chars) p.terms := by
  have braces := h.closingBrace.blank.mark .openingBrace fun _ => trivial
  cases p with
  | group => exact h
  | basic => exact braces
  | filter => exact braces
  | union => exact braces

/-- A term may end before the members of a group, each of which has a blank before it. -/
theorem endTerm_memberPieces (ps : List Pattern) : Piece.EndTerm (memberPieces ps) := by
  cases ps with
  | nil => nofun
  | cons p ps => exact Piece.endTerm_blank _

/-- The pieces of the members of a group write them. -/
theorem writes_members (h : ∀ p ∈ ps, Writes p.pieces p.chars p.terms) :
    Writes (memberPieces ps) (memberChars ps) (memberTerms ps) := by
  induction ps with
  | nil => exact .nil
  | cons p ps ih =>
    obtain ⟨first, others⟩ := List.forall_mem_cons.1 h
    exact (first.append (ih others) (endTerm_memberPieces ps)).blank

/-- The pieces of a group write it if those of its members do. -/
theorem writes_group (h : ∀ p ∈ ps, Writes p.pieces p.chars p.terms) :
    Writes (group ps).pieces (group ps).chars (group ps).terms :=
  (writes_members h).closingBrace.mark .openingBrace fun _ => trivial

/-- The pieces of a union write it if those of its alternatives do. -/
theorem writes_union (h : ∀ p ∈ ps, Writes p.pieces p.chars p.terms) :
    Writes (union ps).pieces (union ps).chars (union ps).terms := by
  -- The union is opened first, so that the induction is on its alternatives.
  rw [pieces, chars, terms]
  induction ps with
  | nil => exact .nil
  | cons p ps ih =>
    obtain ⟨first, others⟩ := List.forall_mem_cons.1 h
    cases ps with
    | nil =>
      rw [alternativePieces, alternativeChars, memberTerms, memberTerms, List.append_nil]
      exact writes_block first
    | cons q ps =>
      have word : Writes (.mark .union :: .mark .blank :: alternativePieces (q :: ps)) _ _ :=
        (ih others).blank.mark_mark rfl
      have whole := (writes_block first).append word.blank (Piece.endTerm_blank _)
      rw [alternativePieces, alternativeChars, List.append_assoc, memberTerms]
      · exact whole
      · exact List.cons_ne_nil q ps
      · exact List.cons_ne_nil q ps

end

/-- **The pieces of a pattern spell it and hold the terms that are listed for it.** -/
theorem writes (p : Pattern) : Writes p.pieces p.chars p.terms := by
  induction p using induction_members with
  | basic ts => exact writes_triples ts
  | filter c => exact writes_filter c
  | group ps h => exact writes_group h
  | union ps h => exact writes_union h

/-! ## The text of a pattern -/

/-- The pieces of a pattern may stand side by side. -/
theorem isChain_pieces (p : Pattern) : p.pieces.IsChain Piece.Precedes := by
  have chain := p.writes.chain (nofun : Piece.EndTerm []) .nil
  rwa [List.append_nil] at chain

/-- **A written pattern is split into its pieces exactly if its variables are named.** -/
theorem splits_pieces_iff (p : Pattern) :
    Piece.Splits p.chars p.pieces ↔ ∀ v, .variable v ∈ p.terms → v.IsNamed := by
  rw [← p.writes.terms, ← p.writes.chars]
  exact ⟨Piece.Splits.isNamed, fun named => Piece.splits_spell named p.isChain_pieces⟩

/-- The listed named nodes are the pieces that are one. -/
theorem mem_iris_iff {p : Pattern} {i : Iri} : i ∈ p.iris ↔ .term (.iri i) ∈ p.pieces := by
  rw [← Piece.mem_terms, p.writes.terms, iris, List.mem_filterMap]
  constructor
  · rintro ⟨t, mem, h⟩
    match t, h with
    | .iri j, h => rwa [← Option.some.inj h]
  · intro mem
    exact ⟨.iri i, mem, rfl⟩

/-- A pattern mentions the named nodes among its pieces. -/
theorem mentions_iff (p : Pattern) (text : String) :
    p.mentions text = true ↔ ∃ i, .term (.iri i) ∈ p.pieces ∧ i.text = text := by
  simp only [mentions, List.any_eq_true, decide_eq_true_eq, mem_iris_iff]

/-- **The terms that are listed are those that are written.**  The text of a pattern consists of its
listed terms, with marks before, between and behind them.  It is what the pieces of the pattern
spell; the named nodes and the literals that are listed are those among the pieces, in their order
and as often, and a text is mentioned exactly if it is that of a named node among the pieces.  And
the pieces are what the text shows: it is split into them, and into no others, exactly if all
variables are named. -/
theorem text_interleaves_terms (p : Pattern) :
    (∃ (front : List Mark) (rest : List (Term × List Mark)), rest.map Prod.fst = p.terms ∧
        p.text = String.ofList (Mark.spell front ++
          rest.flatMap fun (t, marks) => t.chars ++ Mark.spell marks)) ∧
      (p.text = String.ofList (Piece.spell p.pieces) ∧
        p.iris = (Piece.terms p.pieces).filterMap Term.asIri? ∧
        p.literals = (Piece.terms p.pieces).filterMap Term.asLiteral? ∧
        ∀ text, p.mentions text = true ↔ ∃ i, .term (.iri i) ∈ p.pieces ∧ i.text = text) ∧
      ((∀ ps, Piece.Splits p.text.toList ps ↔ ps = p.pieces) ↔
        ∀ v, .variable v ∈ p.terms → v.IsNamed) := by
  have listed : Piece.terms p.pieces = p.terms := p.writes.terms
  have written : p.text = String.ofList (Piece.spell p.pieces) := by rw [p.writes.chars, text]
  refine ⟨?_, ⟨written, by rw [listed, iris], by rw [listed, literals], p.mentions_iff⟩, ?_⟩
  · obtain ⟨front, rest, terms, spelled⟩ := Piece.exists_interleaved p.pieces
    exact ⟨front, rest, terms.trans listed, by rw [written, spelled]⟩
  · rw [← p.splits_pieces_iff, text, String.toList_ofList]
    constructor
    · intro only
      exact (only p.pieces).2 rfl
    · intro split ps
      refine ⟨fun other => other.unique split, ?_⟩
      rintro rfl
      exact split

/-- A pattern with parts that look like others: an IRI with the characters of three marks, a group
and a connective without members, and a literal that holds a word and a parenthesis. -/
def disguised : Pattern :=
  .group [.union [.basic [⟨.variable ⟨"it"⟩, .iri ⟨".", by decide +kernel⟩, .variable ⟨"date"⟩⟩],
      .group []],
    .filter (.any [.all [], .compare .le (.variable ⟨"date"⟩) (.literal ⟨") UNION", .dateTime⟩)])]

/-- The statement of `text_interleaves_terms` at `disguised`, whose variables are named. -/
theorem text_interleaves_terms_disguised :
    disguised.text = "\x7b \x7b ?it <.> ?date . \x7d UNION \x7b \x7d FILTER(() || ?date <= " ++
      "\") UNION\"^^<http://www.w3.org/2001/XMLSchema#dateTime>) \x7d" ∧
    "<.>".toList = Mark.spell [.sign .lt, .stop, .sign .gt] ∧
    disguised.mentions "." = true ∧
      ∀ ps, Piece.Splits disguised.text.toList ps ↔ ps = disguised.pieces := by
  obtain ⟨-, ⟨-, -, -, mentions⟩, splits⟩ := text_interleaves_terms disguised
  have named : ∀ v, .variable v ∈ disguised.terms → v.IsNamed := by
    intro v mem
    simp only [disguised, terms, memberTerms, Condition.terms, Condition.memberTerms, Triple.terms,
      List.flatMap_cons, List.flatMap_nil, List.cons_append, List.nil_append, List.append_nil,
      List.mem_cons, List.not_mem_nil, or_false, Term.variable.injEq, reduceCtorEq, false_or] at mem
    rcases mem with rfl | rfl | rfl <;> decide +kernel
  have dot : .term (.iri ⟨".", by decide +kernel⟩) ∈ disguised.pieces := by decide +kernel
  exact ⟨by decide +kernel, by decide +kernel, (mentions ".").2 ⟨_, dot, rfl⟩, splits.2 named⟩

end Pattern
end Sparql
end DateFacet
