/-
# Filters under the precedence of the connectives

A query is read without knowing how it was written.  Its text is split into tokens, of which a term
is one, whatever it holds; white space may stand between them.  Then the tokens are put together by
a grammar in which each part binds tighter than those below it:

| part | made of |
| --- | --- |
| primary | a term, or a disjunction in parentheses |
| relation | a primary, or two of them with a comparison sign between |
| conjunction | relations with `&&` between them |
| disjunction | conjunctions with `||` between them |

`Tree` has one type for each part, so a tree that goes against the precedence cannot be built.  The
operands of a comparison may be disjunctions in parentheses, and a term may stand where a truth
value is meant; neither is a condition, but the grammar has them, so another reading could use them.

There is no other reading.  Read from the right, a part starts where the token before it would not
belong to it (`Tree.tokens_inj`), and the written condition is read as a tree that is true whenever
the condition is (`Condition.exists_reading_eval`).
-/

import DateFacet.Proofs.ConditionReading
import Mathlib.Data.Option.NAry

namespace DateFacet
namespace Sparql

/-! ## Tokens -/

/-- A connective between conditions. -/
inductive Joint
  | and
  | or
  deriving DecidableEq

/-- The least parts of a written condition. -/
inductive Token
  | term (t : Term)
  | sign (s : Comparison)
  | joint (j : Joint)
  | opening
  | closing
  deriving DecidableEq

namespace Token

/-- The token in front, and what follows it.  A term goes before a comparison sign, for an IRI
starts with one. -/
def scan : List Char → Option (Token × List Char)
  | '&' :: '&' :: rest => some (.joint .and, rest)
  | '|' :: '|' :: rest => some (.joint .or, rest)
  | '(' :: rest => some (.opening, rest)
  | ')' :: rest => some (.closing, rest)
  | cs =>
    match Term.scan cs with
    | some (t, rest) => some (.term t, rest)
    | none => (Comparison.scan cs).map fun (s, rest) => (.sign s, rest)

/-- White space between tokens. -/
def isSpace (c : Char) : Bool := c = ' ' || c = '\t' || c = '\r' || c = '\n'

/-- Characters are these tokens in this order, with white space between them and around them. -/
inductive Splits : List Char → List Token → Prop
  | nil : Splits [] []
  | space {c : Char} {cs : List Char} {ts : List Token} (h : isSpace c = true)
    (rest : Splits cs ts) : Splits (c :: cs) ts
  | token {t : Token} {cs others : List Char} {ts : List Token} (h : scan cs = some (t, others))
    (rest : Splits others ts) : Splits cs (t :: ts)

/-- No token starts with white space. -/
theorem scan_space {c : Char} (h : isSpace c = true) (cs : List Char) : scan (c :: cs) = none := by
  simp only [isSpace, Bool.or_eq_true, decide_eq_true_eq] at h
  rcases h with ((rfl | rfl) | rfl) | rfl <;> rfl

/-- **Characters are split into tokens in one way.** -/
theorem Splits.unique {cs : List Char} {ts us : List Token} (h : Splits cs ts) (h' : Splits cs us) :
    ts = us := by
  induction h generalizing us with
  | nil =>
    cases h' with
    | nil => rfl
    | token found => cases found
  | space blank _ ih =>
    cases h' with
    | space _ rest => exact ih rest
    | token found =>
      rw [scan_space blank] at found
      cases found
  | token found _ ih =>
    cases h' with
    | nil => cases found
    | space blank =>
      rw [scan_space blank] at found
      cases found
    | token other rest =>
      rw [found] at other
      cases other
      rw [ih rest]

/-- A term in front is the token in front. -/
theorem scan_of_term {t : Term} {cs rest : List Char} (h : Term.scan cs = some (t, rest)) :
    scan cs = some (.term t, rest) := by
  unfold scan
  -- No term starts with a connective or a parenthesis.
  split
  · cases h
  · cases h
  · cases h
  · cases h
  · rw [h]

end Token

/-- Characters with a blank among them are no IRI. -/
theorem Iri.ofChars?_of_blank {cs : List Char} (h : ' ' ∈ cs) : ofChars? cs = none := by
  rw [ofChars?, dif_neg]
  rw [String.toList_ofList, isLegal_iff]
  rintro ⟨-, notForbidden⟩
  exact absurd (notForbidden ' ' h) (by decide)

/-- A comparison sign is a token, although an IRI may start with the same character: the blank
behind the sign would belong to it. -/
theorem Token.scan_sign (s : Comparison) (rest : List Char) :
    scan (s.chars ++ ' ' :: rest) = some (.sign s, ' ' :: rest) := by
  have noIri : ∀ cs : List Char, ' ' ∈ cs.takeWhile (· ≠ '>') → Term.scan ('<' :: cs) = none := by
    intro cs blank
    have none := Iri.ofChars?_of_blank blank
    rw [Term.scan, Iri.scan]
    · split
      · rw [none]; rfl
      · rfl
    all_goals simp
  cases s with
  | lt =>
    have noTerm := noIri (' ' :: rest) (by simp)
    simp [Comparison.chars, scan, noTerm, Comparison.scan]
  | le =>
    have noTerm := noIri ('=' :: ' ' :: rest) (by simp)
    simp [Comparison.chars, scan, noTerm, Comparison.scan]
  | eq => rfl
  | ge => rfl
  | gt => rfl

/-! ## The grammar -/

/-- The parts of the grammar, each of which binds tighter than the next one. -/
inductive Level
  | primary
  | relation
  | chain (j : Joint)

/-- What a connective joins. -/
def Joint.below : Joint → Level
  | .and => .relation
  | .or => .chain .and

/-- The truth of two joined conditions. -/
def Joint.combine : Joint → Bool → Bool → Bool
  | .and => Bool.and
  | .or => Bool.or

/-- What a text may be read as. -/
inductive Tree : Level → Type
  | term (t : Term) : Tree .primary
  | group (inner : Tree (.chain .or)) : Tree .primary
  | value (only : Tree .primary) : Tree .relation
  | compare (sign : Comparison) (left right : Tree .primary) : Tree .relation
  | single {j : Joint} (only : Tree j.below) : Tree (.chain j)
  | joined {j : Joint} (front : Tree (.chain j)) (last : Tree j.below) : Tree (.chain j)

namespace Tree

/-- The tokens of a tree. -/
def tokens {l : Level} : Tree l → List Token
  | .term t => [.term t]
  | .group inner => .opening :: inner.tokens ++ [.closing]
  | .value only => only.tokens
  | .compare sign left right => left.tokens ++ .sign sign :: right.tokens
  | .single only => only.tokens
  | @joined j front last => front.tokens ++ .joint j :: last.tokens

/-- The term, if a primary is one. -/
def term? {l : Level} : Tree l → Option Term
  | .term t => some t
  | _ => none

/-- The truth of a tree from the truth of comparisons between terms.  A tree with another
comparison, or with a term for a truth value, has none. -/
def truth? (truth : Comparison → Term → Term → Bool) {l : Level} : Tree l → Option Bool
  | .term _ => none
  | .group inner => inner.truth? truth
  | .value only => only.truth? truth
  | .compare sign left right => Option.map₂ (truth sign) left.term? right.term?
  | .single only => only.truth? truth
  | @joined j front last => Option.map₂ j.combine (front.truth? truth) (last.truth? truth)

/-- The tree is a reading of the whole text. -/
def Reads (tree : Tree (.chain .or)) (text : String) : Prop := Token.Splits text.toList tree.tokens

end Tree

/-! ## One tree for the same tokens -/

/-- The token would make a part of this level longer at its front. -/
def Level.takes : Level → Token → Bool
  | .relation, .sign _ => true
  | .chain _, .sign _ => true
  | .chain .and, .joint .and => true
  | .chain .or, .joint _ => true
  | _, _ => false

/-- A part of this level may start behind these tokens. -/
def Level.StartsAfter (l : Level) (before : List Token) : Prop :=
  ∀ t ∈ before.getLast?, l.takes t = false

/-- A term or a part in parentheses may start behind any tokens. -/
theorem Level.startsAfter_primary (before : List Token) : Level.primary.StartsAfter before :=
  fun _ _ => rfl

/-- Only the last of the tokens before a part matters to it. -/
theorem Level.startsAfter_concat {l : Level} {before : List Token} {t : Token} :
    l.StartsAfter (before ++ [t]) ↔ l.takes t = false := by
  simp [StartsAfter]

/-- A chain takes what its members take. -/
theorem Level.StartsAfter.below {j : Joint} {before : List Token}
    (h : (Level.chain j).StartsAfter before) : j.below.StartsAfter before := by
  intro t mem
  have free := h t mem
  cases j <;> cases t <;> simp_all [takes, Joint.below]

/-- A chain takes its own connective. -/
theorem Joint.takes_chain (j : Joint) : (Level.chain j).takes (.joint j) = true := by
  cases j <;> rfl

/-- The members of a chain do not take its connective. -/
theorem Joint.takes_below (j : Joint) : j.below.takes (.joint j) = false := by
  cases j <;> rfl

namespace Tree

/-! The tokens of a tree behind others, with its last part apart. -/

section

variable (before : List Token)

/-- The tokens of a part in parentheses end with the closing one. -/
theorem append_tokens_group (inner : Tree (.chain .or)) :
    before ++ (group inner).tokens = before ++ [.opening] ++ inner.tokens ++ [.closing] := by
  simp [tokens]

/-- The tokens of a comparison end with those of its right side. -/
theorem append_tokens_compare (s : Comparison) (left right : Tree .primary) :
    before ++ (compare s left right).tokens =
      before ++ left.tokens ++ [.sign s] ++ right.tokens := by
  simp [tokens]

/-- The tokens of a joined part end with those of its last member. -/
theorem append_tokens_joined {j : Joint} (front : Tree (.chain j)) (last : Tree j.below) :
    before ++ (joined front last).tokens =
      before ++ front.tokens ++ [.joint j] ++ last.tokens := by
  simp [tokens]

end

/-- **Trees of one level with the same tokens are the same**, and they start at the same place. -/
theorem tokens_inj {l : Level} (a b : Tree l) {before before' : List Token}
    (same : before ++ a.tokens = before' ++ b.tokens) (h : l.StartsAfter before)
    (h' : l.StartsAfter before') : before = before' ∧ a = b := by
  -- The last parts are compared first.  If one tree has a token before its last part, then the
  -- other one would start behind this token.
  induction a generalizing before before' with
  | term t =>
    cases b with
    | term u =>
      obtain ⟨rfl, eq⟩ := List.append_inj' same rfl
      cases eq
      exact ⟨rfl, rfl⟩
    | group b =>
      rw [append_tokens_group] at same
      cases (List.append_inj' same rfl).2
  | group a ih =>
    rw [append_tokens_group] at same
    cases b with
    | term u => cases (List.append_inj' same rfl).2
    | group b =>
      rw [append_tokens_group] at same
      obtain ⟨start, rfl⟩ := ih b (List.append_cancel_right same)
        (Level.startsAfter_concat.2 rfl) (Level.startsAfter_concat.2 rfl)
      exact ⟨List.append_cancel_right start, rfl⟩
  | value a ih =>
    cases b with
    | value b =>
      obtain ⟨start, rfl⟩ := ih b same (Level.startsAfter_primary _) (Level.startsAfter_primary _)
      exact ⟨start, rfl⟩
    | compare s left right =>
      rw [append_tokens_compare] at same
      obtain ⟨rfl, -⟩ := ih right same (Level.startsAfter_primary _) (Level.startsAfter_primary _)
      cases Level.startsAfter_concat.1 h
  | compare s left right ihLeft ihRight =>
    rw [append_tokens_compare] at same
    cases b with
    | value b =>
      obtain ⟨rfl, -⟩ := ihRight b same (Level.startsAfter_primary _) (Level.startsAfter_primary _)
      cases Level.startsAfter_concat.1 h'
    | compare s' left' right' =>
      rw [append_tokens_compare] at same
      obtain ⟨beforeRight, rfl⟩ :=
        ihRight right' same (Level.startsAfter_primary _) (Level.startsAfter_primary _)
      obtain ⟨beforeSign, sign⟩ := List.append_inj' beforeRight rfl
      cases sign
      obtain ⟨start, rfl⟩ :=
        ihLeft left' beforeSign (Level.startsAfter_primary _) (Level.startsAfter_primary _)
      exact ⟨start, rfl⟩
  | @single j a ih =>
    cases b with
    | single b =>
      obtain ⟨start, rfl⟩ := ih b same h.below h'.below
      exact ⟨start, rfl⟩
    | joined front last =>
      rw [append_tokens_joined] at same
      obtain ⟨rfl, -⟩ := ih last same h.below (Level.startsAfter_concat.2 j.takes_below)
      rw [Level.startsAfter_concat, j.takes_chain] at h
      cases h
  | @joined j front last ihFront ihLast =>
    rw [append_tokens_joined] at same
    cases b with
    | single b =>
      obtain ⟨rfl, -⟩ := ihLast b same (Level.startsAfter_concat.2 j.takes_below) h'.below
      rw [Level.startsAfter_concat, j.takes_chain] at h'
      cases h'
    | joined front' last' =>
      rw [append_tokens_joined] at same
      obtain ⟨beforeLast, rfl⟩ := ihLast last' same (Level.startsAfter_concat.2 j.takes_below)
        (Level.startsAfter_concat.2 j.takes_below)
      obtain ⟨start, rfl⟩ := ihFront front' (List.append_cancel_right beforeLast) h h'
      exact ⟨start, rfl⟩

/-- **A text has at most one reading.** -/
theorem Reads.unique {a b : Tree (.chain .or)} {text : String} (ha : a.Reads text)
    (hb : b.Reads text) : a = b := by
  have same : [] ++ a.tokens = [] ++ b.tokens := Token.Splits.unique ha hb
  exact (tokens_inj a b same nofun nofun).2

end Tree

/-! ## The tokens of a written condition -/

/-- The written connective. -/
def Joint.word : Joint → List Char
  | .and => Condition.andWord
  | .or => Condition.orWord

namespace Token.Splits

variable {cs rest : List Char} {ts : List Token}

/-- A blank in front changes no tokens. -/
theorem blank (h : Splits cs ts) : Splits (' ' :: cs) ts := .space rfl h

/-- A written term is one token, in front of anything that ends it. -/
theorem term {t : Term} (named : ∀ v, t = .variable v → v.IsNamed) (ends : EndsTerm rest)
    (h : Splits rest ts) : Splits (t.chars ++ rest) (.term t :: ts) :=
  .token (scan_of_term (Term.scan_chars named ends)) h

/-- A written sign with a blank behind it is one token. -/
theorem sign (s : Comparison) (h : Splits rest ts) :
    Splits (s.chars ++ ' ' :: rest) (.sign s :: ts) :=
  .token (scan_sign s rest) h.blank

/-- A written connective with its blanks is one token. -/
theorem word (j : Joint) (h : Splits rest ts) : Splits (j.word ++ rest) (.joint j :: ts) := by
  cases j <;> exact (token rfl h.blank).blank

end Token.Splits

namespace Condition

open Token (Splits)

/-- The tokens of a member of a joined condition, from those of the member. -/
def memberTokens (ts : List Token) : Condition → List Token
  | .compare _ _ _ => ts
  | _ => .opening :: ts ++ [.closing]

mutual

/-- The tokens of a condition. -/
def tokens : Condition → List Token
  | .compare sign left right => [.term left, .sign sign, .term right]
  | .all members => chainTokens .and members
  | .any members => chainTokens .or members

/-- The tokens of members with a connective between them. -/
def chainTokens (j : Joint) : List Condition → List Token
  | [] => []
  | [c] => c.memberTokens c.tokens
  | c :: cs => c.memberTokens c.tokens ++ .joint j :: chainTokens j cs

end

/-- The written condition is split into its tokens, in front of anything that may follow a term. -/
def IsSplit (c : Condition) : Prop :=
  ∀ {rest : List Char} {ts : List Token}, EndsTerm rest → Splits rest ts →
    Splits (c.chars ++ rest) (c.tokens ++ ts)

section

variable {c : Condition} {cs : List Condition} {rest : List Char} {ts : List Token}

/-- A member is split with the parentheses around it. -/
theorem IsSplit.member (h : c.IsSplit) (ends : EndsTerm rest) (others : Splits rest ts) :
    Splits (c.member c.chars ++ rest) (c.memberTokens c.tokens ++ ts) := by
  have paren : Splits ('(' :: c.chars ++ [')'] ++ rest)
      (.opening :: c.tokens ++ [.closing] ++ ts) := by
    have inner := h (ends_paren rest).endsTerm (.token rfl others : Splits (')' :: rest) _)
    simpa using Splits.token rfl inner
  cases c with
  | compare => exact h ends others
  | all => exact paren
  | any => exact paren

/-- Members with a connective between them are split one by one. -/
theorem splits_memberChars (j : Joint) (h : ∀ c ∈ cs, c.IsSplit) (ends : EndsTerm rest)
    (others : Splits rest ts) :
    Splits (memberChars j.word cs ++ rest) (chainTokens j cs ++ ts) := by
  induction cs with
  | nil => exact others
  | cons c cs ih =>
    obtain ⟨first, more⟩ := List.forall_mem_cons.1 h
    cases cs with
    | nil => exact first.member ends others
    | cons d cs =>
      have word : EndsTerm (j.word ++ (memberChars j.word (d :: cs) ++ rest)) := by
        cases j <;> exact endsTerm_blank _
      have split := first.member word ((ih more).word j)
      rw [memberChars_cons_cons, chainTokens]
      · simpa using split
      · nofun

/-- A comparison is split into its two terms and its sign. -/
theorem isSplit_compare {sign : Comparison} {left right : Term}
    (named : ∀ v, .variable v ∈ (compare sign left right).terms → v.IsNamed) :
    (compare sign left right).IsSplit := by
  intro rest ts ends others
  have hleft : ∀ v, left = .variable v → v.IsNamed := by
    rintro v rfl
    exact named v (by simp [terms])
  have hright : ∀ v, right = .variable v → v.IsNamed := by
    rintro v rfl
    exact named v (by simp [terms])
  have last := Splits.sign sign (.term hright ends others)
  have split := Splits.term hleft (endsTerm_blank _) last.blank
  simpa [chars, tokens] using split

end

mutual

/-- **A written condition is split into its tokens**, whatever its literals hold. -/
theorem isSplit : ∀ c : Condition, (∀ v, .variable v ∈ c.terms → v.IsNamed) → c.IsSplit
  | .compare _ _ _, h => isSplit_compare h
  | .all cs, h => splits_memberChars .and (membersSplit cs h)
  | .any cs, h => splits_memberChars .or (membersSplit cs h)

/-- Every member of a list of conditions with named variables is split. -/
theorem membersSplit : ∀ cs : List Condition, (∀ v, .variable v ∈ memberTerms cs → v.IsNamed) →
    ∀ c ∈ cs, c.IsSplit
  | [], _ => fun _ mem => nomatch mem
  | c :: cs, h => by
      rw [memberTerms] at h
      exact List.forall_mem_cons.2 ⟨isSplit c fun v mem => h v (List.mem_append_left _ mem),
        membersSplit cs fun v mem => h v (List.mem_append_right _ mem)⟩

end

end Condition

/-! ## The tree of a written condition -/

/-- A tree has these tokens and this truth. -/
structure Tree.Means {l : Level} (tree : Tree l) (ts : List Token)
    (f : (Comparison → Term → Term → Bool) → Bool) : Prop where
  tokens : tree.tokens = ts
  truth : ∀ truth, tree.truth? truth = some (f truth)

namespace Tree.Means

variable {ts us : List Token} {f g : (Comparison → Term → Term → Bool) → Bool} {j : Joint}

/-- Parentheses around a tree change its tokens and not its truth. -/
theorem group {tree : Tree (.chain .or)} (h : tree.Means ts f) :
    (Tree.group tree).Means (.opening :: ts ++ [.closing]) f :=
  ⟨by rw [Tree.tokens, h.tokens], h.truth⟩

/-- What stands alone for a relation keeps its tokens and its truth. -/
theorem value {tree : Tree .primary} (h : tree.Means ts f) : (Tree.value tree).Means ts f :=
  ⟨h.tokens, h.truth⟩

/-- What stands alone in a chain keeps its tokens and its truth. -/
theorem single {tree : Tree j.below} (h : tree.Means ts f) : (Tree.single tree).Means ts f :=
  ⟨h.tokens, h.truth⟩

/-- A tree with one more member has the tokens of both and the connective of their truths. -/
theorem joined {front : Tree (.chain j)} {last : Tree j.below} (h : front.Means ts f)
    (h' : last.Means us g) : (Tree.joined front last).Means (ts ++ .joint j :: us)
      fun truth => j.combine (f truth) (g truth) :=
  ⟨by rw [Tree.tokens, h.tokens, h'.tokens], fun truth => by rw [truth?, h.truth, h'.truth]; rfl⟩

end Tree.Means

namespace Condition

/-- The condition can be read as a relation, where it is a member of another one. -/
def HasRelation (c : Condition) : Prop :=
  ∃ tree : Tree .relation, tree.Means (c.memberTokens c.tokens) fun truth => c.eval truth

/-- The truth of conditions that are joined by a connective. -/
def evalChain (truth : Comparison → Term → Term → Bool) : Joint → List Condition → Bool
  | .and => evalAll truth
  | .or => evalAny truth

section

variable {c : Condition} {cs : List Condition} {j : Joint}

/-- A relation stands wherever a member of a chain may. -/
theorem HasRelation.below (h : c.HasRelation) (j : Joint) :
    ∃ tree : Tree j.below, tree.Means (c.memberTokens c.tokens) fun truth => c.eval truth := by
  cases j with
  | and => exact h
  | or =>
    obtain ⟨tree, means⟩ := h
    exact ⟨.single tree, means.single⟩

/-- Each member after the first has the connective before it. -/
theorem chainTokens_cons (j : Joint) (c : Condition) (cs : List Condition) :
    chainTokens j (c :: cs) =
      c.memberTokens c.tokens ++ cs.flatMap fun d => .joint j :: d.memberTokens d.tokens := by
  induction cs generalizing c with
  | nil => simp [chainTokens]
  | cons d cs ih =>
    rw [chainTokens, ih, List.flatMap_cons, List.cons_append]
    nofun

/-- Members are joined from the left. -/
theorem foldl_combine (truth : Comparison → Term → Term → Bool) (b : Bool) :
    cs.foldl (fun b c => j.combine b (c.eval truth)) b = j.combine b (evalChain truth j cs) := by
  induction cs generalizing b with
  | nil => cases j <;> simp [evalChain, evalAll, evalAny, Joint.combine]
  | cons c cs ih =>
    rw [List.foldl_cons, ih]
    cases j
    · exact Bool.and_assoc _ _ _
    · exact Bool.or_assoc _ _ _

/-- More members make a chain longer. -/
theorem exists_chain {front : Tree (.chain j)} {ts : List Token}
    {f : (Comparison → Term → Term → Bool) → Bool} (h : front.Means ts f)
    (members : ∀ c ∈ cs, c.HasRelation) :
    ∃ tree : Tree (.chain j),
      tree.Means (ts ++ cs.flatMap fun c => .joint j :: c.memberTokens c.tokens) fun truth =>
        cs.foldl (fun b c => j.combine b (c.eval truth)) (f truth) := by
  induction cs generalizing front ts f with
  | nil => exact ⟨front, by simpa using h⟩
  | cons c cs ih =>
    obtain ⟨first, others⟩ := List.forall_mem_cons.1 members
    obtain ⟨last, means⟩ := first.below j
    obtain ⟨tree, longer⟩ := ih (h.joined means) others
    exact ⟨tree, by simpa using longer⟩

/-- Members that are relations make a chain with the truth of the joined condition. -/
theorem exists_chain_of_members (j : Joint) (ne : cs ≠ []) (members : ∀ c ∈ cs, c.HasRelation) :
    ∃ tree : Tree (.chain j), tree.Means (chainTokens j cs) fun truth => evalChain truth j cs := by
  obtain ⟨c, cs, rfl⟩ := List.exists_cons_of_ne_nil ne
  obtain ⟨first, others⟩ := List.forall_mem_cons.1 members
  obtain ⟨only, means⟩ := first.below j
  obtain ⟨tree, longer⟩ := exists_chain means.single others
  refine ⟨tree, by rw [chainTokens_cons]; exact longer.tokens, fun truth => ?_⟩
  rw [longer.truth, foldl_combine]
  cases j <;> rfl

/-- Members of a connective are read as a disjunction if each of them is read as a relation. -/
theorem exists_tree_all (full : (all cs).isFull = true) (members : ∀ c ∈ cs, c.HasRelation) :
    ∃ tree : Tree (.chain .or), tree.Means (all cs).tokens fun truth => (all cs).eval truth := by
  have ne : cs ≠ [] := by simpa using (Bool.and_eq_true_iff.1 full).1
  obtain ⟨tree, means⟩ := exists_chain_of_members .and ne members
  exact ⟨.single tree, means.single⟩

/-- A disjunction has a tree if its members are relations. -/
theorem exists_tree_any (full : (any cs).isFull = true) (members : ∀ c ∈ cs, c.HasRelation) :
    ∃ tree : Tree (.chain .or), tree.Means (any cs).tokens fun truth => (any cs).eval truth := by
  have ne : cs ≠ [] := by simpa using (Bool.and_eq_true_iff.1 full).1
  exact exists_chain_of_members .or ne members

end

mutual

/-- **A condition is read as a relation**, in parentheses if it is no comparison. -/
theorem hasRelation : ∀ c : Condition, c.isFull = true → c.HasRelation
  | .compare sign left right, _ => ⟨.compare sign (.term left) (.term right), rfl, fun _ => rfl⟩
  | .all cs, h => by
      obtain ⟨tree, means⟩ :=
        exists_tree_all h (membersHaveRelations cs (Bool.and_eq_true_iff.1 h).2)
      exact ⟨.value (.group tree), means.group.value⟩
  | .any cs, h => by
      obtain ⟨tree, means⟩ :=
        exists_tree_any h (membersHaveRelations cs (Bool.and_eq_true_iff.1 h).2)
      exact ⟨.value (.group tree), means.group.value⟩

/-- Every member of a list of full conditions is a relation. -/
theorem membersHaveRelations : ∀ cs : List Condition, membersFull cs = true →
    ∀ c ∈ cs, c.HasRelation
  | [], _ => fun _ mem => nomatch mem
  | c :: cs, h => by
      obtain ⟨first, others⟩ := Bool.and_eq_true_iff.1 h
      exact List.forall_mem_cons.2 ⟨hasRelation c first, membersHaveRelations cs others⟩

end

/-- The whole condition stands without parentheses. -/
theorem exists_tree {c : Condition} (h : c.isFull = true) :
    ∃ tree : Tree (.chain .or), tree.Means c.tokens fun truth => c.eval truth := by
  cases c with
  | compare sign left right =>
    obtain ⟨tree, means⟩ := hasRelation (.compare sign left right) h
    exact ⟨.single (.single tree), means.single.single⟩
  | all cs => exact exists_tree_all h (membersHaveRelations cs (Bool.and_eq_true_iff.1 h).2)
  | any cs => exact exists_tree_any h (membersHaveRelations cs (Bool.and_eq_true_iff.1 h).2)

/-- **A filter keeps its meaning.**  The text of a condition, in which every connective joins
something and every variable has a name, has one reading and no other, under a grammar in which
comparisons bind tighter than "and", and "and" tighter than "or".  It takes the whole text, and
whichever comparisons are true, it is true if and only if the condition is. -/
theorem exists_reading_eval {c : Condition} (h : c.IsLegible) :
    ∃ tree : Tree (.chain .or), (∀ other : Tree (.chain .or), other.Reads c.text ↔ other = tree) ∧
      ∀ truth, tree.truth? truth = some (c.eval truth) := by
  obtain ⟨tree, means⟩ := exists_tree h.full
  have reads : tree.Reads c.text := by
    have split := isSplit c h.named (nofun : EndsTerm []) .nil
    rw [Tree.Reads, means.tokens, text, String.toList_ofList]
    simpa using split
  refine ⟨tree, fun other => ⟨fun read => read.unique reads, ?_⟩, means.truth⟩
  rintro rfl
  exact reads

/-- A condition of both connectives, one of them with a single member, and a literal that holds a
connective and parentheses. -/
def nested : Condition :=
  .all [.any [.compare .eq (.variable ⟨"a"⟩) (.literal ⟨") && (", .dateTime⟩),
      .compare .lt (.iri ⟨"http://example.org/begin", by decide +kernel⟩) (.variable ⟨"b"⟩)],
    .all [.compare .ge (.variable ⟨"a"⟩) (.variable ⟨"b"⟩)]]

/-- The hypothesis of `exists_reading_eval` holds of `nested`.  If its first comparison is the only
true one, its reading is false; without the parentheses it would be true. -/
theorem exists_reading_eval_nested :
    nested.text = "(?a = \") && (\"^^<http://www.w3.org/2001/XMLSchema#dateTime> || " ++
      "<http://example.org/begin> < ?b) && (?a >= ?b)" ∧ nested.IsLegible ∧
    ∃ tree : Tree (.chain .or),
      (∀ other : Tree (.chain .or), other.Reads nested.text ↔ other = tree) ∧
      tree.truth? (fun sign _ _ => sign = .eq) = some false := by
  have legible : nested.IsLegible := by
    refine ⟨rfl, fun v mem => ?_⟩
    simp only [nested, terms, memberTerms, List.cons_append, List.nil_append, List.append_nil,
      List.mem_cons, List.not_mem_nil, or_false, Term.variable.injEq, reduceCtorEq, false_or] at mem
    rcases mem with rfl | rfl | rfl | rfl <;> decide +kernel
  obtain ⟨tree, only, truth⟩ := exists_reading_eval legible
  exact ⟨by decide +kernel, legible, tree, only, truth _⟩

end Condition
end Sparql
end DateFacet
