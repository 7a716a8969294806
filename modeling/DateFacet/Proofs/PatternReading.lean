/-
# Written patterns are read back

The reader takes the members of a text one by one:

| member | starts with |
| --- | --- |
| triple | a term |
| filter | `FILTER(` |
| group, or union of groups | an opening brace |

It looks for a triple first.  No term starts with a brace, and none is a word without a colon, so
neither `FILTER` nor `UNION` is taken for the subject of a triple, or the other way round.  Within a
term, a brace or a word is read as a part of the term (`Term.scan_chars`).

What is read is the plain pattern (`Pattern.plain`), which depends on the text alone and asks for
what the pattern asks for.  Therefore patterns with one text have the same answers.

From members to a member, to its alternatives and to the members of one of them, the reader takes
three steps for at least one character.  So three steps for each character are fuel enough.
-/

import DateFacet.Proofs.PlainPatterns
import DateFacet.Proofs.Solutions

namespace DateFacet
namespace Sparql

/-! ## Triples -/

/-- Reads a triple. -/
def Triple.scan (cs : List Char) : Option (Triple × List Char) := do
  let (subject, rest) ← Term.scan cs
  let rest ← rest.dropPrefix? [' ']
  let (predicate, rest) ← Term.scan rest
  let rest ← rest.dropPrefix? [' ']
  let (object, rest) ← Term.scan rest
  let rest ← rest.dropPrefix? [' ', '.']
  some (⟨subject, predicate, object⟩, rest)

/-- **A written triple is read back**, whatever follows it. -/
theorem Triple.scan_chars {t : Triple} (named : ∀ v, .variable v ∈ t.terms → v.IsNamed)
    (rest : List Char) : scan (t.chars ++ rest) = some (t, rest) := by
  have hsubject : ∀ v, t.subject = .variable v → v.IsNamed :=
    fun v eq => named v (by simp [terms, eq])
  have hpredicate : ∀ v, t.predicate = .variable v → v.IsNamed :=
    fun v eq => named v (by simp [terms, eq])
  have hobject : ∀ v, t.object = .variable v → v.IsNamed :=
    fun v eq => named v (by simp [terms, eq])
  have written : t.chars ++ rest = t.subject.chars ++
      ' ' :: (t.predicate.chars ++ ' ' :: (t.object.chars ++ ' ' :: '.' :: rest)) := by
    simp [chars]
  have blank : ∀ cs : List Char, (' ' :: cs).dropPrefix? [' '] = some cs :=
    Text.dropPrefix?_append [' ']
  have stop : (' ' :: '.' :: rest).dropPrefix? [' ', '.'] = some rest :=
    Text.dropPrefix?_append [' ', '.'] rest
  have first := Term.scan_chars hsubject
    (endsTerm_blank (t.predicate.chars ++ ' ' :: (t.object.chars ++ ' ' :: '.' :: rest)))
  have second := Term.scan_chars hpredicate
    (endsTerm_blank (t.object.chars ++ ' ' :: '.' :: rest))
  have third := Term.scan_chars hobject (endsTerm_blank ('.' :: rest))
  rw [scan, written, first]
  simp only [Option.bind_eq_bind, Option.bind_some, blank, second, third, stop]

namespace Pattern

/-! ## What can be read -/

mutual

/-- Every union and every joined condition has a member. -/
def isFull : Pattern → Bool
  | .basic _ => true
  | .filter condition => condition.isFull
  | .group members => membersFull members
  | .union members => !members.isEmpty && membersFull members

/-- Every union and every joined condition among the members has a member. -/
def membersFull : List Pattern → Bool
  | [] => true
  | p :: ps => p.isFull && membersFull ps

end

/-- Members are full if each of them is. -/
theorem membersFull_iff (ps : List Pattern) :
    membersFull ps = true ↔ ∀ p ∈ ps, p.isFull = true := by
  induction ps with
  | nil => simp [membersFull]
  | cons p ps ih => rw [membersFull, Bool.and_eq_true, ih, List.forall_mem_cons]

/-- The pattern can be read back: no union and no connective lacks members, and every variable is
named. -/
structure IsLegible (p : Pattern) : Prop where
  full : p.isFull = true
  named : ∀ v, .variable v ∈ p.terms → v.IsNamed

/-- A pattern is legible if it is full and its variables are named. -/
theorem isLegible_iff (p : Pattern) : p.IsLegible ↔
    p.isFull = true ∧ ∀ v ∈ p.terms.filterMap Term.asVariable?, v.IsNamed := by
  have names : ∀ v, v ∈ p.terms.filterMap Term.asVariable? ↔ .variable v ∈ p.terms := by
    intro v
    rw [List.mem_filterMap]
    constructor
    · rintro ⟨t, mem, h⟩
      match t, h with
      | .variable u, h =>
        rw [← Option.some.inj h]
        exact mem
    · intro mem
      exact ⟨.variable v, mem, rfl⟩
  simp only [names]
  exact ⟨fun h => ⟨h.full, h.named⟩, fun ⟨full, named⟩ => ⟨full, named⟩⟩

instance : DecidablePred IsLegible := fun p => decidable_of_iff' _ p.isLegible_iff

section

variable {ps : List Pattern}

/-- The members of a legible pattern are legible. -/
theorem isLegible_of_members (full : membersFull ps = true)
    (named : ∀ v, .variable v ∈ memberTerms ps → v.IsNamed) : ∀ p ∈ ps, p.IsLegible := by
  refine fun p mem => ⟨(membersFull_iff ps).1 full p mem, fun v hv => ?_⟩
  have member : .variable v ∈ ps.flatMap terms := List.mem_flatMap.2 ⟨p, mem, hv⟩
  rw [← memberTerms_eq] at member
  exact named v member

/-- The members of a legible group are legible. -/
theorem IsLegible.group (h : (Pattern.group ps).IsLegible) : ∀ p ∈ ps, p.IsLegible :=
  isLegible_of_members h.full h.named

/-- The alternatives of a legible union are legible, and there is one. -/
theorem IsLegible.union (h : (Pattern.union ps).IsLegible) : ps ≠ [] ∧ ∀ p ∈ ps, p.IsLegible := by
  obtain ⟨full, named⟩ := h
  rw [isFull, Bool.and_eq_true] at full
  exact ⟨by simpa using full.1, isLegible_of_members full.2 named⟩

/-- The condition of a legible filter is legible. -/
theorem IsLegible.filter {c : Condition} (h : (Pattern.filter c).IsLegible) : c.IsLegible :=
  ⟨h.full, h.named⟩

/-- The variables of legible triples are named. -/
theorem IsLegible.basic {ts : List Triple} (h : (Pattern.basic ts).IsLegible) :
    ∀ t ∈ ts, ∀ v, .variable v ∈ t.terms → v.IsNamed :=
  fun t mem v hv => h.named v (List.mem_flatMap.2 ⟨t, mem, hv⟩)

end

/-! ## Reading -/

/-- The word before a condition. -/
def filterWord : List Char := ['F', 'I', 'L', 'T', 'E', 'R', '(']

mutual

/-- Reads members up to a closing brace or the end. -/
def readMembers : Nat → List Char → Option (List Pattern × List Char)
  | 0, _ => none
  | fuel + 1, cs =>
    match cs.dropWhile (· = ' ') with
    | [] => some ([], [])
    | '\x7d' :: rest => some ([], '\x7d' :: rest)
    | cs => do
      let (p, rest) ← readMember fuel cs
      let (ps, rest) ← readMembers fuel rest
      some (p :: ps, rest)

/-- Reads a triple, a filter, or alternatives. -/
def readMember : Nat → List Char → Option (Pattern × List Char)
  | 0, _ => none
  | fuel + 1, cs =>
    match Triple.scan cs with
    | some (t, rest) => some (.basic [t], rest)
    | none =>
      match cs.dropPrefix? filterWord with
      | some rest => do
        let (c, rest) ← Condition.read rest
        let rest ← rest.dropPrefix? [')']
        some (.filter c, rest)
      | none => do
        let (ps, rest) ← readAlternatives fuel cs
        some (oneOf ps, rest)

/-- Reads groups with the word of a union between them. -/
def readAlternatives : Nat → List Char → Option (List Pattern × List Char)
  | 0, _ => none
  | fuel + 1, cs => do
    let inner ← cs.dropPrefix? ['\x7b']
    let (members, rest) ← readMembers fuel inner
    let rest ← rest.dropPrefix? ['\x7d']
    match rest.dropPrefix? unionWord with
    | some rest => do
      let (others, rest) ← readAlternatives fuel rest
      some (.group members :: others, rest)
    | none => some ([.group members], rest)

end

/-- The members that a text holds, if it holds nothing else. -/
def ofChars? (cs : List Char) : Option (List Pattern) :=
  match readMembers (3 * cs.length + 1) cs with
  | some (ps, []) => some ps
  | _ => none

/-! What the readers do on the way, by what they do after it. -/

section

variable {fuel : Nat} {cs more rest : List Char} {p : Pattern} {ps others : List Pattern}

/-- A blank before members does not matter. -/
theorem readMembers_blank (fuel : Nat) (cs : List Char) :
    readMembers fuel (' ' :: cs) = readMembers fuel cs := by
  cases fuel <;> rfl

/-- No member starts with a blank or with a closing brace. -/
theorem readMember_eq_none {c : Char} (h : c = ' ' ∨ c = '\x7d') (fuel : Nat) (cs : List Char) :
    readMember fuel (c :: cs) = none := by
  rcases h with rfl | rfl <;> rcases fuel with - | - | fuel <;> rfl

/-- After a member, the members go on. -/
theorem readMembers_next (h : readMember fuel cs = some (p, rest))
    (next : readMembers fuel rest = some (ps, more)) :
    readMembers (fuel + 1) cs = some (p :: ps, more) := by
  cases cs with
  | nil => rcases fuel with - | - | fuel <;> cases h
  | cons c cs =>
    -- A member begins with neither a blank nor a closing brace, so that its reader is asked.
    have blank : c ≠ ' ' := by
      rintro rfl
      rw [readMember_eq_none (.inl rfl)] at h
      cases h
    have brace : c ≠ '\x7d' := by
      rintro rfl
      rw [readMember_eq_none (.inr rfl)] at h
      cases h
    have start : (c :: cs).dropWhile (· = ' ') = c :: cs :=
      List.dropWhile_cons_of_neg (by simpa using blank)
    rw [readMembers, start]
    split
    · next eq => cases eq
    · next eq => exact absurd (List.cons.inj eq).1 brace
    · rw [h]
      simp only [Option.bind_eq_bind, Option.bind_some, next]

/-- A written triple is one member. -/
theorem readMember_triple {t : Triple} (named : ∀ v, .variable v ∈ t.terms → v.IsNamed)
    (fuel : Nat) (rest : List Char) :
    readMember (fuel + 1) (t.chars ++ rest) = some (.basic [t], rest) := by
  rw [readMember, Triple.scan_chars named]

/-- A written filter is one member, and is read with the plain condition. -/
theorem readMember_filter {c : Condition} (h : c.IsLegible) (fuel : Nat) (rest : List Char) :
    readMember (fuel + 1) ((filter c).chars ++ rest) = some (.filter c.plain, rest) := by
  have written : (filter c).chars ++ rest = filterWord ++ (c.chars ++ ')' :: rest) := by
    simp [chars, filterWord]
  have noTriple : Triple.scan (filterWord ++ (c.chars ++ ')' :: rest)) = none := rfl
  have word := Text.dropPrefix?_append filterWord (c.chars ++ ')' :: rest)
  have condition := Condition.read_chars h (Condition.ends_paren rest)
  have closed : (')' :: rest).dropPrefix? [')'] = some rest := Text.dropPrefix?_append [')'] rest
  rw [written, readMember, noTriple]
  simp only [word, condition, Option.bind_eq_bind, Option.bind_some, closed]

/-- Alternatives in braces are one member; one alone is a group. -/
theorem readMember_braces (h : readAlternatives fuel ('\x7b' :: cs) = some (ps, rest)) :
    readMember (fuel + 1) ('\x7b' :: cs) = some (oneOf ps, rest) := by
  have noTriple : Triple.scan ('\x7b' :: cs) = none := rfl
  have noFilter : ('\x7b' :: cs).dropPrefix? filterWord = none := rfl
  rw [readMember, noTriple]
  simp only [noFilter, h, Option.bind_eq_bind, Option.bind_some]

/-- Alternatives end at the braces that no `UNION` follows. -/
theorem readAlternatives_last (h : readMembers fuel cs = some (ps, '\x7d' :: rest))
    (stop : rest.dropPrefix? unionWord = none) :
    readAlternatives (fuel + 1) ('\x7b' :: cs) = some ([.group ps], rest) := by
  have opened : ('\x7b' :: cs).dropPrefix? ['\x7b'] = some cs := Text.dropPrefix?_append ['\x7b'] cs
  have closed : ('\x7d' :: rest).dropPrefix? ['\x7d'] = some rest :=
    Text.dropPrefix?_append ['\x7d'] rest
  rw [readAlternatives]
  simp only [opened, h, closed, stop, Option.bind_eq_bind, Option.bind_some]

/-- After braces and `UNION`, the alternatives go on. -/
theorem readAlternatives_next (h : readMembers fuel cs = some (ps, '\x7d' :: (unionWord ++ more)))
    (next : readAlternatives fuel more = some (others, rest)) :
    readAlternatives (fuel + 1) ('\x7b' :: cs) = some (.group ps :: others, rest) := by
  have opened : ('\x7b' :: cs).dropPrefix? ['\x7b'] = some cs := Text.dropPrefix?_append ['\x7b'] cs
  have closed : ('\x7d' :: (unionWord ++ more)).dropPrefix? ['\x7d'] = some (unionWord ++ more) :=
    Text.dropPrefix?_append ['\x7d'] (unionWord ++ more)
  have word := Text.dropPrefix?_append unionWord more
  rw [readAlternatives]
  simp only [opened, h, closed, word, next, Option.bind_eq_bind, Option.bind_some]

end

/-! ## A written pattern is read back -/

/-- With this much fuel or more, the members are read, and the reader stops at what is left. -/
def ReadsTo (least : Nat) (cs : List Char) (ps : List Pattern) (left : List Char) : Prop :=
  ∀ fuel, least ≤ fuel → readMembers fuel cs = some (ps, left)

section

variable {least total : Nat} {cs rest left : List Char} {p : Pattern} {ps : List Pattern}

/-- Members end with the text. -/
theorem readsTo_end : ReadsTo 1 [] [] [] := by
  intro fuel le
  obtain ⟨fuel, rfl⟩ : ∃ n, fuel = n + 1 := Nat.exists_eq_add_one.2 le
  rfl

/-- Members end at a closing brace. -/
theorem readsTo_brace (rest : List Char) : ReadsTo 1 (' ' :: '\x7d' :: rest) [] ('\x7d' :: rest) := by
  intro fuel le
  obtain ⟨fuel, rfl⟩ : ∃ n, fuel = n + 1 := Nat.exists_eq_add_one.2 le
  rfl

/-- Members may be read after a blank, and with more fuel. -/
theorem ReadsTo.blank (h : ReadsTo least cs ps left) (le : least ≤ total) :
    ReadsTo total (' ' :: cs) ps left := by
  intro fuel enough
  rw [readMembers_blank]
  exact h fuel (le.trans enough)

/-- A member is read in front of others. -/
theorem ReadsTo.next {needed : Nat} (others : ReadsTo least rest ps left)
    (one : ∀ fuel, needed ≤ fuel → readMember fuel cs = some (p, rest)) (hp : needed < total)
    (hps : least < total) : ReadsTo total cs (p :: ps) left := by
  intro fuel le
  obtain ⟨fuel, rfl⟩ : ∃ n, fuel = n + 1 := Nat.exists_eq_add_one.2 (by omega)
  exact readMembers_next (one fuel (by omega)) (others fuel (by omega))

end

/-- The written pattern is read among the members of a group, in front of the others. -/
def ReadsAsMember (p : Pattern) : Prop :=
  ∀ (least : Nat) (rest left : List Char) (ps : List Pattern),
    rest.dropPrefix? unionWord = none → ReadsTo least rest ps left →
      ReadsTo (3 * p.chars.length + least) (p.chars ++ rest) (p.plain ++ ps) left

/-- The written pattern is read as an alternative of a union, within its braces. -/
def ReadsAsBlock (p : Pattern) : Prop :=
  ∀ (fuel : Nat) (rest : List Char), 3 * (p.alternative p.chars).length ≤ fuel + 3 →
    ∃ cs, p.alternative p.chars ++ rest = '\x7b' :: cs ∧
      readMembers fuel cs = some (p.content, '\x7d' :: rest)

/-- The written pattern is read back at each place where it may stand.  Behind a group it is not
taken for the word of a union. -/
structure IsReadBack (p : Pattern) : Prop where
  member : p.ReadsAsMember
  block : p.ReadsAsBlock
  noUnion : ∀ rest, (' ' :: (p.chars ++ ' ' :: rest)).dropPrefix? unionWord = none

/-- A pattern that has no braces of its own gets them as an alternative. -/
theorem ReadsAsMember.block {p : Pattern} (member : p.ReadsAsMember)
    (braces : p.alternative p.chars = '\x7b' :: ' ' :: p.chars ++ [' ', '\x7d'])
    (same : p.plain = p.content) : p.ReadsAsBlock := by
  intro fuel rest le
  have length : (p.alternative p.chars).length = p.chars.length + 4 := by
    rw [braces]
    simp
  have inner := (member 1 _ _ [] rfl (readsTo_brace rest)).blank (le_refl _)
  rw [List.append_nil, same] at inner
  refine ⟨_, ?_, inner fuel (by omega)⟩
  rw [braces]
  simp

/-! ### Triples and filters -/

/-- Written triples are read one by one, in front of other members. -/
theorem readsTo_triples {least : Nat} {rest left : List Char} {ps : List Pattern} :
    ∀ ts : List Triple, (∀ t ∈ ts, ∀ v, .variable v ∈ t.terms → v.IsNamed) →
      ReadsTo least rest ps left →
        ReadsTo (3 * (tripleChars ts).length + least) (tripleChars ts ++ rest)
          ((ts.map fun t => .basic [t]) ++ ps) left
  | [], _, h => by simpa [tripleChars] using h
  | t :: ts, named, h => by
      obtain ⟨first, others⟩ := List.forall_mem_cons.1 named
      have one : ∀ rest fuel, 1 ≤ fuel →
          readMember fuel (t.chars ++ rest) = some (.basic [t], rest) := by
        intro rest fuel le
        obtain ⟨fuel, rfl⟩ : ∃ n, fuel = n + 1 := Nat.exists_eq_add_one.2 le
        exact readMember_triple first fuel rest
      have long : 1 ≤ t.chars.length := by
        simp [Triple.chars]
        omega
      cases ts with
      | nil => exact h.next (one rest) (by rw [tripleChars]; omega) (by rw [tripleChars]; omega)
      | cons u ts =>
        have more := (readsTo_triples (u :: ts) others h).blank (le_refl _)
        have written : tripleChars (t :: u :: ts) = t.chars ++ ' ' :: tripleChars (u :: ts) := by
          rw [tripleChars]
          nofun
        rw [written, List.append_assoc, List.length_append, List.length_cons]
        exact more.next (one _) (by omega) (by omega)

/-- Triples are read back if their variables are named. -/
theorem isReadBack_basic {ts : List Triple}
    (named : ∀ t ∈ ts, ∀ v, .variable v ∈ t.terms → v.IsNamed) : (basic ts).IsReadBack where
  member _ _ _ _ _ others := readsTo_triples ts named others
  block := ReadsAsMember.block (fun _ _ _ _ _ others => readsTo_triples ts named others) rfl rfl
  noUnion rest := by
    cases ts with
    | nil => rfl
    | cons t ts =>
      obtain ⟨first, -⟩ := List.forall_mem_cons.1 named
      obtain ⟨more, written⟩ : ∃ more, tripleChars (t :: ts) ++ ' ' :: rest = t.chars ++ more := by
        cases ts with
        | nil => exact ⟨_, rfl⟩
        | cons u ts =>
          refine ⟨' ' :: (tripleChars (u :: ts) ++ ' ' :: rest), ?_⟩
          rw [tripleChars]
          · simp
          · nofun
      rw [chars, written]
      by_contra some
      obtain ⟨others, found⟩ := Option.ne_none_iff_exists'.1 some
      obtain ⟨word, eq, same⟩ := List.dropPrefix?_eq_some_iff.1 found
      -- The word would be read as a triple.
      have read := Triple.scan_chars first more
      rw [eq_of_beq same] at eq
      rw [(List.cons.inj eq).2] at read
      cases read

/-- A filter is read back if its condition is legible. -/
theorem isReadBack_filter {c : Condition} (h : c.IsLegible) : (filter c).IsReadBack := by
  have member : (filter c).ReadsAsMember := by
    intro least rest left ps _ others
    have one : ∀ fuel, 1 ≤ fuel →
        readMember fuel ((filter c).chars ++ rest) = some (.filter c.plain, rest) := by
      intro fuel le
      obtain ⟨fuel, rfl⟩ : ∃ n, fuel = n + 1 := Nat.exists_eq_add_one.2 le
      exact readMember_filter h fuel rest
    have long : 1 ≤ (filter c).chars.length := by
      simp [chars]
    exact others.next one (by omega) (by omega)
  exact ⟨member, member.block rfl rfl, fun _ => rfl⟩

/-! ### Groups and unions -/

section

variable {ps : List Pattern}

/-- Every member of a group has a blank before it. -/
theorem memberChars_cons (p : Pattern) (ps : List Pattern) (rest : List Char) :
    memberChars (p :: ps) ++ rest = ' ' :: (p.chars ++ (memberChars ps ++ rest)) := by
  simp [memberChars]

/-- What follows a member in its group is not the word of a union. -/
theorem dropPrefix?_memberChars (h : ∀ p ∈ ps, p.IsReadBack) (rest : List Char) :
    (memberChars ps ++ ' ' :: '\x7d' :: rest).dropPrefix? unionWord = none := by
  cases ps with
  | nil => rfl
  | cons p ps =>
    obtain ⟨more, written⟩ : ∃ more, memberChars ps ++ ' ' :: '\x7d' :: rest = ' ' :: more := by
      cases ps with
      | nil => exact ⟨_, rfl⟩
      | cons q ps => exact ⟨_, memberChars_cons q ps _⟩
    rw [memberChars_cons, written]
    exact (h p List.mem_cons_self).noUnion more

/-- **The members of a group are read back** up to the brace that closes it. -/
theorem readsTo_memberChars (h : ∀ p ∈ ps, p.IsReadBack) (rest : List Char) :
    ReadsTo (3 * (memberChars ps).length + 1) (memberChars ps ++ ' ' :: '\x7d' :: rest)
      (contents ps) ('\x7d' :: rest) := by
  induction ps with
  | nil => exact readsTo_brace rest
  | cons p ps ih =>
    obtain ⟨first, others⟩ := List.forall_mem_cons.1 h
    have more := first.member _ _ _ _ (dropPrefix?_memberChars others rest) (ih others)
    have length : (memberChars (p :: ps)).length =
        p.chars.length + (memberChars ps).length + 1 := by
      simp [memberChars]
    rw [memberChars_cons]
    exact more.blank (by omega)

/-- An alternative starts with a brace. -/
theorem exists_alternative_eq_cons (p : Pattern) :
    ∃ cs, p.alternative p.chars = '\x7b' :: cs := by
  cases p <;> exact ⟨_, rfl⟩

/-- An alternative that is not the last has the word of a union after it. -/
theorem alternativeChars_cons_cons (p q : Pattern) (ps : List Pattern) (rest : List Char) :
    alternativeChars (p :: q :: ps) ++ rest =
      p.alternative p.chars ++ (unionWord ++ (alternativeChars (q :: ps) ++ rest)) := by
  rw [alternativeChars]
  · simp
  · nofun

/-- Written alternatives begin with a brace. -/
theorem exists_alternativeChars_eq_cons (ne : ps ≠ []) (rest : List Char) :
    ∃ cs, alternativeChars ps ++ rest = '\x7b' :: cs := by
  match ps with
  | [p] =>
    obtain ⟨cs, eq⟩ := exists_alternative_eq_cons p
    exact ⟨cs ++ rest, by rw [alternativeChars, eq, List.cons_append]⟩
  | p :: q :: ps =>
    obtain ⟨cs, eq⟩ := exists_alternative_eq_cons p
    exact ⟨_, by rw [alternativeChars_cons_cons, eq, List.cons_append]⟩

/-- **The alternatives of a union are read back.** -/
theorem exists_readAlternatives (ne : ps ≠ []) (h : ∀ p ∈ ps, p.IsReadBack) {fuel : Nat}
    (le : 3 * (alternativeChars ps).length ≤ fuel + 2) {rest : List Char}
    (stop : rest.dropPrefix? unionWord = none) :
    ∃ cs, alternativeChars ps ++ rest = '\x7b' :: cs ∧
      readAlternatives fuel ('\x7b' :: cs) = some (blocks ps, rest) := by
  induction ps generalizing fuel with
  | nil => exact absurd rfl ne
  | cons p ps ih =>
    obtain ⟨first, others⟩ := List.forall_mem_cons.1 h
    have long : 1 ≤ (p.alternative p.chars).length := by
      obtain ⟨cs, eq⟩ := exists_alternative_eq_cons p
      simp [eq]
    cases ps with
    | nil =>
      rw [alternativeChars] at le ⊢
      obtain ⟨fuel, rfl⟩ : ∃ n, fuel = n + 1 := Nat.exists_eq_add_one.2 (by omega)
      obtain ⟨cs, written, inner⟩ := first.block fuel rest (by omega)
      exact ⟨cs, written, readAlternatives_last inner stop⟩
    | cons q ps =>
      have length : (alternativeChars (p :: q :: ps)).length =
          (p.alternative p.chars).length + unionWord.length + (alternativeChars (q :: ps)).length := by
        have written := alternativeChars_cons_cons p q ps []
        rw [List.append_nil, List.append_nil] at written
        rw [written, List.length_append, List.length_append, Nat.add_assoc]
      obtain ⟨fuel, rfl⟩ : ∃ n, fuel = n + 1 := Nat.exists_eq_add_one.2 (by omega)
      have enough : 3 * (alternativeChars (q :: ps)).length ≤ fuel + 2 := by omega
      obtain ⟨more, writtenMore, readMore⟩ := ih (List.cons_ne_nil q ps) others enough
      rw [alternativeChars_cons_cons, writtenMore]
      obtain ⟨cs, written, inner⟩ := first.block fuel (unionWord ++ '\x7b' :: more) (by omega)
      exact ⟨cs, written, readAlternatives_next inner readMore⟩

/-- A group is read back if its members are. -/
theorem isReadBack_group (h : ∀ p ∈ ps, p.IsReadBack) : (group ps).IsReadBack where
  member least rest left others stop reads := by
    have length : (group ps).chars.length = (memberChars ps).length + 3 := by
      simp [chars]
    have written : (group ps).chars ++ rest =
        '\x7b' :: (memberChars ps ++ ' ' :: '\x7d' :: rest) := by
      simp [chars]
    have one : ∀ fuel, 3 * (memberChars ps).length + 3 ≤ fuel →
        readMember fuel ('\x7b' :: (memberChars ps ++ ' ' :: '\x7d' :: rest)) =
          some (.group (contents ps), rest) := by
      intro fuel le
      obtain ⟨fuel, rfl⟩ : ∃ n, fuel = n + 2 := ⟨fuel - 2, by omega⟩
      have inner := readsTo_memberChars h rest fuel (by omega)
      exact readMember_braces (readAlternatives_last inner stop)
    rw [written]
    exact reads.next one (by omega) (by omega)
  block fuel rest le := by
    have length : ((group ps).alternative (group ps).chars).length =
        (memberChars ps).length + 3 := by
      simp [alternative, chars]
    have inner := readsTo_memberChars h rest fuel (by omega)
    exact ⟨_, by simp [alternative, chars], inner⟩
  noUnion _ := rfl

/-- A union is read back if its alternatives are. -/
theorem isReadBack_union (ne : ps ≠ []) (h : ∀ p ∈ ps, p.IsReadBack) :
    (union ps).IsReadBack := by
  have long : 1 ≤ (alternativeChars ps).length := by
    obtain ⟨cs, eq⟩ := exists_alternativeChars_eq_cons ne []
    rw [List.append_nil] at eq
    simp [eq]
  have member : (union ps).ReadsAsMember := by
    intro least rest left others stop reads
    have one : ∀ fuel, 3 * (alternativeChars ps).length - 1 ≤ fuel →
        readMember fuel (alternativeChars ps ++ rest) = some (oneOf (blocks ps), rest) := by
      intro fuel le
      obtain ⟨fuel, rfl⟩ : ∃ n, fuel = n + 1 := Nat.exists_eq_add_one.2 (by omega)
      have enough : 3 * (alternativeChars ps).length ≤ fuel + 2 := by omega
      obtain ⟨cs, written, read⟩ := exists_readAlternatives ne h enough stop
      rw [written]
      exact readMember_braces read
    rw [chars]
    exact reads.next one (by omega) (by omega)
  refine ⟨member, member.block rfl rfl, fun rest => ?_⟩
  obtain ⟨cs, written⟩ := exists_alternativeChars_eq_cons ne (' ' :: rest)
  rw [chars, written]
  rfl

end

mutual

/-- **A legible pattern is read back**, wherever it stands. -/
theorem isReadBack : ∀ p : Pattern, p.IsLegible → p.IsReadBack
  | .basic _, h => isReadBack_basic h.basic
  | .filter _, h => isReadBack_filter h.filter
  | .group ps, h => isReadBack_group (membersReadBack ps h.group)
  | .union ps, h => isReadBack_union h.union.1 (membersReadBack ps h.union.2)

/-- Every member of a list of legible patterns is read back. -/
theorem membersReadBack : ∀ ps : List Pattern, (∀ p ∈ ps, p.IsLegible) →
    ∀ p ∈ ps, p.IsReadBack
  | [], _ => fun _ mem => nomatch mem
  | p :: ps, h => by
      obtain ⟨first, others⟩ := List.forall_mem_cons.1 h
      exact List.forall_mem_cons.2 ⟨isReadBack p first, membersReadBack ps others⟩

end

/-- **The text of a pattern holds its members and nothing else.** -/
theorem ofChars?_chars {p : Pattern} (h : p.IsLegible) : ofChars? p.chars = some p.plain := by
  have reads := (isReadBack p h).member 1 [] [] [] rfl readsTo_end
  rw [List.append_nil, List.append_nil] at reads
  rw [ofChars?, reads _ (le_refl _)]

/-- **A written pattern means one thing.**  Two patterns with the same text have the same answers in
every graph, and the same solutions over all dates. -/
theorem answers_eq_of_text_eq {p q : Pattern} (hp : p.IsLegible) (hq : q.IsLegible)
    (h : p.text = q.text) :
    (∀ (V : Type) (g : Graph V), g.answers p = g.answers q) ∧
      ∀ (N : Type) [DecidableEq N] (w : World N), p.solutions w = q.solutions w := by
  have same : p.plain = q.plain := by
    have chars : p.chars = q.chars := String.ofList_injective h
    rw [← Option.some_inj, ← ofChars?_chars hp, ← ofChars?_chars hq, chars]
  have answers : ∀ (V : Type) (g : Graph V), g.answers p = g.answers q := by
    intro V g
    rw [← g.answers_group_singleton p, ← (g.alike_plain p).answers_group, same,
      (g.alike_plain q).answers_group, g.answers_group_singleton]
  exact ⟨answers, fun N _ w => answers (Value N) w.graph⟩

/-- The statement of `answers_eq_of_text_eq` at a union with one alternative and a group that has the
same triples apart, with a literal that holds the word of a union, braces and a quotation mark. -/
theorem answers_eq_of_text_eq_apart :
    ∃ t u : Triple, u.object.text = "\"\\\" \x7d UNION \x7b ?it\"^^ex:note" ∧
      (union [basic [t, u]]).text = (group [basic [t], basic [u]]).text ∧
      ∀ (V : Type) (g : Graph V),
        g.answers (union [basic [t, u]]) = g.answers (group [basic [t], basic [u]]) := by
  let note : Iri := ⟨"ex:note", by decide +kernel⟩
  let t : Triple := ⟨.variable ⟨"it"⟩, .iri note, .variable ⟨"date"⟩⟩
  let u : Triple := ⟨.variable ⟨"it"⟩, .iri note, .literal ⟨"\" \x7d UNION \x7b ?it", note⟩⟩
  have text : (union [basic [t, u]]).text = (group [basic [t], basic [u]]).text := by
    decide +kernel
  have first : (union [basic [t, u]]).IsLegible := by decide +kernel
  have second : (group [basic [t], basic [u]]).IsLegible := by decide +kernel
  exact ⟨t, u, by decide +kernel, text, (answers_eq_of_text_eq first second text).1⟩

end Pattern
end Sparql
end DateFacet
