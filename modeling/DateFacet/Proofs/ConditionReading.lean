/-
# Written conditions are read back

A condition is read with "and" before "or", as the precedence of the connectives has it:

| part | made of | between them |
| --- | --- | --- |
| alternatives | conjunctions | `||` |
| conjunction | members | `&&` |
| member | a comparison, or alternatives in parentheses | |

The written condition needs no precedence, for a member of a joined condition that is not a
comparison has parentheses around it.  But connectives with one member leave no trace.  So what is
read is the condition without these (`Condition.plain`), which is true whenever the condition is
(`Condition.eval_plain`).

A reader at one of the three levels takes a step to the level below on the same characters, and
only then takes one off.  So three steps for each character are fuel enough.
-/

import DateFacet.Proofs.Answers
import DateFacet.Proofs.TermReading

namespace DateFacet
namespace Sparql

/-! ## Comparisons -/

/-- Reads a sign. -/
def Comparison.scan : List Char → Option (Comparison × List Char)
  | '<' :: '=' :: rest => some (.le, rest)
  | '<' :: rest => some (.lt, rest)
  | '=' :: rest => some (.eq, rest)
  | '>' :: '=' :: rest => some (.ge, rest)
  | '>' :: rest => some (.gt, rest)
  | _ => none

/-- A written sign is read in front of a blank, and `<=` is not taken for `<`. -/
theorem Comparison.scan_chars (sign : Comparison) (rest : List Char) :
    scan (sign.chars ++ ' ' :: rest) = some (sign, ' ' :: rest) := by
  cases sign <;> rfl

namespace Condition

/-- Reads a comparison. -/
def scanCompare (cs : List Char) : Option (Condition × List Char) := do
  let (left, rest) ← Term.scan cs
  let rest ← rest.dropPrefix? [' ']
  let (sign, rest) ← Comparison.scan rest
  let rest ← rest.dropPrefix? [' ']
  let (right, rest) ← Term.scan rest
  some (.compare sign left right, rest)

/-! ## What can be read -/

mutual

/-- Every joined condition has a member. -/
def isFull : Condition → Bool
  | .compare _ _ _ => true
  | .all members => !members.isEmpty && membersFull members
  | .any members => !members.isEmpty && membersFull members

/-- Every joined condition among the members has a member. -/
def membersFull : List Condition → Bool
  | [] => true
  | c :: cs => c.isFull && membersFull cs

end

/-- Members are full if each of them is. -/
theorem membersFull_iff (cs : List Condition) :
    membersFull cs = true ↔ ∀ c ∈ cs, c.isFull = true := by
  induction cs with
  | nil => simp [membersFull]
  | cons c cs ih => rw [membersFull, Bool.and_eq_true, ih, List.forall_mem_cons]

/-- The condition can be read back: no connective lacks members, and every variable is named. -/
structure IsLegible (c : Condition) : Prop where
  full : c.isFull = true
  named : ∀ v, .variable v ∈ c.terms → v.IsNamed

section

variable {cs : List Condition}

/-- The members of a legible joined condition are legible, and there is one. -/
theorem isLegible_of_members (full : (!cs.isEmpty && membersFull cs) = true)
    (named : ∀ v, .variable v ∈ memberTerms cs → v.IsNamed) :
    cs ≠ [] ∧ ∀ c ∈ cs, c.IsLegible := by
  rw [Bool.and_eq_true] at full
  obtain ⟨some, each⟩ := full
  refine ⟨by simpa using some, fun c mem => ⟨(membersFull_iff cs).1 each c mem, fun v hv => ?_⟩⟩
  have member : .variable v ∈ cs.flatMap terms := List.mem_flatMap.2 ⟨c, mem, hv⟩
  rw [← memberTerms_eq] at member
  exact named v member

/-- The members of a legible conjunction are legible, and there is one. -/
theorem IsLegible.all (h : (Condition.all cs).IsLegible) : cs ≠ [] ∧ ∀ c ∈ cs, c.IsLegible :=
  isLegible_of_members h.full h.named

/-- The members of a legible disjunction are legible, and there is one. -/
theorem IsLegible.any (h : (Condition.any cs).IsLegible) : cs ≠ [] ∧ ∀ c ∈ cs, c.IsLegible :=
  isLegible_of_members h.full h.named

end

/-! ## Connectives with one member -/

/-- Conditions joined by a connective, of which one alone stands for itself. -/
def joined (connective : List Condition → Condition) : List Condition → Condition
  | [c] => c
  | cs => connective cs

mutual

/-- The condition without the connectives that have one member. -/
def plain : Condition → Condition
  | .compare sign left right => .compare sign left right
  | .all members => joined .all (plainMembers members)
  | .any members => joined .any (plainMembers members)

/-- The members without the connectives that have one member. -/
def plainMembers : List Condition → List Condition
  | [] => []
  | c :: cs => c.plain :: plainMembers cs

end

section

variable (truth : Comparison → Term → Term → Bool)

/-- Members joined by "and", or one alone, are true if every member is. -/
theorem eval_joined_all (cs : List Condition) :
    (joined .all cs).eval truth = evalAll truth cs := by
  rcases cs with - | ⟨c, - | ⟨d, cs⟩⟩
  · rfl
  · rw [joined, evalAll, evalAll, Bool.and_true]
  · rfl

/-- Members joined by "or", or one alone, are true if some member is. -/
theorem eval_joined_any (cs : List Condition) :
    (joined .any cs).eval truth = evalAny truth cs := by
  rcases cs with - | ⟨c, - | ⟨d, cs⟩⟩
  · rfl
  · rw [joined, evalAny, evalAny, Bool.or_false]
  · rfl

mutual

/-- **A connective with one member changes no truth.** -/
theorem eval_plain : ∀ c : Condition, c.plain.eval truth = c.eval truth
  | .compare _ _ _ => rfl
  | .all members => by
      rw [plain, eval_joined_all, evalAll_plainMembers members, eval]
  | .any members => by
      rw [plain, eval_joined_any, evalAny_plainMembers members, eval]

/-- Plain members are all true whenever the members are. -/
theorem evalAll_plainMembers : ∀ cs : List Condition,
    evalAll truth (plainMembers cs) = evalAll truth cs
  | [] => rfl
  | c :: cs => by rw [plainMembers, evalAll, eval_plain c, evalAll_plainMembers cs, evalAll]

/-- Some plain member is true whenever some member is. -/
theorem evalAny_plainMembers : ∀ cs : List Condition,
    evalAny truth (plainMembers cs) = evalAny truth cs
  | [] => rfl
  | c :: cs => by rw [plainMembers, evalAny, eval_plain c, evalAny_plainMembers cs, evalAny]

end

end

/-! ## Reading -/

/-- The written "and". -/
def andWord : List Char := [' ', '&', '&', ' ']

/-- The written "or". -/
def orWord : List Char := [' ', '|', '|', ' ']

mutual

/-- Reads conjunctions with "or" between them. -/
def readAny : Nat → List Char → Option (List Condition × List Char)
  | 0, _ => none
  | fuel + 1, cs => do
    let (members, rest) ← readAll fuel cs
    match rest.dropPrefix? orWord with
    | some rest => do
      let (others, rest) ← readAny fuel rest
      some (joined .all members :: others, rest)
    | none => some ([joined .all members], rest)

/-- Reads members with "and" between them. -/
def readAll : Nat → List Char → Option (List Condition × List Char)
  | 0, _ => none
  | fuel + 1, cs => do
    let (c, rest) ← readMember fuel cs
    match rest.dropPrefix? andWord with
    | some rest => do
      let (others, rest) ← readAll fuel rest
      some (c :: others, rest)
    | none => some ([c], rest)

/-- Reads a comparison, or alternatives in parentheses. -/
def readMember : Nat → List Char → Option (Condition × List Char)
  | 0, _ => none
  | fuel + 1, cs =>
    match scanCompare cs with
    | some found => some found
    | none => do
      let inner ← cs.dropPrefix? ['(']
      let (alternatives, rest) ← readAny fuel inner
      let rest ← rest.dropPrefix? [')']
      some (joined .any alternatives, rest)

end

/-- Reads a condition. -/
def read (cs : List Char) : Option (Condition × List Char) := do
  let (alternatives, rest) ← readAny (3 * cs.length + 3) cs
  some (joined .any alternatives, rest)

/-! What the readers do on the way, by what they do after it. -/

section

variable {fuel : Nat} {cs more rest : List Char} {c : Condition} {ds others : List Condition}

/-- Alternatives in parentheses are one member. -/
theorem readMember_paren (h : readAny fuel cs = some (ds, ')' :: rest)) :
    readMember (fuel + 1) ('(' :: cs) = some (joined .any ds, rest) := by
  have noTerm : scanCompare ('(' :: cs) = none := rfl
  have inner : ('(' :: cs).dropPrefix? ['('] = some cs := Text.dropPrefix?_append ['('] cs
  have closed : (')' :: rest).dropPrefix? [')'] = some rest := Text.dropPrefix?_append [')'] rest
  rw [readMember, noTerm]
  simp only [inner, Option.bind_eq_bind, Option.bind_some, h, closed]

/-- A conjunction ends at the member that no `&&` follows. -/
theorem readAll_last (h : readMember fuel cs = some (c, rest))
    (stop : rest.dropPrefix? andWord = none) : readAll (fuel + 1) cs = some ([c], rest) := by
  rw [readAll, h]
  simp only [Option.bind_eq_bind, Option.bind_some, stop]

/-- After a member and `&&`, the conjunction goes on. -/
theorem readAll_next (h : readMember fuel cs = some (c, andWord ++ more))
    (next : readAll fuel more = some (others, rest)) :
    readAll (fuel + 1) cs = some (c :: others, rest) := by
  have word := Text.dropPrefix?_append andWord more
  rw [readAll, h]
  simp only [Option.bind_eq_bind, Option.bind_some, word, next]

/-- Alternatives end at the conjunction that no `||` follows. -/
theorem readAny_last (h : readAll fuel cs = some (ds, rest))
    (stop : rest.dropPrefix? orWord = none) :
    readAny (fuel + 1) cs = some ([joined .all ds], rest) := by
  rw [readAny, h]
  simp only [Option.bind_eq_bind, Option.bind_some, stop]

/-- After a conjunction and `||`, the alternatives go on. -/
theorem readAny_next (h : readAll fuel cs = some (ds, orWord ++ more))
    (next : readAny fuel more = some (others, rest)) :
    readAny (fuel + 1) cs = some (joined .all ds :: others, rest) := by
  have word := Text.dropPrefix?_append orWord more
  rw [readAny, h]
  simp only [Option.bind_eq_bind, Option.bind_some, word, next]

end

/-! ## A written condition is read back -/

/-- A condition may end before these characters. -/
def Ends (rest : List Char) : Prop := ∀ c ∈ rest.head?, c = ')'

/-- A closing parenthesis ends a condition. -/
theorem ends_paren (rest : List Char) : Ends (')' :: rest) := by
  intro c mem
  exact (Option.some.inj mem).symm

/-- What ends a condition ends its last term as well. -/
theorem Ends.endsTerm {rest : List Char} (h : Ends rest) : EndsTerm rest :=
  fun c mem => .inr (h c mem)

/-- No connective follows a condition. -/
theorem Ends.dropPrefix? {rest : List Char} (h : Ends rest) (word : List Char) :
    rest.dropPrefix? (' ' :: word) = none := by
  cases rest with
  | nil => rfl
  | cons c rest =>
    obtain rfl := h c rfl
    rfl

/-- A written comparison is read back in front of anything that ends its last term. -/
theorem scanCompare_chars {sign : Comparison} {left right : Term}
    (h : (compare sign left right).IsLegible) {rest : List Char} (ends : EndsTerm rest) :
    scanCompare ((compare sign left right).chars ++ rest) =
      some (.compare sign left right, rest) := by
  have hleft : ∀ v, left = .variable v → v.IsNamed := by
    rintro v rfl
    exact h.named v (by simp [terms])
  have hright : ∀ v, right = .variable v → v.IsNamed := by
    rintro v rfl
    exact h.named v (by simp [terms])
  have written : (compare sign left right).chars ++ rest =
      left.chars ++ ' ' :: (sign.chars ++ ' ' :: (right.chars ++ rest)) := by
    simp [chars]
  have blank : ∀ cs : List Char, (' ' :: cs).dropPrefix? [' '] = some cs :=
    Text.dropPrefix?_append [' ']
  have first := Term.scan_chars hleft (endsTerm_blank (sign.chars ++ ' ' :: (right.chars ++ rest)))
  have middle := sign.scan_chars (right.chars ++ rest)
  have last := Term.scan_chars hright ends
  rw [scanCompare, written, first]
  simp only [Option.bind_eq_bind, Option.bind_some, blank, middle, last]

/-- A member that is not the last has the connective after it. -/
theorem memberChars_cons_cons (word : List Char) (c d : Condition) (cs : List Condition) :
    memberChars word (c :: d :: cs) =
      c.member c.chars ++ word ++ memberChars word (d :: cs) := by
  rw [memberChars]
  nofun

/-- The condition is read back as a member of another one, in front of a connective or the end. -/
def ReadsAsMember (c : Condition) : Prop :=
  ∀ (fuel : Nat) (rest : List Char), 3 * (c.member c.chars).length < fuel → EndsTerm rest →
    readMember fuel (c.member c.chars ++ rest) = some (c.plain, rest)

section

variable {cs : List Condition}

/-- **Members with "and" between them are read back.** -/
theorem readAll_memberChars (ne : cs ≠ []) (h : ∀ c ∈ cs, c.ReadsAsMember) (fuel : Nat)
    (le : 3 * (memberChars andWord cs).length + 1 < fuel) {rest : List Char} (ends : Ends rest) :
    readAll fuel (memberChars andWord cs ++ rest) = some (plainMembers cs, rest) := by
  induction cs generalizing fuel with
  | nil => exact absurd rfl ne
  | cons c cs ih =>
    obtain ⟨first, others⟩ := List.forall_mem_cons.1 h
    obtain ⟨fuel, rfl⟩ : ∃ n, fuel = n + 1 := Nat.exists_eq_add_one.2 (by omega)
    cases cs with
    | nil =>
      rw [memberChars] at le ⊢
      have only := first fuel rest (by omega) ends.endsTerm
      exact readAll_last only (ends.dropPrefix? _)
    | cons d cs =>
      rw [memberChars_cons_cons, List.length_append, List.length_append] at le
      have one := first fuel (andWord ++ (memberChars andWord (d :: cs) ++ rest)) (by omega)
        (endsTerm_blank _)
      have length : andWord.length = 4 := rfl
      have more := ih (List.cons_ne_nil d cs) others fuel (by omega)
      rw [memberChars_cons_cons, List.append_assoc, List.append_assoc, plainMembers]
      exact readAll_next one more

/-- **Members with "or" between them are read back**, each as a conjunction of its own. -/
theorem readAny_memberChars (ne : cs ≠ []) (h : ∀ c ∈ cs, c.ReadsAsMember) (fuel : Nat)
    (le : 3 * (memberChars orWord cs).length + 2 < fuel) {rest : List Char} (ends : Ends rest) :
    readAny fuel (memberChars orWord cs ++ rest) = some (plainMembers cs, rest) := by
  induction cs generalizing fuel with
  | nil => exact absurd rfl ne
  | cons c cs ih =>
    obtain ⟨first, others⟩ := List.forall_mem_cons.1 h
    obtain ⟨fuel, rfl⟩ : ∃ n, fuel = n + 2 := ⟨fuel - 2, by omega⟩
    cases cs with
    | nil =>
      rw [memberChars] at le ⊢
      have only := first fuel rest (by omega) ends.endsTerm
      exact readAny_last (readAll_last only (ends.dropPrefix? _)) (ends.dropPrefix? _)
    | cons d cs =>
      rw [memberChars_cons_cons, List.length_append, List.length_append] at le
      have one := first fuel (orWord ++ (memberChars orWord (d :: cs) ++ rest)) (by omega)
        (endsTerm_blank _)
      have length : orWord.length = 4 := rfl
      have more := ih (List.cons_ne_nil d cs) others (fuel + 1) (by omega)
      rw [memberChars_cons_cons, List.append_assoc, List.append_assoc, plainMembers]
      exact readAny_next (readAll_last one rfl) more

/-- A comparison is a member without parentheses. -/
theorem readsAsMember_compare {sign : Comparison} {left right : Term}
    (h : (compare sign left right).IsLegible) : (compare sign left right).ReadsAsMember := by
  intro fuel rest le ends
  obtain ⟨fuel, rfl⟩ : ∃ n, fuel = n + 1 := Nat.exists_eq_add_one.2 (by omega)
  have comparison := scanCompare_chars h ends
  rw [member, readMember, comparison, plain]

/-- A conjunction is read back as a member if its members are. -/
theorem readsAsMember_all (ne : cs ≠ []) (h : ∀ c ∈ cs, c.ReadsAsMember) :
    (all cs).ReadsAsMember := by
  intro fuel rest le _
  have written : ∀ rest, (all cs).member (all cs).chars ++ rest =
      '(' :: (memberChars andWord cs ++ ')' :: rest) := by
    simp [member, chars, andWord]
  have length := congrArg List.length (written [])
  simp only [List.append_nil, List.length_cons, List.length_append, List.length_nil] at length
  obtain ⟨fuel, rfl⟩ : ∃ n, fuel = n + 2 := ⟨fuel - 2, by omega⟩
  have members := readAll_memberChars ne h fuel (by omega) (ends_paren rest)
  have inner := readAny_last members ((ends_paren rest).dropPrefix? _)
  rw [written, plain]
  exact readMember_paren inner

/-- A disjunction is read back as a member if its members are. -/
theorem readsAsMember_any (ne : cs ≠ []) (h : ∀ c ∈ cs, c.ReadsAsMember) :
    (any cs).ReadsAsMember := by
  intro fuel rest le _
  have written : ∀ rest, (any cs).member (any cs).chars ++ rest =
      '(' :: (memberChars orWord cs ++ ')' :: rest) := by
    simp [member, chars, orWord]
  have length := congrArg List.length (written [])
  simp only [List.append_nil, List.length_cons, List.length_append, List.length_nil] at length
  obtain ⟨fuel, rfl⟩ : ∃ n, fuel = n + 1 := Nat.exists_eq_add_one.2 (by omega)
  have inner := readAny_memberChars ne h fuel (by omega) (ends_paren rest)
  rw [written, plain]
  exact readMember_paren inner

end

mutual

/-- **A legible condition is read back as a member.** -/
theorem readsAsMember : ∀ c : Condition, c.IsLegible → c.ReadsAsMember
  | .compare _ _ _, h => readsAsMember_compare h
  | .all cs, h => readsAsMember_all h.all.1 (membersRead cs h.all.2)
  | .any cs, h => readsAsMember_any h.any.1 (membersRead cs h.any.2)

/-- Every member of a list of legible conditions is read back. -/
theorem membersRead : ∀ cs : List Condition, (∀ c ∈ cs, c.IsLegible) →
    ∀ c ∈ cs, c.ReadsAsMember
  | [], _ => fun _ mem => nomatch mem
  | c :: cs, h => by
      obtain ⟨first, others⟩ := List.forall_mem_cons.1 h
      exact List.forall_mem_cons.2 ⟨readsAsMember c first, membersRead cs others⟩

end

/-- The whole condition stands without parentheses. -/
theorem exists_readAny {c : Condition} (h : c.IsLegible) {fuel : Nat} {rest : List Char}
    (le : 3 * c.chars.length + 2 < fuel) (ends : Ends rest) :
    ∃ ds, readAny fuel (c.chars ++ rest) = some (ds, rest) ∧ joined .any ds = c.plain := by
  obtain ⟨fuel, rfl⟩ : ∃ n, fuel = n + 2 := ⟨fuel - 2, by omega⟩
  match c with
  | .compare sign left right =>
    have only := readsAsMember_compare h fuel rest (by rw [member]; omega) ends.endsTerm
    exact ⟨_, readAny_last (readAll_last only (ends.dropPrefix? _)) (ends.dropPrefix? _), rfl⟩
  | .all cs =>
    have members := readAll_memberChars h.all.1 (membersRead cs h.all.2) (fuel + 1)
      (by rw [chars] at le; rw [andWord]; omega) ends
    exact ⟨_, readAny_last members (ends.dropPrefix? _), rfl⟩
  | .any cs =>
    have alternatives := readAny_memberChars h.any.1 (membersRead cs h.any.2) (fuel + 2)
      (by rw [chars] at le; rw [orWord]; omega) ends
    exact ⟨_, alternatives, rfl⟩

/-- **A written condition is read back**, up to connectives with one member, in front of a closing
parenthesis or the end. -/
theorem read_chars {c : Condition} (h : c.IsLegible) {rest : List Char} (ends : Ends rest) :
    read (c.chars ++ rest) = some (c.plain, rest) := by
  have enough : 3 * c.chars.length + 2 < 3 * (c.chars ++ rest).length + 3 := by
    rw [List.length_append]
    omega
  obtain ⟨ds, found, same⟩ := exists_readAny h enough ends
  rw [read, found, ← same]
  rfl

end Condition
end Sparql
end DateFacet
