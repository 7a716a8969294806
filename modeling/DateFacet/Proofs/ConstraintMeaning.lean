/-
# What the constraint of a range asks for

The constraint of a range is a pattern, and `Pattern.solutions` says what a pattern asks for.  The
two kinds of constraint are looked at apart:

| class | what is bound |
| --- | --- |
| start and end | the entities whose extent, or exact date, meets the range |
| any other | the dates in the range |

Both come down to the conditions on a value (`within_holds`) and on an extent (`overlaps_holds`),
in which an open side has no condition.  The instants in conditions are literals, which have their
instants for values because written instants are read back (`Instant.ofText_text`).

The overlap compares the start of an extent with the stop of the range, and the other way around.
That such an extent shares an instant with the range needs the order of the range
(`meets_iff_exists`).
-/

import DateFacet.Constraint
import DateFacet.Proofs.Chronology
import DateFacet.Proofs.RoundTrip
import DateFacet.Proofs.Solutions

namespace DateFacet

open Sparql

namespace Sparql

/-- The literal of an instant has the instant for its value. -/
@[simp] theorem Literal.value_literal {N : Type} (t : Instant) :
    (t.literal.value : Value N) = .instant t := by
  rw [Literal.value, Literal.instant?, Instant.literal, if_pos rfl, Instant.ofText_text]
  rfl

/-- Different suffixes give different variables. -/
theorem Variable.suffixed_ne (v : Variable) {s t : String} (h : s ≠ t) :
    v.suffixed s ≠ v.suffixed t := by
  intro eq
  have chars := congrArg (fun u : Variable => u.name.toList) eq
  simp only [Variable.suffixed, String.toList_append, List.append_cancel_left_eq] at chars
  exact h (String.toList_injective chars)

/-! ## Entities and their dates -/

variable {N : Type}

/-- The triples that give an entity a date for each variable. -/
def dateTriples (subject : Variable) (dates : List (Variable × Iri)) : List Triple :=
  dates.map fun d => ⟨.variable subject, .iri d.2, .variable d.1⟩

/-- The solution that binds the subject to an entity and some variables to dates. -/
def dated (subject : Variable) (n : N) (vs : List Variable) (date : Variable → Instant) :
    Solution N := fun v =>
  if v = subject then some (.node n) else if v ∈ vs then some (.instant (date v)) else none

section

variable {subject : Variable} {n : N} {vs : List Variable} {date : Variable → Instant}

/-- The subject is bound to the entity. -/
theorem dated_subject : dated subject n vs date subject = some (.node n) := if_pos rfl

/-- Another variable among the given ones is bound to its date. -/
theorem dated_date {v : Variable} (fresh : subject ∉ vs) (mem : v ∈ vs) :
    dated subject n vs date v = some (.instant (date v)) := by
  have ne : v ≠ subject := fun h => fresh (h ▸ mem)
  rw [dated, if_neg ne, if_pos mem]

/-- The subject and the given variables are bound, and no others. -/
theorem isSome_dated (v : Variable) :
    (dated subject n vs date v).isSome ↔ v = subject ∨ v ∈ vs := by
  rw [dated]
  split
  · next h => exact iff_of_true rfl (.inl h)
  · next ne =>
    rw [or_iff_right ne]
    split
    · next mem => exact iff_of_true rfl mem
    · next out => exact iff_of_false Bool.false_ne_true out

/-- A solution that binds an entity, its dates and nothing else. -/
theorem eq_dated {μ : Solution N} (bound : ∀ v, (μ v).isSome ↔ v = subject ∨ v ∈ vs)
    (hn : μ subject = some (.node n)) (hdate : ∀ v ∈ vs, μ v = some (.instant (date v))) :
    μ = dated subject n vs date := by
  funext v
  rw [dated]
  split
  · next h => rw [h, hn]
  · next ne =>
    split
    · next mem => exact hdate v mem
    · next out =>
      rw [← Option.not_isSome_iff_eq_none, bound]
      exact not_or_intro ne out

end

/-- The variables of the triples are the subject and those of its dates. -/
theorem mem_tripleVariables_dateTriples {subject v : Variable} {dates : List (Variable × Iri)}
    (ne : dates ≠ []) : v ∈ Pattern.tripleVariables (dateTriples subject dates) ↔
      v = subject ∨ v ∈ dates.map Prod.fst := by
  have each : v ∈ Pattern.tripleVariables (dateTriples subject dates) ↔
      ∃ d ∈ dates, v = subject ∨ v = d.1 := by
    simp only [Pattern.tripleVariables, dateTriples, List.mem_filterMap, List.mem_flatMap,
      List.mem_map]
    constructor
    · rintro ⟨term, ⟨_, ⟨d, hd, rfl⟩, hterm⟩, hv⟩
      refine ⟨d, hd, ?_⟩
      simp only [Triple.terms, List.mem_cons, List.not_mem_nil, or_false] at hterm
      rcases hterm with rfl | rfl | rfl
      · exact .inl (Option.some.inj hv).symm
      · cases hv
      · exact .inr (Option.some.inj hv).symm
    · rintro ⟨d, hd, rfl | rfl⟩
      · exact ⟨_, ⟨_, ⟨d, hd, rfl⟩, List.mem_cons_self⟩, rfl⟩
      · exact ⟨.variable d.1, ⟨_, ⟨d, hd, rfl⟩, by simp [Triple.terms]⟩, rfl⟩
  obtain ⟨first, hfirst⟩ := List.exists_mem_of_ne_nil dates ne
  rw [each, List.mem_map]
  constructor
  · rintro ⟨d, hd, rfl | rfl⟩
    · exact .inl rfl
    · exact .inr ⟨d, hd, rfl⟩
  · rintro (rfl | ⟨d, hd, rfl⟩)
    · exact ⟨first, hfirst, .inl rfl⟩
    · exact ⟨d, hd, .inr rfl⟩

variable [DecidableEq N] {w : World N} {μ : Solution N}

/-- A comparison with an instant is one with the instant that the variable is bound to. -/
theorem Condition.holds_compareWith {v : Variable} {d : Instant} (h : μ v = some (.instant d))
    (sign : Comparison) (t : Instant) :
    (Range.compareWith v sign t).holds w μ = sign.ofInstants d t := by
  have right : w.graph.value? μ (.literal t.literal) = some (.instant t) := by
    rw [Graph.value?, World.graph_literal, Literal.value_literal]
  have left : w.graph.value? μ (.variable v) = some (.instant d) := h
  rw [Condition.holds, Graph.accepts, Range.compareWith, Condition.eval, Graph.relates, left, right]
  exact w.graph_compares sign d t

/-- **The solutions of the triples** bind an entity and one of its dates for each variable. -/
theorem mem_solutions_dateTriples {subject : Variable} {dates : List (Variable × Iri)}
    (ne : dates ≠ []) (fresh : subject ∉ dates.map Prod.fst) :
    μ ∈ (Pattern.basic (dateTriples subject dates)).solutions w ↔
      ∃ n date, (∀ d ∈ dates, w.Fact n (w.node d.2) (date d.1)) ∧
        μ = dated subject n (dates.map Prod.fst) date := by
  simp only [Pattern.solutions, Graph.mem_answers_basic, mem_tripleVariables_dateTriples ne]
  constructor
  · rintro ⟨bound, facts⟩
    have matched : ∀ d ∈ dates, ∃ n t, μ subject = some (.node n) ∧ μ d.1 = some (.instant t) ∧
        w.Fact n (w.node d.2) t := by
      intro d hd
      obtain ⟨n, _, t, hn, ⟨⟩, ht, fact⟩ := World.holds_iff.1 (facts _ (List.mem_map_of_mem hd))
      exact ⟨n, t, hn, ht, fact⟩
    -- One triple is there to bind the subject; the others are then about the same entity.
    obtain ⟨first, hfirst⟩ := List.exists_mem_of_ne_nil dates ne
    obtain ⟨n, t, hn, -⟩ := matched first hfirst
    have hdate : ∀ v, ∃ t, v ∈ dates.map Prod.fst → μ v = some (.instant t) := by
      intro v
      by_cases hv : v ∈ dates.map Prod.fst
      · obtain ⟨d, hd, rfl⟩ := List.mem_map.1 hv
        obtain ⟨-, t, -, ht, -⟩ := matched d hd
        exact ⟨t, fun _ => ht⟩
      · exact ⟨t, fun h => absurd h hv⟩
    choose date hdate using hdate
    refine ⟨n, date, fun d hd => ?_, eq_dated bound hn hdate⟩
    obtain ⟨_, _, hn', ht', fact⟩ := matched d hd
    rw [hn] at hn'
    rw [hdate d.1 (List.mem_map_of_mem hd)] at ht'
    cases hn'
    cases ht'
    exact fact
  · rintro ⟨n, date, facts, rfl⟩
    refine ⟨isSome_dated, fun t ht => ?_⟩
    obtain ⟨d, hd, rfl⟩ := List.mem_map.1 ht
    exact World.holds_iff.2 ⟨n, w.node d.2, date d.1, dated_subject, rfl,
      dated_date fresh (List.mem_map_of_mem hd), facts d hd⟩

end Sparql

namespace Range

variable {N : Type} [DecidableEq N] {w : World N} {μ : Solution N}

/-- An extent from `first` to `last` begins before the range stops and ends after it starts. -/
def Meets (r : Range) (first last : Instant) : Prop :=
  (∀ stop ∈ r.stop, first ≤ stop) ∧ ∀ start ∈ r.start, start ≤ last

/-- **An extent meets a range exactly if they share an instant.** -/
theorem meets_iff_exists (r : Range) {first last : Instant} (h : first ≤ last) :
    r.Meets first last ↔ ∃ t, first ≤ t ∧ t ≤ last ∧ r.contains t = true := by
  constructor
  · rintro ⟨hstop, hstart⟩
    cases hs : r.start with
    | none =>
      exact ⟨first, le_rfl, h, (r.contains_iff first).2 ⟨by simp [hs], hstop⟩⟩
    | some start =>
      -- The later of the two starts is shared: it is before the stop of the range, by the order of
      -- the range or by `Meets`, and before the end of the extent for the same two reasons.
      refine ⟨max first start, le_max_left _ _, max_le h (hstart start hs),
        (r.contains_iff _).2 ⟨fun s hs' => ?_, fun stop hstop' => ?_⟩⟩
      · rw [hs] at hs'
        obtain rfl := Option.some.inj hs'
        exact le_max_right _ _
      · exact max_le (hstop stop hstop') (r.start_le_stop start hs stop hstop')
  · rintro ⟨t, hfirst, hlast, ht⟩
    obtain ⟨hstart, hstop⟩ := (r.contains_iff t).1 ht
    exact ⟨fun stop h => hfirst.trans (hstop stop h), fun start h => (hstart start h).trans hlast⟩

/-- A day meets a range exactly if it lies in it. -/
theorem meets_self (r : Range) (t : Instant) : r.Meets t t ↔ r.contains t = true := by
  rw [contains_iff, Meets, and_comm]

/-- **The conditions on a value** hold exactly if the value lies in the range. -/
theorem within_holds (r : Range) {v : Variable} {d : Instant} (h : μ v = some (.instant d)) :
    (∀ c ∈ r.within v, c.holds w μ = true) ↔ r.contains d = true := by
  rw [contains_iff, within]
  simp [Condition.holds_compareWith h, Comparison.ofInstants, or_imp, forall_and]

/-- A range has a condition on a value, for it is bounded. -/
theorem within_ne_nil (r : Range) (v : Variable) : r.within v ≠ [] := by
  rcases r.isBounded with h | h <;> obtain ⟨t, ht⟩ := Option.isSome_iff_exists.1 h <;>
    simp [within, ht]

/-- The conditions on a value are about no other variable. -/
theorem mem_terms_within (r : Range) (u v : Variable) :
    .variable u ∈ (r.within v).flatMap Condition.terms ↔ u = v := by
  have bounded := r.isBounded
  rw [within]
  cases start : r.start <;> cases stop : r.stop <;> simp_all [compareWith, Condition.terms]

/-- **The conditions on an extent** hold exactly if it meets the range. -/
theorem overlaps_holds (r : Range) {u v : Variable} {first last : Instant}
    (hu : μ u = some (.instant first)) (hv : μ v = some (.instant last)) :
    (∀ c ∈ r.overlaps u v, c.holds w μ = true) ↔ r.Meets first last := by
  rw [Meets, overlaps]
  simp [Condition.holds_compareWith hu, Condition.holds_compareWith hv, Comparison.ofInstants,
    or_imp, forall_and]

/-- **A filtered group** has the solutions of its triples for which the conditions hold. -/
theorem mem_solutions_filtered (triples : List Triple) (cs : List Condition) :
    μ ∈ (filtered triples cs).solutions w ↔
      μ ∈ (Pattern.basic triples).solutions w ∧ ∀ c ∈ cs, c.holds w μ = true := by
  have filters : List.filterMap Pattern.asFilter?
      (.basic triples :: ((Condition.all? cs).map Pattern.filter).toList) =
        (Condition.all? cs).toList := by
    cases Condition.all? cs <;> rfl
  have joined : w.graph.joined
      (.basic triples :: ((Condition.all? cs).map Pattern.filter).toList) =
        (Pattern.basic triples).solutions w := by
    cases Condition.all? cs <;> simp [Graph.joined, Pattern.isFilter, Pattern.solutions]
  rw [filtered, Pattern.solutions, Graph.mem_answers_group, filters, joined,
    ← Condition.all?_holds w μ cs]
  simp only [Option.mem_toList, Option.mem_def, Condition.holds]

/-- **Which entities a filtered group binds**: those that have dates for which the conditions
hold. -/
theorem exists_mem_solutions_filtered {subject : Variable} {dates : List (Variable × Iri)}
    (ne : dates ≠ []) (fresh : subject ∉ dates.map Prod.fst) (cs : List Condition) (x : Value N) :
    (∃ μ ∈ (filtered (dateTriples subject dates) cs).solutions w, μ subject = some x) ↔
      ∃ n, x = .node n ∧ ∃ date, (∀ d ∈ dates, w.Fact n (w.node d.2) (date d.1)) ∧
        ∀ c ∈ cs, c.holds w (dated subject n (dates.map Prod.fst) date) = true := by
  constructor
  · rintro ⟨μ, hμ, hx⟩
    obtain ⟨hfacts, hcs⟩ := (mem_solutions_filtered _ _).1 hμ
    obtain ⟨n, date, facts, rfl⟩ := (mem_solutions_dateTriples ne fresh).1 hfacts
    rw [dated_subject] at hx
    exact ⟨n, (Option.some.inj hx).symm, date, facts, hcs⟩
  · rintro ⟨n, rfl, date, facts, hcs⟩
    refine ⟨_, (mem_solutions_filtered _ _).2 ⟨?_, hcs⟩, dated_subject⟩
    exact (mem_solutions_dateTriples ne fresh).2 ⟨n, date, facts, rfl⟩

/-- **Which entities the overlap binds.** -/
theorem exists_mem_solutions_overlap (r : Range) {subject object : Variable}
    (fresh : ∀ suffix ∈ ["begin", "end", "exact"], subject ≠ object.suffixed suffix)
    (first last : Iri) (x : Value N) :
    (∃ μ ∈ (r.overlapPattern subject object first last).solutions w, μ subject = some x) ↔
      ∃ n, x = .node n ∧ ∃ b e, w.Fact n (w.node first) b ∧ w.Fact n (w.node last) e ∧
        r.Meets b e := by
  set u := object.suffixed "begin" with hu
  set v := object.suffixed "end" with hv
  have ne : v ≠ u := object.suffixed_ne (by decide)
  have hfresh : subject ∉ [u, v] := by
    simpa using ⟨fresh "begin" (by simp), fresh "end" (by simp)⟩
  have meets : ∀ n date, (∀ c ∈ r.overlaps u v, c.holds w (dated subject n [u, v] date) = true) ↔
      r.Meets (date u) (date v) := fun n date =>
    r.overlaps_holds (dated_date hfresh (by simp)) (dated_date hfresh (by simp))
  have bound : (∃ μ ∈ (filtered (dateTriples subject [(u, first), (v, last)])
      (r.overlaps u v)).solutions w, μ subject = some x) ↔ _ :=
    exists_mem_solutions_filtered (by simp) hfresh (r.overlaps u v) x
  refine bound.trans (exists_congr fun n => and_congr_right fun _ => ?_)
  constructor
  · rintro ⟨date, facts, hcs⟩
    exact ⟨date u, date v, facts (u, first) (by simp), facts (v, last) (by simp),
      (meets n date).1 hcs⟩
  · rintro ⟨b, e, hb, he, h⟩
    refine ⟨fun z => if z = u then b else e, ?_, (meets n _).2 ?_⟩
    · simp [ne, hb, he]
    · simpa [ne] using h

/-- **Which entities the exact date binds.** -/
theorem exists_mem_solutions_exact (r : Range) {subject object : Variable}
    (fresh : subject ≠ object.suffixed "exact") (exact : Iri) (x : Value N) :
    (∃ μ ∈ (r.exactPattern subject object exact).solutions w, μ subject = some x) ↔
      ∃ n, x = .node n ∧ ∃ d, w.Fact n (w.node exact) d ∧ r.contains d = true := by
  set v := object.suffixed "exact" with hv
  have hfresh : subject ∉ [v] := by simpa using fresh
  have within : ∀ n date, (∀ c ∈ r.within v, c.holds w (dated subject n [v] date) = true) ↔
      r.contains (date v) = true := fun n date =>
    r.within_holds (dated_date hfresh (by simp))
  have bound : (∃ μ ∈ (filtered (dateTriples subject [(v, exact)]) (r.within v)).solutions w,
      μ subject = some x) ↔ _ :=
    exists_mem_solutions_filtered (by simp) hfresh (r.within v) x
  refine bound.trans (exists_congr fun n => and_congr_right fun _ => ?_)
  constructor
  · rintro ⟨date, facts, hcs⟩
    exact ⟨date v, facts (v, exact) (by simp), (within n date).1 hcs⟩
  · rintro ⟨d, hd, h⟩
    exact ⟨fun _ => d, by simpa using hd, (within n _).2 h⟩

/-! ## The compiled patterns -/

/-- **The pattern of a class with an extent**: the overlap, or a union of it and the exact date. -/
theorem patterns_of_extent (r : Range) {subjectName objectName beginText endText : String}
    {exactText : Option String} {subject object : Variable} {first last : Iri} {exact : Option Iri}
    (hsubject : Variable.ofText subjectName = .ok subject)
    (hobject : Variable.ofText objectName = .ok object) (hfirst : Iri.ofText beginText = .ok first)
    (hlast : Iri.ofText endText = .ok last) (hexact : exactText.mapM Iri.ofText = .ok exact) :
    r.patterns ⟨some beginText, some endText, exactText⟩ subjectName objectName =
      .ok [match exact with
        | some exact => .union [r.overlapPattern subject object first last,
            r.exactPattern subject object exact]
        | none => r.overlapPattern subject object first last] := by
  rw [patterns, requireBound_range, hsubject, hobject]
  cases exactText with
  | none =>
    obtain rfl : none = exact := Except.ok.inj hexact
    simp only [hfirst, hlast]
    rfl
  | some text =>
    cases h : Iri.ofText text with
    | error e => simp [h] at hexact
    | ok i =>
      obtain rfl : some i = exact := by simpa [h] using hexact
      simp only [hfirst, hlast, h]
      rfl

/-- **The pattern of a class without an extent** looks at no property. -/
theorem patterns_of_no_extent (r : Range) {p : Properties} {subjectName objectName : String}
    {subject object : Variable} (hsubject : Variable.ofText subjectName = .ok subject)
    (hobject : Variable.ofText objectName = .ok object)
    (lacks : p.beginDate = none ∨ p.endDate = none) :
    r.patterns p subjectName objectName = .ok [r.directPattern object] := by
  rw [patterns, requireBound_range, hsubject, hobject]
  rcases p with ⟨_ | first, _ | last, exact⟩
  · rfl
  · rfl
  · rfl
  · simp at lacks

/-- **The constraint of a class with an extent binds the entities that meet the range.**  It is one
pattern.  Its subject is bound to the entities with a start and an end that meet the range, and
those with an exact date in the range, if the class has one.  An extent meets the range exactly
if it shares an instant with it, and one day meets it exactly if the day lies in it. -/
theorem patterns_bind_iff_meets {N : Type} [DecidableEq N] (w : World N) (r : Range)
    {subjectName objectName beginText endText : String} {exactText : Option String}
    {subject object : Variable} {first last : Iri} {exact : Option Iri}
    (hsubject : Variable.ofText subjectName = .ok subject)
    (hobject : Variable.ofText objectName = .ok object) (hfirst : Iri.ofText beginText = .ok first)
    (hlast : Iri.ofText endText = .ok last) (hexact : exactText.mapM Iri.ofText = .ok exact)
    (fresh : ∀ suffix ∈ ["begin", "end", "exact"], subject ≠ object.suffixed suffix) :
    (∃ p, r.patterns ⟨some beginText, some endText, exactText⟩ subjectName objectName = .ok [p] ∧
      ∀ x, (∃ μ ∈ p.solutions w, μ subject = some x) ↔ ∃ n, x = .node n ∧
        ((∃ b e, w.Fact n (w.node first) b ∧ w.Fact n (w.node last) e ∧ r.Meets b e) ∨
          ∃ i ∈ exact, ∃ d, w.Fact n (w.node i) d ∧ r.contains d = true)) ∧
      (∀ b e, b ≤ e → (r.Meets b e ↔ ∃ t, b ≤ t ∧ t ≤ e ∧ r.contains t = true)) ∧
      ∀ d, r.Meets d d ↔ r.contains d = true := by
  refine ⟨⟨_, r.patterns_of_extent hsubject hobject hfirst hlast hexact, fun x => ?_⟩,
    fun b e h => r.meets_iff_exists h, r.meets_self⟩
  have overlap := r.exists_mem_solutions_overlap (w := w) fresh first last x
  cases exact with
  | none => simpa using overlap
  | some i =>
    have exact := r.exists_mem_solutions_exact (w := w) (fresh "exact" (by simp)) i x
    have union : (∃ μ ∈ (Pattern.union [r.overlapPattern subject object first last,
          r.exactPattern subject object i]).solutions w, μ subject = some x) ↔
        (∃ μ ∈ (r.overlapPattern subject object first last).solutions w, μ subject = some x) ∨
          ∃ μ ∈ (r.exactPattern subject object i).solutions w, μ subject = some x := by
      simp only [Pattern.solutions, Graph.mem_answers_union, List.mem_cons, List.not_mem_nil, or_false,
        exists_eq_left, or_and_right, exists_or]
    refine union.trans ((or_congr overlap exact).trans ?_)
    simp only [Option.mem_def, Option.some.injEq, exists_eq_left', ← exists_or, ← and_or_left]

/-- A world with one entity, which was made in 1200 and lost in 1900. -/
def vaseWorld : World String where
  node i := i.text
  Fact n property t := n = "vase" ∧ (property = "ex:made" ∧ t.year = 1200 ∨
    property = "ex:lost" ∧ t.year = 1900)

/-- The range from an instant on. -/
def since (t : Instant) : Range := ⟨some t, none, t.text, "", bounded_start t, ordered_start t⟩

/-- The hypotheses of `patterns_bind_iff_meets` hold of names with marks and of prefixed names, and
the vase is bound. -/
theorem patterns_bind_iff_meets_vase :
    ∃ p, (since (.midnight 1850 1 1 (by decide) (by decide) (by decide))).patterns
        ⟨some "ex:made", some " ex:lost ", none⟩ "?it" "$date" = .ok [p] ∧
      ∃ μ ∈ p.solutions vaseWorld, μ ⟨"it"⟩ = some (.node "vase") := by
  have made : Iri.ofText "ex:made" = .ok ⟨"ex:made", by decide +kernel⟩ := by decide +kernel
  have lost : Iri.ofText " ex:lost " = .ok ⟨"ex:lost", by decide +kernel⟩ := by decide +kernel
  obtain ⟨⟨p, hp, bound⟩, -⟩ := patterns_bind_iff_meets vaseWorld (since _)
    (by decide +kernel : Variable.ofText "?it" = .ok ⟨"it"⟩)
    (by decide +kernel : Variable.ofText "$date" = .ok ⟨"date"⟩) made lost
    (rfl : Option.mapM Iri.ofText none = .ok none) (by decide +kernel)
  refine ⟨p, hp, (bound _).2 ⟨"vase", rfl, .inl ⟨.midnight 1200 1 1 (by decide) (by decide)
    (by decide), .midnight 1900 1 1 (by decide) (by decide) (by decide), ?_, ?_, ?_⟩⟩⟩
  · exact ⟨rfl, .inl ⟨rfl, rfl⟩⟩
  · exact ⟨rfl, .inr ⟨rfl, rfl⟩⟩
  · refine ⟨nofun, fun start h => ?_⟩
    obtain rfl := Option.some.inj h
    decide

/-- **A filter on the value alone keeps the values in the range.**  A class without a start or
without an end has one filter for its pattern.  The filter is about the object variable only, and
an instant passes it exactly if it lies in the range. -/
theorem patterns_filter_iff_contains (r : Range) {p : Properties} {subjectName objectName : String}
    {subject object : Variable} (hsubject : Variable.ofText subjectName = .ok subject)
    (hobject : Variable.ofText objectName = .ok object)
    (lacks : p.beginDate = none ∨ p.endDate = none) :
    ∃ c, r.patterns p subjectName objectName = .ok [.filter c] ∧
      (∀ v, .variable v ∈ c.terms ↔ v = object) ∧
      ∀ {N : Type} [DecidableEq N] (w : World N) (μ : Solution N) (t : Instant),
        μ object = some (.instant t) → (c.holds w μ = true ↔ r.contains t = true) := by
  obtain ⟨c, hc, terms⟩ := Condition.exists_all? (r.within_ne_nil object)
  refine ⟨c, ?_, fun v => ?_, fun w μ t ht => ?_⟩
  · rw [r.patterns_of_no_extent hsubject hobject lacks, directPattern, hc]
    rfl
  · rw [terms, mem_terms_within]
  · have all := Condition.all?_holds w μ (r.within object)
    rw [hc] at all
    rw [← r.within_holds ht, ← all]
    simp

/-- The hypotheses of `patterns_filter_iff_contains` hold of a class with a malformed start and no
end, and the last second of 1849 does not pass. -/
theorem patterns_filter_iff_contains_1849 :
    ∃ c, (since (.midnight 1850 1 1 (by decide) (by decide) (by decide))).patterns
        ⟨some "<", none, none⟩ "it" "date" = .ok [.filter c] ∧
      ∀ (w : World String) (μ : Solution String), μ ⟨"date"⟩ =
        some (.instant (Instant.endOfYear
          (.midnight 1849 1 1 (by decide) (by decide) (by decide)))) →
        c.holds w μ = false := by
  obtain ⟨c, hc, -, passes⟩ := patterns_filter_iff_contains (since _)
    (by decide +kernel : Variable.ofText "it" = .ok ⟨"it"⟩)
    (by decide +kernel : Variable.ofText "date" = .ok ⟨"date"⟩)
    (.inr rfl : (⟨some "<", none, none⟩ : Properties).beginDate = none ∨ _)
  refine ⟨c, hc, fun w μ h => ?_⟩
  rw [← Bool.not_eq_true, passes w μ _ h]
  decide

end Range
end DateFacet
