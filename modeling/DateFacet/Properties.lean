/-
# The date properties of a class

A class of facts may carry a property for the start of a fact, one for its end, and one for a
single exact date.  A catalogue keeps the properties of classes by the name of the class.

The view of a catalogue is `get?`: what `insert`, `erase` and `resolve` have to do with it is said
by the lemmas beside them.
-/

namespace DateFacet

/-- The texts of the date properties that are configured for a class. -/
structure Properties where
  beginDate : Option String
  endDate : Option String
  exactDate : Option String
  deriving DecidableEq

namespace Properties

/-- No date property. -/
def empty : Properties := ⟨none, none, none⟩

/-- Facts of the class extend over time: they have both a start and an end. -/
def hasExtent (p : Properties) : Bool := p.beginDate.isSome && p.endDate.isSome

end Properties

/-- The properties of classes; no class has two entries. -/
structure Catalogue where
  entries : List (String × Properties)
  nodup : (entries.map Prod.fst).Nodup

namespace Catalogue

/-- A catalogue of no class. -/
def empty : Catalogue := ⟨[], by simp⟩

/-- The properties of a class. -/
def get? (c : Catalogue) (name : String) : Option Properties := c.entries.lookup name

/-- The entries of all other classes. -/
def others (name : String) (entries : List (String × Properties)) : List (String × Properties) :=
  entries.filter fun entry => entry.1 ≠ name

/-- The other classes of a catalogue still have one entry each. -/
theorem nodup_others (c : Catalogue) (name : String) :
    ((others name c.entries).map Prod.fst).Nodup :=
  c.nodup.sublist (List.filter_sublist.map _)

/-- The catalogue without a class. -/
def erase (c : Catalogue) (name : String) : Catalogue :=
  ⟨others name c.entries, c.nodup_others name⟩

/-- The catalogue in which a class has these properties and no others. -/
def insert (c : Catalogue) (name : String) (p : Properties) : Catalogue :=
  ⟨(name, p) :: others name c.entries, by
    rw [List.map_cons, List.nodup_cons]
    refine ⟨fun h => ?_, c.nodup_others name⟩
    obtain ⟨entry, mem, rfl⟩ := List.mem_map.1 h
    simpa using (List.mem_filter.1 mem).2⟩

/-- The number of classes. -/
def size (c : Catalogue) : Nat := c.entries.length

/-- The catalogue of a list of classes, where the last entry of a class counts. -/
def ofList (entries : List (String × Properties)) : Catalogue :=
  entries.foldl (fun c entry => c.insert entry.1 entry.2) empty

/-- One property of a class, if the catalogue knows the class and the class has the property. -/
def property? (c : Catalogue) (name : String) (pick : Properties → Option String) :
    Option String :=
  (c.get? name).bind pick

/-- The properties of a class, each of them looked up on its own. -/
def resolve (c : Catalogue) (name : String) : Properties where
  beginDate := c.property? name Properties.beginDate
  endDate := c.property? name Properties.endDate
  exactDate := c.property? name Properties.exactDate

/-- **Separate lookups give the properties of a class back**, none of them if the catalogue does
not know it. -/
theorem resolve_eq (c : Catalogue) (name : String) :
    c.resolve name = (c.get? name).getD .empty := by
  simp only [resolve, property?]
  cases c.get? name <;> rfl

/-- Only the class itself is left out among the others. -/
theorem lookup_others (name other : String) (entries : List (String × Properties)) :
    (others name entries).lookup other =
      if other = name then none else entries.lookup other := by
  induction entries with
  | nil => simp [others]
  | cons entry entries ih =>
    obtain ⟨key, p⟩ := entry
    rw [others] at ih
    by_cases hk : key = name <;> simp_all [others, List.lookup_cons]
    all_goals grind

/-- **An erased class is gone, and every other one keeps its properties.** -/
@[simp] theorem get?_erase (c : Catalogue) (name other : String) :
    (c.erase name).get? other = if other = name then none else c.get? other :=
  lookup_others name other c.entries

/-- **An inserted class has its new properties, and every other one keeps its own.** -/
@[simp] theorem get?_insert (c : Catalogue) (name other : String) (p : Properties) :
    (c.insert name p).get? other = if other = name then some p else c.get? other := by
  rw [get?, insert, List.lookup_cons, lookup_others]
  by_cases h : other = name
  · simp [h]
  · rw [beq_eq_false_iff_ne.2 h, if_neg h, if_neg h]; rfl

/-- Nothing is configured before the first class. -/
@[simp] theorem get?_empty (name : String) : empty.get? name = none := rfl

end Catalogue
end DateFacet
