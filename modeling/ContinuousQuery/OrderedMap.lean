/-!
Finite maps from names to values, held in ascending order of their names. The
order makes the representation canonical: two maps with the same look-ups are
the same map, so they also list and print alike. Names are ordered by code point.
-/

namespace ContinuousQuery

/-- A map whose entries ascend strictly by name. -/
structure OrderedMap (α : Type) where
  entries : List (String × α)
  ascending : entries.Pairwise (fun earlier later => earlier.1 < later.1)

namespace OrderedMap

variable {α : Type}

instance [DecidableEq α] : DecidableEq (OrderedMap α) := fun left right =>
  if same : left.entries = right.entries then
    isTrue (by cases left; cases right; cases same; rfl)
  else
    isFalse (fun equal => same (congrArg entries equal))

instance [Repr α] : Repr (OrderedMap α) := ⟨fun map precedence => reprPrec map.entries precedence⟩

def empty : OrderedMap α := ⟨[], .nil⟩

instance : EmptyCollection (OrderedMap α) := ⟨empty⟩
instance : Inhabited (OrderedMap α) := ⟨empty⟩

def find (wanted : String) : List (String × α) → Option α
  | [] => none
  | (name, value) :: rest => if wanted = name then some value else find wanted rest

/-- Places an entry before the first greater name, in place of an entry of its own name. -/
def place (name : String) (value : α) : List (String × α) → List (String × α)
  | [] => [(name, value)]
  | (other, held) :: rest =>
    if name < other then (name, value) :: (other, held) :: rest
    else if name = other then (name, value) :: rest
    else (other, held) :: place name value rest

theorem mem_place {name : String} {value : α} {entry : String × α} {entries : List (String × α)}
    (member : entry ∈ place name value entries) : entry = (name, value) ∨ entry ∈ entries := by
  induction entries with
  | nil => simpa [place] using member
  | cons head rest ih =>
    obtain ⟨other, held⟩ := head
    simp only [place] at member
    split at member
    · simpa using member
    · split at member
      · rcases List.mem_cons.mp member with here | later
        · exact .inl here
        · exact .inr (List.mem_cons_of_mem _ later)
      · rcases List.mem_cons.mp member with here | later
        · exact .inr (here ▸ List.mem_cons_self)
        · exact (ih later).imp id (List.mem_cons_of_mem _)

theorem pairwise_place (name : String) (value : α) {entries : List (String × α)}
    (ascending : entries.Pairwise (fun earlier later => earlier.1 < later.1)) :
    (place name value entries).Pairwise (fun earlier later => earlier.1 < later.1) := by
  induction entries with
  | nil => simp [place]
  | cons head rest ih =>
    obtain ⟨other, held⟩ := head
    obtain ⟨above, ordered⟩ := List.pairwise_cons.mp ascending
    simp only [place]
    split
    next less =>
      refine List.pairwise_cons.mpr ⟨fun entry member => ?_, ascending⟩
      rcases List.mem_cons.mp member with here | later
      · exact here ▸ less
      · exact String.lt_trans less (above entry later)
    next notLess =>
      split
      next same =>
        exact List.pairwise_cons.mpr ⟨fun entry member => same ▸ above entry member, ordered⟩
      next different =>
        refine List.pairwise_cons.mpr ⟨fun entry member => ?_, ih ordered⟩
        rcases mem_place member with here | later
        · rw [here]
          refine Decidable.byContradiction fun notGreater => different ?_
          exact String.le_antisymm (String.not_lt.mp notGreater) (String.not_lt.mp notLess)
        · exact above entry later

def insert (map : OrderedMap α) (name : String) (value : α) : OrderedMap α :=
  ⟨place name value map.entries, pairwise_place name value map.ascending⟩

def ofList (pairs : List (String × α)) : OrderedMap α :=
  pairs.foldl (fun map pair => map.insert pair.1 pair.2) empty

def get? (map : OrderedMap α) (name : String) : Option α := find name map.entries

def contains (map : OrderedMap α) (name : String) : Bool := (map.get? name).isSome

def names (map : OrderedMap α) : List String := map.entries.map (·.1)

def values (map : OrderedMap α) : List α := map.entries.map (·.2)

def size (map : OrderedMap α) : Nat := map.entries.length

def isEmpty (map : OrderedMap α) : Bool := map.entries.isEmpty

def filterNames (map : OrderedMap α) (keep : String → Bool) : OrderedMap α :=
  ⟨map.entries.filter (fun entry => keep entry.1), map.ascending.filter _⟩

@[simp] theorem get?_empty (name : String) : (empty : OrderedMap α).get? name = none := rfl

theorem find_place (name wanted : String) (value : α) (entries : List (String × α)) :
    find wanted (place name value entries) =
      if wanted = name then some value else find wanted entries := by
  induction entries with
  | nil => simp [place, find]
  | cons head rest ih =>
    obtain ⟨other, held⟩ := head
    simp only [place]
    split
    · simp [find]
    · split
      next same => subst same; by_cases here : wanted = name <;> simp [find, here]
      next different =>
        by_cases here : wanted = other
        · simp [find, here, Ne.symm different]
        · simp [find, here, ih]

theorem get?_insert (map : OrderedMap α) (name wanted : String) (value : α) :
    (map.insert name value).get? wanted = if wanted = name then some value else map.get? wanted :=
  find_place name wanted value map.entries

@[simp] theorem get?_insert_self (map : OrderedMap α) (name : String) (value : α) :
    (map.insert name value).get? name = some value := by simp [get?_insert]

theorem get?_insert_of_ne (map : OrderedMap α) {name wanted : String} (value : α)
    (different : wanted ≠ name) : (map.insert name value).get? wanted = map.get? wanted := by
  simp [get?_insert, different]

end OrderedMap

end ContinuousQuery
