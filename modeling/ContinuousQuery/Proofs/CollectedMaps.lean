import ContinuousQuery.Proofs.OrderedMaps
import Mathlib.Data.List.Sort
import Mathlib.Data.String.Basic

/-!
Other ways to fill a map. A map may be collected from all of its pairs at once: they are sorted by
name, and of the pairs with one name the last one is kept. That the sort is stable makes this the
same as inserting the pairs one by one. An insertion may also give back the value that it
replaces, which it meets in the pass that finds the place of the name.
-/

namespace ContinuousQuery

namespace OrderedMap

variable {α : Type}

/-- Keeps the last pair of each run of pairs with the same name. -/
def lastOfRuns : List (String × α) → List (String × α)
  | [] => []
  | [pair] => [pair]
  | pair :: next :: rest =>
    if pair.1 = next.1 then lastOfRuns (next :: rest) else pair :: lastOfRuns (next :: rest)

def precedes (earlier later : String × α) : Bool := earlier.1 ≤ later.1

def sortByName (pairs : List (String × α)) : List (String × α) := pairs.mergeSort precedes

theorem lastOfRuns_subset (pairs : List (String × α)) : lastOfRuns pairs ⊆ pairs := by
  induction pairs using lastOfRuns.induct with
  | case1 => exact List.Subset.refl _
  | case2 pair => exact List.Subset.refl _
  | case3 pair next rest same ih =>
    rw [lastOfRuns, if_pos same]
    exact List.subset_cons_of_subset pair ih
  | case4 pair next rest different ih =>
    rw [lastOfRuns, if_neg different]
    exact List.cons_subset_cons pair ih

theorem ascending_lastOfRuns {pairs : List (String × α)}
    (ordered : pairs.Pairwise (fun earlier later => earlier.1 ≤ later.1)) :
    (lastOfRuns pairs).Pairwise (fun earlier later => earlier.1 < later.1) := by
  induction pairs using lastOfRuns.induct with
  | case1 => exact .nil
  | case2 pair => exact List.pairwise_singleton _ _
  | case3 pair next rest same ih =>
    rw [lastOfRuns, if_pos same]
    exact ih ordered.of_cons
  | case4 pair next rest different ih =>
    obtain ⟨pairBelow, restOrdered⟩ := List.pairwise_cons.mp ordered
    obtain ⟨nextBelow, -⟩ := List.pairwise_cons.mp restOrdered
    have less : pair.1 < next.1 := lt_of_le_of_ne (pairBelow next List.mem_cons_self) different
    rw [lastOfRuns, if_neg different]
    refine List.pairwise_cons.mpr ⟨fun entry member => ?_, ih restOrdered⟩
    rcases List.mem_cons.mp (lastOfRuns_subset _ member) with here | later
    · exact here ▸ less
    · exact lt_of_lt_of_le less (nextBelow entry later)

theorem latest?_lastOfRuns (pairs : List (String × α)) (name : String) :
    latest? (lastOfRuns pairs) name = latest? pairs name := by
  induction pairs using lastOfRuns.induct with
  | case1 => rfl
  | case2 pair => rfl
  | case3 pair next rest same ih =>
    rw [lastOfRuns, if_pos same, ih, latest?_cons pair]
    by_cases here : pair.1 = name
    · have found : (latest? (next :: rest) name).isSome :=
        isSome_latest?_iff.mpr (List.mem_cons.mpr (.inl (here.symm.trans same)))
      rw [Option.or_of_isSome found]
    · rw [if_neg here, Option.or_none]
  | case4 pair next rest different ih =>
    rw [lastOfRuns, if_neg different, latest?_cons, latest?_cons, ih]

theorem precedes_trans (first second third : String × α) (lower : precedes first second = true)
    (upper : precedes second third = true) : precedes first third = true :=
  decide_eq_true (le_trans (of_decide_eq_true lower) (of_decide_eq_true upper))

theorem precedes_total (first second : String × α) :
    (precedes first second || precedes second first) = true := by
  rw [Bool.or_eq_true, precedes, precedes, decide_eq_true_iff, decide_eq_true_iff]
  exact le_total first.1 second.1

theorem ordered_sortByName (pairs : List (String × α)) :
    (sortByName pairs).Pairwise (fun earlier later => earlier.1 ≤ later.1) :=
  (List.pairwise_mergeSort precedes_trans precedes_total pairs).imp of_decide_eq_true

/-- The sort is stable: the pairs of one name are a part of the list that is in order already. -/
theorem filter_sortByName (pairs : List (String × α)) (name : String) :
    (sortByName pairs).filter (fun pair => pair.1 = name) =
      pairs.filter (fun pair => pair.1 = name) := by
  let named (pair : String × α) : Bool := pair.1 = name
  have inOrder : (pairs.filter named).Pairwise (fun earlier later => precedes earlier later) := by
    apply List.pairwise_of_forall_mem_list
    intro earlier first later second
    have same : earlier.1 = later.1 := (of_decide_eq_true (List.mem_filter.mp first).2).trans
      (of_decide_eq_true (List.mem_filter.mp second).2).symm
    exact decide_eq_true same.le
  have part : (pairs.filter named).Sublist (sortByName pairs) :=
    List.sublist_mergeSort precedes_trans precedes_total inOrder List.filter_sublist
  have samePairs : ((sortByName pairs).filter named).Perm (pairs.filter named) :=
    (List.mergeSort_perm pairs precedes).filter named
  have kept : ((pairs.filter named).filter named).Sublist ((sortByName pairs).filter named) :=
    part.filter named
  rw [List.filter_filter] at kept
  simp only [Bool.and_self] at kept
  exact (kept.eq_of_length samePairs.length_eq.symm).symm

theorem latest?_sortByName (pairs : List (String × α)) (name : String) :
    latest? (sortByName pairs) name = latest? pairs name := by
  rw [← latest?_filter, filter_sortByName, latest?_filter]

def collect (pairs : List (String × α)) : OrderedMap α :=
  ⟨lastOfRuns (sortByName pairs), ascending_lastOfRuns (ordered_sortByName pairs)⟩

theorem get?_collect (pairs : List (String × α)) (name : String) :
    (collect pairs).get? name = latest? pairs name := by
  calc (collect pairs).get? name
      = latest? (lastOfRuns (sortByName pairs)) name := find_eq_latest? name (collect pairs).ascending
    _ = latest? (sortByName pairs) name := latest?_lastOfRuns _ name
    _ = latest? pairs name := latest?_sortByName pairs name

theorem collect_eq_ofList (pairs : List (String × α)) : collect pairs = ofList pairs := by
  apply ext_get?
  intro name
  rw [get?_collect, get?_ofList]

/-! Replacements -/

def exchange (name : String) (value : α) : List (String × α) → Option α × List (String × α)
  | [] => (none, [(name, value)])
  | (other, held) :: rest =>
    if name < other then (none, (name, value) :: (other, held) :: rest)
    else if name = other then (some held, (name, value) :: rest)
    else
      let (replaced, changed) := exchange name value rest
      (replaced, (other, held) :: changed)

/-- The pass that replaces a value meets the value that a look-up finds. -/
theorem exchange_eq {entries : List (String × α)} (name : String) (value : α)
    (ascending : entries.Pairwise (fun earlier later => earlier.1 < later.1)) :
    exchange name value entries = (find name entries, place name value entries) := by
  induction entries with
  | nil => rfl
  | cons head rest ih =>
    obtain ⟨other, held⟩ := head
    obtain ⟨above, ordered⟩ := List.pairwise_cons.mp ascending
    rw [exchange, place]
    split
    next less =>
      have absent : find name ((other, held) :: rest) = none := by
        refine find_eq_none (List.forall_mem_cons.mpr ⟨less, fun entry member => ?_⟩)
        exact String.lt_trans less (above entry member)
      rw [absent]
    next =>
      rw [find]
      split
      next same => rfl
      next different => rw [ih ordered]

def replace (map : OrderedMap α) (name : String) (value : α) : Option α × OrderedMap α :=
  ((exchange name value map.entries).1, ⟨(exchange name value map.entries).2, by
    rw [exchange_eq name value map.ascending]
    exact pairwise_place name value map.ascending⟩)

theorem replace_eq (map : OrderedMap α) (name : String) (value : α) :
    map.replace name value = (map.get? name, map.insert name value) := by
  have exchanged := exchange_eq name value map.ascending
  rw [replace, get?, insert, Prod.mk.injEq, OrderedMap.mk.injEq, exchanged]
  exact ⟨rfl, rfl⟩

end OrderedMap

end ContinuousQuery
