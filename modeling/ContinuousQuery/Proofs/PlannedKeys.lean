import ContinuousQuery.Proofs.OrderedMaps
import Mathlib.Data.List.Sort
import Mathlib.Data.String.Basic
import Mathlib.Logic.Basic

/-!
Join keys from listings. A set of names may be listed in any order, and the names of a join are
gathered from the listings of both operands: the shared ones and then all others, each in
ascending order. What comes out is determined by the sets. So two plans of one join agree on the
keys of its store, however each of them came to list the names and to order the operands.
-/

namespace ContinuousQuery

namespace NameSet

theorem ext_names {first second : NameSet}
    (members : ∀ name, name ∈ first.names ↔ name ∈ second.names) : first = second := by
  apply OrderedMap.ext_get?
  intro name
  apply Option.ext
  intro value
  cases value
  have presence := members name
  rw [OrderedMap.mem_names_iff, OrderedMap.mem_names_iff, Option.isSome_iff_exists,
    Option.isSome_iff_exists, Unique.exists_iff, Unique.exists_iff] at presence
  exact presence

theorem inter_comm (left right : NameSet) : inter left right = inter right left := by
  apply ext_names
  intro name
  rw [mem_names_inter, mem_names_inter, and_comm]

theorem union_comm (left right : NameSet) : union left right = union right left := by
  apply ext_names
  intro name
  rw [mem_names_union, mem_names_union, or_comm]

end NameSet

namespace JoinKeys

variable {left right : NameSet}

theorem plan_comm (left right : NameSet) : plan left right = plan right left := by
  rw [plan, plan, NameSet.inter_comm, NameSet.union_comm]

theorem nodup_allNames_plan (left right : NameSet) : (plan left right).allNames.Nodup := by
  apply List.Nodup.append (OrderedMap.nodup_names _) (OrderedMap.nodup_names _)
  intro name shared other
  rw [NameSet.mem_names_inter] at shared
  rw [NameSet.mem_names_union, NameSet.mem_names_diff, NameSet.mem_names_diff] at other
  tauto

theorem allNames_plan_perm (left right : NameSet) :
    (plan left right).allNames.Perm (NameSet.union left right).names := by
  rw [List.perm_ext_iff_of_nodup (nodup_allNames_plan left right) (OrderedMap.nodup_names _)]
  intro name
  rw [mem_allNames_plan, NameSet.mem_names_union]

/-! Listings -/

/-- The keys that are gathered from a listing of each operand. -/
def ofListings (left right : List String) : JoinKeys :=
  let shared := (left.filter (fun name => name ∈ right)).mergeSort
  let others := ((left ++ right).filter (fun name => name ∉ shared)).eraseDups.mergeSort
  ⟨shared, shared ++ others⟩

theorem ascending_mergeSort {names : List String} (distinct : names.Nodup) :
    names.mergeSort.Pairwise (· < ·) := by
  have ordered : names.mergeSort.Pairwise (· ≤ ·) := List.pairwise_mergeSort' (· ≤ ·) names
  have nodup : names.mergeSort.Nodup := List.nodup_mergeSort.mpr distinct
  exact ordered.imp₂ (fun _ _ notGreater different => lt_of_le_of_ne notGreater different) nodup

theorem mergeSort_eq_names {names : List String} {set : NameSet} (distinct : names.Nodup)
    (members : ∀ name, name ∈ names ↔ name ∈ set.names) : names.mergeSort = set.names := by
  apply (ascending_mergeSort distinct).eq_of_mem_iff set.pairwise_names
  intro name
  rw [List.mem_mergeSort, members]

section Listed

variable {first second : List String} (listsLeft : first.Perm left.names)
  (listsRight : second.Perm right.names)

include listsLeft listsRight

theorem mergeSort_shared :
    (first.filter (fun name => name ∈ second)).mergeSort = (NameSet.inter left right).names := by
  have distinct : first.Nodup := listsLeft.nodup_iff.mpr left.nodup_names
  apply mergeSort_eq_names (distinct.filter _)
  intro name
  rw [List.mem_filter, decide_eq_true_iff, listsLeft.mem_iff, listsRight.mem_iff,
    NameSet.mem_names_inter]

theorem mergeSort_others :
    ((first ++ second).filter
        (fun name => name ∉ (NameSet.inter left right).names)).eraseDups.mergeSort =
      (NameSet.union (NameSet.diff left right) (NameSet.diff right left)).names := by
  apply mergeSort_eq_names (nodup_eraseDups _)
  intro name
  rw [List.mem_eraseDups, List.mem_filter, decide_eq_true_iff, List.mem_append,
    listsLeft.mem_iff, listsRight.mem_iff, NameSet.mem_names_inter, NameSet.mem_names_union,
    NameSet.mem_names_diff, NameSet.mem_names_diff]
  tauto

theorem ofListings_eq_plan : ofListings first second = plan left right := by
  simp only [ofListings, plan, mergeSort_shared listsLeft listsRight,
    mergeSort_others listsLeft listsRight]

/-- However two sets of names are listed and in whatever order they are given, the keys of their
join are the same: the names of both sets and then the names of only one of them, each part in
ascending order, so that every name of either set is listed once. -/
theorem listed_keys :
    ofListings first second = plan left right ∧
      ((ofListings first second).joinNames.Pairwise (· < ·) ∧
        ∀ name, name ∈ (ofListings first second).joinNames ↔
          name ∈ left.names ∧ name ∈ right.names) ∧
      (∃ others, (ofListings first second).allNames =
          (ofListings first second).joinNames ++ others ∧
        others.Pairwise (· < ·) ∧
        ∀ name, name ∈ others ↔ name ∈ left.names ∧ name ∉ right.names ∨
          name ∈ right.names ∧ name ∉ left.names) ∧
      (ofListings first second).allNames.Nodup ∧
      (ofListings first second).allNames.Perm (NameSet.union left right).names ∧
      (∀ other another : List String, other.Perm left.names → another.Perm right.names →
        ofListings other another = ofListings first second ∧
          ofListings another other = ofListings first second) := by
  rw [ofListings_eq_plan listsLeft listsRight]
  refine ⟨rfl, ⟨OrderedMap.pairwise_names _, fun name => mem_joinNames_plan⟩,
    ⟨_, rfl, OrderedMap.pairwise_names _, fun name => ?_⟩, nodup_allNames_plan left right,
    allNames_plan_perm left right, ?_⟩
  · rw [NameSet.mem_names_union, NameSet.mem_names_diff, NameSet.mem_names_diff]
  · intro other another listsLeft listsRight
    exact ⟨ofListings_eq_plan listsLeft listsRight,
      (ofListings_eq_plan listsRight listsLeft).trans (plan_comm right left)⟩

end Listed

theorem listed_keys_shuffled :
    let left := NameSet.ofNames ["z", "y", "x", "a"]
    let right := NameSet.ofNames ["x", "z", "m"]
    (["y", "a", "z", "x"].Perm left.names ∧ ["m", "x", "z"].Perm right.names) ∧
      ofListings ["y", "a", "z", "x"] ["m", "x", "z"] =
        ⟨["x", "z"], ["x", "z", "a", "m", "y"]⟩ ∧
      ofListings ["z", "m", "x"] ["x", "y", "z", "a"] =
        ofListings ["y", "a", "z", "x"] ["m", "x", "z"] := by
  intro left right
  have listsLeft : ["y", "a", "z", "x"].Perm left.names := by decide
  have listsRight : ["m", "x", "z"].Perm right.names := by decide
  obtain ⟨planned, -, -, -, -, any⟩ := listed_keys listsLeft listsRight
  refine ⟨⟨listsLeft, listsRight⟩, planned.trans (by decide), ?_⟩
  exact (any ["x", "y", "z", "a"] ["z", "m", "x"] (by decide) (by decide)).2

end JoinKeys

end ContinuousQuery
