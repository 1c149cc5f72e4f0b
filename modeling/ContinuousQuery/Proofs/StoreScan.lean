import ContinuousQuery.Stream.Store
import ContinuousQuery.Proofs.OrderedMaps
import Mathlib.Data.List.TakeWhile

/-!
A scan finds every entry whose key starts with the prefix. Keys with a common prefix are
neighbours in the order of keys and none of them is less than the prefix, so a range that
starts at the prefix and ends at the first other key is as good as a test of all keys.
-/

namespace ContinuousQuery

namespace Store

theorem hasPrefix_iff {start key : String} :
    hasPrefix start key = true ↔ start.toList <+: key.toList :=
  List.isPrefixOf_iff_prefix

theorem not_lt_of_hasPrefix {start key : String} (begins : hasPrefix start key = true) :
    ¬key < start := by
  obtain ⟨rest, same⟩ := hasPrefix_iff.mp begins
  intro less
  have chars : key.toList < start.toList := less
  rw [← same] at chars
  exact List.le_append_left chars

theorem prefix_of_between {start between key : List Char} (above : ¬between < start)
    (below : between < key) (begins : start <+: key) : start <+: between := by
  induction start generalizing between key with
  | nil => exact List.nil_prefix
  | cons char start ih =>
    obtain ⟨rest, rfl⟩ := begins
    cases between with
    | nil => exact absurd (List.nil_lt_cons char start) above
    | cons other between =>
      rw [List.cons_lt_cons_iff, not_or, not_and] at above
      rw [List.cons_append, List.cons_lt_cons_iff] at below
      have same : other = char := by
        rcases below with less | ⟨same, _⟩
        · exact absurd less above.1
        · exact same
      subst same
      have later : between < start ++ rest := by
        rcases below with less | ⟨_, less⟩
        · exact absurd less (Char.lt_irrefl other)
        · exact less
      exact List.cons_prefix_cons.mpr ⟨rfl, ih (above.2 rfl) later (List.prefix_append start rest)⟩

theorem hasPrefix_of_between {start between key : String} (above : ¬between < start)
    (below : between < key) (begins : hasPrefix start key = true) :
    hasPrefix start between = true :=
  hasPrefix_iff.mpr (prefix_of_between above below (hasPrefix_iff.mp begins))

theorem takeWhile_hasPrefix {start : String} {entries : List (String × Solution)}
    (ascending : entries.Pairwise (fun earlier later => earlier.1 < later.1))
    (above : ∀ entry ∈ entries, ¬entry.1 < start) :
    entries.takeWhile (fun entry => hasPrefix start entry.1) =
      entries.filter (fun entry => hasPrefix start entry.1) := by
  induction entries with
  | nil => rfl
  | cons head rest ih =>
    obtain ⟨headBelow, ordered⟩ := List.pairwise_cons.mp ascending
    obtain ⟨headAbove, restAbove⟩ := List.forall_mem_cons.mp above
    by_cases begins : hasPrefix start head.1 = true
    · rw [List.takeWhile_cons, List.filter_cons, if_pos begins, if_pos begins, ih ordered restAbove]
    · have nothing : rest.filter (fun entry => hasPrefix start entry.1) = [] := by
        rw [List.filter_eq_nil_iff]
        intro entry member later
        exact begins (hasPrefix_of_between headAbove (headBelow entry member) later)
      rw [List.takeWhile_cons, List.filter_cons, if_neg begins, if_neg begins, nothing]

theorem not_lt_of_mem_dropWhile {start : String} {entries : List (String × Solution)}
    (ascending : entries.Pairwise (fun earlier later => earlier.1 < later.1)) :
    ∀ entry ∈ entries.dropWhile (fun entry => entry.1 < start), ¬entry.1 < start := by
  induction entries with
  | nil => exact fun _ member => nomatch member
  | cons head rest ih =>
    obtain ⟨headBelow, ordered⟩ := List.pairwise_cons.mp ascending
    by_cases less : head.1 < start
    · rw [List.dropWhile_cons, if_pos (decide_eq_true less)]
      exact ih ordered
    · rw [List.dropWhile_cons, if_neg (by simpa using less)]
      refine List.forall_mem_cons.mpr ⟨less, ?_⟩
      intro entry member entryLess
      exact less (String.lt_trans (headBelow entry member) entryLess)

theorem range_eq_filter {start : String} {entries : List (String × Solution)}
    (ascending : entries.Pairwise (fun earlier later => earlier.1 < later.1)) :
    (entries.dropWhile (fun entry => entry.1 < start)).takeWhile
        (fun entry => hasPrefix start entry.1) =
      entries.filter (fun entry => hasPrefix start entry.1) := by
  let before (entry : String × Solution) : Bool := entry.1 < start
  have nothing : (entries.takeWhile before).filter (fun entry => hasPrefix start entry.1) = [] := by
    rw [List.filter_eq_nil_iff]
    intro entry member begins
    have less : before entry = true := List.mem_takeWhile_imp member
    exact not_lt_of_hasPrefix begins (of_decide_eq_true less)
  calc (entries.dropWhile before).takeWhile (fun entry => hasPrefix start entry.1)
      = (entries.dropWhile before).filter (fun entry => hasPrefix start entry.1) :=
        takeWhile_hasPrefix (ascending.sublist (List.dropWhile_sublist before))
          (not_lt_of_mem_dropWhile ascending)
    _ = (entries.takeWhile before ++ entries.dropWhile before).filter
          (fun entry => hasPrefix start entry.1) := by
        rw [List.filter_append, nothing, List.nil_append]
    _ = entries.filter (fun entry => hasPrefix start entry.1) := by
        rw [List.takeWhile_append_dropWhile]

/-- A scan is a test of all keys. -/
theorem scan_eq_filter (store : Store) (start : String) :
    store.scan start = store.entries.filter (fun entry => hasPrefix start entry.1) :=
  range_eq_filter store.ascending

end Store

end ContinuousQuery
