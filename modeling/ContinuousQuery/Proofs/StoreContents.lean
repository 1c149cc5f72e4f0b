import ContinuousQuery.Proofs.StoreScan
import Mathlib.Data.Finset.Card

/-!
What a store contains after puts. The store answers look-ups by the last put of a key, has as
many entries as keys have been put, and a scan lists what was last put under each key with the
prefix, in the order of the keys. The part of the store before a scan is below the prefix, and
no key behind the scan has the prefix, so the scan neither starts too late nor stops too early.
-/

namespace ContinuousQuery

namespace Store

def ofPuts (puts : List (String × Solution)) : Store :=
  puts.foldl (fun store put => Store.put store put.1 put.2) OrderedMap.empty

variable {puts : List (String × Solution)} {store : Store} {start key : String}

theorem get?_ofPuts (puts : List (String × Solution)) (key : String) :
    OrderedMap.get? (ofPuts puts) key = OrderedMap.latest? puts key :=
  OrderedMap.get?_ofList puts key

theorem hasPrefix_iff_append : hasPrefix start key = true ↔ ∃ rest, key = start ++ rest := by
  rw [hasPrefix_iff]
  constructor
  · intro begins
    obtain ⟨rest, same⟩ := begins
    refine ⟨String.ofList rest, String.toList_inj.mp ?_⟩
    rw [String.toList_append, String.toList_ofList, same]
  · intro begins
    obtain ⟨rest, rfl⟩ := begins
    exact ⟨rest.toList, String.toList_append.symm⟩

theorem mem_scan_iff {entry : String × Solution} : entry ∈ store.scan start ↔
    OrderedMap.get? store entry.1 = some entry.2 ∧ ∃ rest, entry.1 = start ++ rest := by
  rw [scan_eq_filter, List.mem_filter, hasPrefix_iff_append, OrderedMap.get?_eq_some_iff]

theorem ascending_scan (store : Store) (start : String) :
    (store.scan start).Pairwise (fun earlier later => earlier.1 < later.1) := by
  rw [scan_eq_filter]
  exact store.ascending.filter _

theorem not_hasPrefix_of_mem_dropWhile {range : List (String × Solution)}
    (ascending : range.Pairwise (fun earlier later => earlier.1 < later.1))
    (above : ∀ entry ∈ range, ¬entry.1 < start) :
    ∀ entry ∈ range.dropWhile (fun entry => hasPrefix start entry.1),
      ¬hasPrefix start entry.1 = true := by
  let begins (entry : String × Solution) : Bool := hasPrefix start entry.1
  have kept : (range.takeWhile begins).filter begins = range.takeWhile begins :=
    List.filter_eq_self.mpr fun _ member => List.mem_takeWhile_imp member
  have whole : range.takeWhile begins ++ (range.dropWhile begins).filter begins =
      range.takeWhile begins :=
    calc range.takeWhile begins ++ (range.dropWhile begins).filter begins
        = (range.takeWhile begins ++ range.dropWhile begins).filter begins := by
          rw [List.filter_append, kept]
      _ = range.filter begins := by rw [List.takeWhile_append_dropWhile]
      _ = range.takeWhile begins := (takeWhile_hasPrefix ascending above).symm
  exact List.filter_eq_nil_iff.mp (List.append_right_eq_self.mp whole)

/-- A store consists of keys below the prefix, the entries of the scan, and keys that neither are
below the prefix nor have it. -/
theorem scan_between (store : Store) (start : String) : ∃ below beyond : List (String × Solution),
    store.entries = below ++ store.scan start ++ beyond ∧
      (∀ entry ∈ below, entry.1 < start) ∧
      ∀ entry ∈ beyond, ¬entry.1 < start ∧ ¬∃ rest, entry.1 = start ++ rest := by
  let less (entry : String × Solution) : Bool := entry.1 < start
  let range := store.entries.dropWhile less
  have ordered : range.Pairwise (fun earlier later => earlier.1 < later.1) :=
    store.ascending.sublist (List.dropWhile_sublist less)
  have above : ∀ entry ∈ range, ¬entry.1 < start := not_lt_of_mem_dropWhile store.ascending
  refine ⟨store.entries.takeWhile less,
    range.dropWhile (fun entry => hasPrefix start entry.1), ?_, ?_, ?_⟩
  · rw [List.append_assoc, scan, List.takeWhile_append_dropWhile, List.takeWhile_append_dropWhile]
  · intro entry member
    have below : less entry = true := List.mem_takeWhile_imp member
    exact of_decide_eq_true below
  · intro entry member
    rw [← hasPrefix_iff_append]
    exact ⟨above entry ((List.dropWhile_sublist _).subset member),
      not_hasPrefix_of_mem_dropWhile ordered above entry member⟩

theorem size_ofPuts (puts : List (String × Solution)) :
    OrderedMap.size (ofPuts puts) = (puts.map Prod.fst).toFinset.card := by
  have members : (OrderedMap.names (ofPuts puts)).toFinset = (puts.map Prod.fst).toFinset := by
    apply Finset.ext
    intro key
    rw [List.mem_toFinset, List.mem_toFinset, OrderedMap.mem_names_iff, get?_ofPuts,
      OrderedMap.isSome_latest?_iff]
  rw [← members, List.toFinset_card_of_nodup (OrderedMap.nodup_names _), OrderedMap.names,
    List.length_map, OrderedMap.size]

/-- A scan of a store lists each key with the prefix that has been put, once and with the solution
that was put last, in ascending order of the keys. It loses nothing where it starts and where it
stops. Look-ups and the number of entries agree with the same puts. -/
theorem scan_ofPuts (puts : List (String × Solution)) (start : String) :
    let store := ofPuts puts
    (∀ key solution, (key, solution) ∈ store.scan start ↔
        OrderedMap.latest? puts key = some solution ∧ ∃ rest, key = start ++ rest) ∧
      (store.scan start).Pairwise (fun earlier later => earlier.1 < later.1) ∧
      (∃ below beyond : List (String × Solution),
        store.entries = below ++ store.scan start ++ beyond ∧
          (∀ entry ∈ below, entry.1 < start) ∧
          ∀ entry ∈ beyond, ¬entry.1 < start ∧ ¬∃ rest, entry.1 = start ++ rest) ∧
      (∀ key, OrderedMap.get? store key = OrderedMap.latest? puts key) ∧
      OrderedMap.size store = (puts.map Prod.fst).toFinset.card := by
  intro store
  refine ⟨fun key solution => ?_, ascending_scan store start, scan_between store start,
    get?_ofPuts puts, size_ofPuts puts⟩
  rw [mem_scan_iff, get?_ofPuts]

/-- The prefix may be a key itself, and a key above U+FFFF is behind all keys up to there. -/
example :
    let solution (visibility : String) : Solution := ⟨OrderedMap.empty, visibility⟩
    (ofPuts [("b😀", solution "1"), ("a", solution "2"), ("b\uffff", solution "3"),
      ("c", solution "4"), ("b", solution "5"), ("b😀", solution "6")]).scan "b" =
        [("b", solution "5"), ("b\uffff", solution "3"), ("b😀", solution "6")] := by
  decide

end Store

end ContinuousQuery
