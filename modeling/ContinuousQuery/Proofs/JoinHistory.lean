import ContinuousQuery.Stream.Processor
import ContinuousQuery.Proofs.StoreKeys
import Mathlib.Data.List.Perm.Basic
import Mathlib.Data.List.Dedup

/-!
What a join emits over a whole history of arrivals. Each compatible pair of a distinct left
and a distinct right solution is emitted once, whichever of the two arrives first, and a left
outer join also emits every left solution that has no partner yet when it arrives first. This
holds if the keys of the history tell its solutions apart; otherwise results may be lost, but
no wrong result is emitted.
-/

namespace ContinuousQuery

namespace Solution

def pair : Side → Solution → Solution → Option Solution
  | .left, arrived, stored => join arrived stored
  | .right, arrived, stored => join stored arrived

theorem pair_eq_none {side : Side} {arrived stored : Solution}
    (incompatible : ¬Compatible arrived stored) : pair side arrived stored = none := by
  cases side with
  | left => exact join_eq_none_iff.mpr incompatible
  | right => exact join_eq_none_iff.mpr (fun compatible => incompatible compatible.symm)

/-- One combined solution for each compatible pair of a distinct left and a distinct right one. -/
def joinDistinct (lefts rights : List Solution) : List Solution :=
  lefts.dedup.flatMap (fun left =>
    (rights.dedup.filter (fun right => Compatible left right)).map (combined left))

theorem joinDistinct_eq_flatMap (lefts rights : List Solution) : joinDistinct lefts rights =
    lefts.dedup.flatMap (fun left => rights.dedup.filterMap (join left)) := by
  simp only [joinDistinct, filterMap_join]

theorem mem_joinDistinct {lefts rights : List Solution} {joined : Solution} :
    joined ∈ joinDistinct lefts rights ↔
      ∃ left ∈ lefts, ∃ right ∈ rights, join left right = some joined := by
  simp only [joinDistinct_eq_flatMap, List.mem_flatMap, List.mem_filterMap, List.mem_dedup]

theorem joinDistinct_perm {lefts rights otherLefts otherRights : List Solution}
    (left : lefts.Perm otherLefts) (right : rights.Perm otherRights) :
    (joinDistinct lefts rights).Perm (joinDistinct otherLefts otherRights) :=
  left.dedup.flatMap (fun _ _ => (right.dedup.filter _).map _)

end Solution

abbrev Arrival := Side × Solution

namespace Arrival

def valuesOn (side : Side) (arrivals : List Arrival) : List Solution :=
  (arrivals.filter (fun arrival => arrival.1 = side)).map (·.2)

@[simp] theorem mem_valuesOn {side : Side} {arrivals : List Arrival} {solution : Solution} :
    solution ∈ valuesOn side arrivals ↔ (side, solution) ∈ arrivals := by
  simp [valuesOn]

theorem valuesOn_append (side : Side) (first second : List Arrival) :
    valuesOn side (first ++ second) = valuesOn side first ++ valuesOn side second := by
  simp [valuesOn]

theorem valuesOn_singleton (side other : Side) (solution : Solution) :
    valuesOn side [(other, solution)] = if other = side then [solution] else [] := by
  by_cases here : other = side <;> simp [valuesOn, here]

/-- The distinct left solutions that met no compatible right solution when they first arrived. -/
def unmatched (arrivals : List Arrival) : List Solution :=
  (valuesOn .left arrivals).dedup.filter (fun left =>
    ∀ right ∈ valuesOn .right (arrivals.takeWhile (· ≠ (.left, left))),
      ¬Solution.Compatible left right)

end Arrival

namespace JoinType

open Arrival Solution

/-- What a join has to emit over a history of arrivals. -/
def results : JoinType → List Arrival → List Solution
  | .natural, arrivals => joinDistinct (valuesOn .left arrivals) (valuesOn .right arrivals)
  | .leftOuter, arrivals =>
    joinDistinct (valuesOn .left arrivals) (valuesOn .right arrivals) ++ unmatched arrivals

/-- What a join has to emit for one more arrival that is new to it. -/
def news (joinType : JoinType) (side : Side) (arrived : Solution) (partners : List Solution) :
    List Solution :=
  partners.filterMap (pair side arrived) ++
    if joinType = .leftOuter ∧ side = .left ∧ partners.filterMap (pair side arrived) = [] then
      [arrived]
    else []

theorem onArrival_eq_news (joinType : JoinType) (side : Side) (arrived : Solution)
    (partners : List Solution) :
    joinType.onArrival side arrived partners = joinType.news side arrived partners := by
  cases side with
  | right =>
    simp only [news, reduceCtorEq, false_and, and_false, ↓reduceIte, List.append_nil]
    rfl
  | left =>
    cases joinType with
    | natural =>
      simp only [news, reduceCtorEq, false_and, ↓reduceIte, List.append_nil]
      rfl
    | leftOuter =>
      have joined : partners.filterMap (fun right => join arrived right) =
          partners.filterMap (pair .left arrived) := rfl
      simp only [onArrival, onLeft, news, joined, true_and]
      cases partners.filterMap (pair .left arrived) with
      | nil => rfl
      | cons first rest => simp

theorem news_congr {joinType : JoinType} {side : Side} {arrived : Solution}
    {partners others : List Solution}
    (same : partners.filterMap (pair side arrived) = others.filterMap (pair side arrived)) :
    joinType.news side arrived partners = joinType.news side arrived others := by
  rw [news, news, same]

theorem news_perm {joinType : JoinType} {side : Side} {arrived : Solution}
    {partners others : List Solution} (permuted : partners.Perm others) :
    (joinType.news side arrived partners).Perm (joinType.news side arrived others) := by
  have joined := permuted.filterMap (pair side arrived)
  have empty : partners.filterMap (pair side arrived) = [] ↔
      others.filterMap (pair side arrived) = [] :=
    ⟨fun nothing => List.nil_perm.mp (nothing ▸ joined),
      fun nothing => List.perm_nil.mp (nothing ▸ joined)⟩
  simp only [news, empty]
  exact joined.append_right _

end JoinType

namespace Solution

open scoped List

theorem dedup_concat_of_mem {solutions : List Solution} {added : Solution}
    (member : added ∈ solutions) : (solutions ++ [added]).dedup.Perm solutions.dedup := by
  rw [List.perm_ext_iff_of_nodup (List.nodup_dedup _) (List.nodup_dedup _)]
  intro solution
  simp only [List.mem_dedup, List.mem_append, List.mem_singleton]
  exact ⟨fun either => either.elim id (fun same => same ▸ member), Or.inl⟩

theorem dedup_concat_of_notMem {solutions : List Solution} {added : Solution}
    (fresh : added ∉ solutions) :
    (solutions ++ [added]).dedup.Perm (solutions.dedup ++ [added]) := by
  have nodup : (solutions.dedup ++ [added]).Nodup := by
    rw [List.nodup_append]
    refine ⟨List.nodup_dedup _, List.nodup_singleton _, fun solution member other here => ?_⟩
    rw [List.mem_singleton] at here
    rintro rfl
    exact fresh (here ▸ List.mem_dedup.mp member)
  rw [List.perm_ext_iff_of_nodup (List.nodup_dedup _) nodup]
  intro solution
  simp only [List.mem_dedup, List.mem_append]

theorem joinDistinct_concat_left {lefts : List Solution} {left : Solution}
    (fresh : left ∉ lefts) (rights : List Solution) :
    (joinDistinct (lefts ++ [left]) rights).Perm
      (joinDistinct lefts rights ++ rights.dedup.filterMap (pair .left left)) := by
  have distinct := dedup_concat_of_notMem fresh
  rw [joinDistinct_eq_flatMap, joinDistinct_eq_flatMap]
  calc (lefts ++ [left]).dedup.flatMap (fun left => rights.dedup.filterMap (join left))
      _ ~ (lefts.dedup ++ [left]).flatMap (fun left => rights.dedup.filterMap (join left)) :=
        distinct.flatMap_right _
      _ = lefts.dedup.flatMap (fun left => rights.dedup.filterMap (join left)) ++
          rights.dedup.filterMap (pair .left left) := by
        rw [List.flatMap_append, List.flatMap_singleton]
        rfl

theorem joinDistinct_concat_right {rights : List Solution} {right : Solution}
    (fresh : right ∉ rights) (lefts : List Solution) :
    (joinDistinct lefts (rights ++ [right])).Perm
      (joinDistinct lefts rights ++ lefts.dedup.filterMap (pair .right right)) := by
  have distinct := dedup_concat_of_notMem fresh
  rw [joinDistinct_eq_flatMap, joinDistinct_eq_flatMap]
  calc lefts.dedup.flatMap (fun left => (rights ++ [right]).dedup.filterMap (join left))
      _ ~ lefts.dedup.flatMap (fun left =>
          rights.dedup.filterMap (join left) ++ (join left right).toList) := by
        apply List.Perm.flatMap_left
        intro left _
        apply (distinct.filterMap _).trans
        rw [List.filterMap_append]
        cases found : join left right <;> simp [found]
      _ ~ lefts.dedup.flatMap (fun left => rights.dedup.filterMap (join left)) ++
          lefts.dedup.flatMap (fun left => (join left right).toList) :=
        (List.flatMap_append_perm _ _ _).symm
      _ = lefts.dedup.flatMap (fun left => rights.dedup.filterMap (join left)) ++
          lefts.dedup.filterMap (pair .right right) := by
        rw [List.filterMap_eq_flatMap_toList]
        rfl

end Solution

namespace Arrival

theorem takeWhile_append_of_mem {seen rest : List Arrival} {arrival : Arrival}
    (member : arrival ∈ seen) :
    (seen ++ rest).takeWhile (· ≠ arrival) = seen.takeWhile (· ≠ arrival) := by
  induction seen with
  | nil => cases member
  | cons head seen ih =>
    rw [List.cons_append, List.takeWhile_cons, List.takeWhile_cons]
    by_cases here : head = arrival
    · simp [here]
    · have later : arrival ∈ seen := (List.mem_cons.mp member).resolve_left (Ne.symm here)
      rw [ih later]

theorem takeWhile_concat_of_notMem {seen : List Arrival} {arrival : Arrival}
    (fresh : arrival ∉ seen) : (seen ++ [arrival]).takeWhile (· ≠ arrival) = seen := by
  have all : ∀ earlier ∈ seen, decide (earlier ≠ arrival) = true := by
    intro earlier member
    exact decide_eq_true (fun same => fresh (same ▸ member))
  rw [List.takeWhile_append_of_pos all]
  simp

theorem filter_unmatched_append (seen : List Arrival) (arrival : Arrival) :
    (valuesOn .left seen).dedup.filter (fun left =>
      ∀ right ∈ valuesOn .right ((seen ++ [arrival]).takeWhile (· ≠ (.left, left))),
        ¬Solution.Compatible left right) = unmatched seen := by
  apply List.filter_congr
  intro left member
  rw [takeWhile_append_of_mem (mem_valuesOn.mp (List.mem_dedup.mp member))]

theorem unmatched_concat_right (seen : List Arrival) (right : Solution) :
    unmatched (seen ++ [(.right, right)]) = unmatched seen := by
  have lefts : valuesOn .left (seen ++ [(.right, right)]) = valuesOn .left seen := by
    rw [valuesOn_append, valuesOn_singleton, if_neg (by decide), List.append_nil]
  rw [← filter_unmatched_append seen (.right, right), unmatched, lefts]

theorem unmatched_concat_left {seen : List Arrival} {left : Solution}
    (fresh : (.left, left) ∉ seen) :
    (unmatched (seen ++ [(.left, left)])).Perm
      (unmatched seen ++
        if ∀ right ∈ valuesOn .right seen, ¬Solution.Compatible left right then [left]
        else []) := by
  have distinct := Solution.dedup_concat_of_notMem (mt mem_valuesOn.mp fresh)
  have lefts : valuesOn .left (seen ++ [(.left, left)]) = valuesOn .left seen ++ [left] := by
    rw [valuesOn_append, valuesOn_singleton, if_pos rfl]
  rw [unmatched, lefts]
  apply (distinct.filter _).trans
  rw [List.filter_append, filter_unmatched_append, List.filter_cons, List.filter_nil,
    takeWhile_concat_of_notMem fresh]
  simp only [decide_eq_true_eq, List.Perm.refl]

end Arrival

namespace JoinType

open Arrival Solution

theorem results_concat_of_mem {joinType : JoinType} {seen : List Arrival} {side : Side}
    {arrived : Solution} (member : (side, arrived) ∈ seen) :
    (joinType.results (seen ++ [(side, arrived)])).Perm (joinType.results seen) := by
  have values : ∀ other, (valuesOn other (seen ++ [(side, arrived)])).dedup.Perm
      (valuesOn other seen).dedup := by
    intro other
    rw [valuesOn_append, valuesOn_singleton]
    by_cases here : side = other
    · rw [if_pos here]
      exact dedup_concat_of_mem (mem_valuesOn.mpr (here ▸ member))
    · rw [if_neg here, List.append_nil]
  have pairs : (joinDistinct (valuesOn .left (seen ++ [(side, arrived)]))
      (valuesOn .right (seen ++ [(side, arrived)]))).Perm
        (joinDistinct (valuesOn .left seen) (valuesOn .right seen)) :=
    (values .left).flatMap (fun _ _ => ((values .right).filter _).map _)
  cases joinType with
  | natural => exact pairs
  | leftOuter =>
    apply pairs.append
    rw [← filter_unmatched_append seen (side, arrived)]
    exact (values .left).filter _

theorem filterMap_pair_eq_nil_iff {left : Solution} {rights : List Solution} :
    rights.dedup.filterMap (pair .left left) = [] ↔
      ∀ right ∈ rights, ¬Compatible left right := by
  simp only [List.filterMap_eq_nil_iff, List.mem_dedup, pair, join_eq_none_iff]

theorem results_concat {joinType : JoinType} {seen : List Arrival} {side : Side}
    {arrived : Solution} (fresh : (side, arrived) ∉ seen) :
    (joinType.results (seen ++ [(side, arrived)])).Perm
      (joinType.results seen ++ joinType.news side arrived (valuesOn side.opposite seen).dedup) := by
  have unseen : arrived ∉ valuesOn side seen := mt mem_valuesOn.mp fresh
  cases side with
  | left =>
    have lefts : valuesOn .left (seen ++ [(.left, arrived)]) = valuesOn .left seen ++ [arrived] := by
      rw [valuesOn_append, valuesOn_singleton, if_pos rfl]
    have rights : valuesOn .right (seen ++ [(.left, arrived)]) = valuesOn .right seen := by
      rw [valuesOn_append, valuesOn_singleton, if_neg (by decide), List.append_nil]
    have pairs := joinDistinct_concat_left unseen (valuesOn .right seen)
    cases joinType with
    | natural => simpa [results, news, lefts, rights, Side.opposite] using pairs
    | leftOuter =>
      have bare := unmatched_concat_left fresh
      simp only [results, news, lefts, rights, Side.opposite, true_and, filterMap_pair_eq_nil_iff]
      apply (pairs.append bare).trans
      simp only [List.append_assoc]
      exact List.Perm.append_left _ (List.perm_append_comm_assoc _ _ _)
  | right =>
    have lefts : valuesOn .left (seen ++ [(.right, arrived)]) = valuesOn .left seen := by
      rw [valuesOn_append, valuesOn_singleton, if_neg (by decide), List.append_nil]
    have rights : valuesOn .right (seen ++ [(.right, arrived)]) =
        valuesOn .right seen ++ [arrived] := by
      rw [valuesOn_append, valuesOn_singleton, if_pos rfl]
    have pairs := joinDistinct_concat_right unseen (valuesOn .left seen)
    cases joinType with
    | natural => simpa [results, news, lefts, rights, Side.opposite] using pairs
    | leftOuter =>
      simp only [results, news, lefts, rights, Side.opposite, unmatched_concat_right,
        reduceCtorEq, false_and, and_false, ↓reduceIte, List.append_nil]
      apply (pairs.append_right _).trans
      simp only [List.append_assoc]
      exact List.Perm.append_left _ List.perm_append_comm

end JoinType

end ContinuousQuery
