import ContinuousQuery.Proofs.JoinHistory
import Mathlib.Data.List.Induction

/-!
Runs of a join over a store. The store of a join holds nothing but arrivals, and it holds
all of them if their keys tell them apart. So a run emits what the history of its arrivals
asks for, and whatever the keys do, it emits nothing but joins of arrivals and left arrivals.
-/

namespace ContinuousQuery

theorem Side.opposite_ne (side : Side) : side.opposite ≠ side := by cases side <;> decide

namespace JoinKeys

open Arrival

theorem mem_arrivedOn {keys : JoinKeys} {store : Store} {side : Side} {solution : Solution} :
    solution ∈ keys.arrivedOn store side ↔
      OrderedMap.get? store (keys.key side solution) = some solution := by
  simp only [arrivedOn, List.mem_map, List.mem_filter, decide_eq_true_eq,
    OrderedMap.get?_eq_some_iff]
  constructor
  · intro found
    obtain ⟨⟨key, stored⟩, ⟨member, same⟩, rfl⟩ := found
    exact same ▸ member
  · intro member
    exact ⟨(keys.key side solution, solution), ⟨member, rfl⟩, rfl⟩

theorem nodup_arrivedOn (keys : JoinKeys) (store : Store) (side : Side) :
    (keys.arrivedOn store side).Nodup := by
  apply List.Nodup.map_on _ (store.nodup_entries.filter _)
  intro first firstMember second secondMember same
  have firstKey := of_decide_eq_true (List.mem_filter.mp firstMember).2
  have secondKey := of_decide_eq_true (List.mem_filter.mp secondMember).2
  exact Prod.ext (by rw [firstKey, secondKey, same]) same

structure Within (keys : JoinKeys) (store : Store) (seen : List Arrival) : Prop where
  keyed : keys.Keyed store
  arrived : ∀ side solution, solution ∈ keys.arrivedOn store side → (side, solution) ∈ seen

/-- The store holds exactly the arrivals of a history. -/
structure Remembers (keys : JoinKeys) (store : Store) (seen : List Arrival) : Prop
    extends Within keys store seen where
  recalled : ∀ side solution, (side, solution) ∈ seen → solution ∈ keys.arrivedOn store side

/-- Different arrivals on the same side have different keys. -/
def Separates (keys : JoinKeys) (arrivals : List Arrival) : Prop :=
  ∀ side first second, (side, first) ∈ arrivals → (side, second) ∈ arrivals →
    keys.key side first = keys.key side second → first = second

theorem Separates.mono {keys : JoinKeys} {arrivals others : List Arrival}
    (separates : keys.Separates arrivals) (subset : ∀ arrival ∈ others, arrival ∈ arrivals) :
    keys.Separates others :=
  fun side first second firstMember secondMember =>
    separates side first second (subset _ firstMember) (subset _ secondMember)

theorem remembers_empty (keys : JoinKeys) : keys.Remembers OrderedMap.empty [] where
  keyed := fun _ member => absurd member (List.not_mem_nil)
  arrived := fun _ _ member => absurd member (List.not_mem_nil)
  recalled := fun _ _ member => absurd member (List.not_mem_nil)

theorem keyed_put {keys : JoinKeys} {store : Store} (keyed : keys.Keyed store) (side : Side)
    (solution : Solution) : keys.Keyed (Store.put store (keys.key side solution) solution) := by
  intro entry member
  rcases OrderedMap.mem_place member with rfl | earlier
  · exact ⟨side, rfl⟩
  · exact keyed entry earlier

theorem mem_arrivedOn_put {keys : JoinKeys} {store : Store} {side other : Side}
    {arrived solution : Solution}
    (unknown : OrderedMap.get? store (keys.key side arrived) = none) :
    solution ∈ keys.arrivedOn (Store.put store (keys.key side arrived) arrived) other ↔
      (other, solution) = (side, arrived) ∨ solution ∈ keys.arrivedOn store other := by
  rw [mem_arrivedOn, mem_arrivedOn, Store.put, OrderedMap.get?_insert]
  by_cases same : keys.key other solution = keys.key side arrived
  · have sides := side_eq_of_key_eq same
    rw [if_pos same, same, unknown]
    simp [sides, eq_comm]
  · rw [if_neg same]
    have different : (other, solution) ≠ (side, arrived) := by
      rintro ⟨⟩
      exact same rfl
    simp [different]

theorem join_eq_put {joinType : JoinType} {keys : JoinKeys} {store : Store} {side : Side}
    {arrived : Solution} (keyed : keys.Keyed store)
    (unknown : OrderedMap.get? store (keys.key side arrived) = none) :
    Processor.join joinType keys store side arrived =
      (joinType.news side arrived
        (keys.arrivedOn (Store.put store (keys.key side arrived) arrived) side.opposite),
       Store.put store (keys.key side arrived) arrived) := by
  have absent : OrderedMap.contains store (keys.key side arrived) = false := by
    rw [OrderedMap.contains, unknown]
    rfl
  simp only [Processor.join, insert?, absent, Bool.false_eq_true, if_false]
  rw [JoinType.onArrival_eq_news]
  refine congrArg (·, _) (JoinType.news_congr ?_)
  exact filterMap_candidates (keyed_put keyed side arrived) side arrived
    (fun _ => Solution.pair_eq_none)

theorem join_eq_unchanged {joinType : JoinType} {keys : JoinKeys} {store : Store} {side : Side}
    {arrived stored : Solution}
    (known : OrderedMap.get? store (keys.key side arrived) = some stored) :
    Processor.join joinType keys store side arrived = ([], store) := by
  have present : OrderedMap.contains store (keys.key side arrived) = true := by
    rw [OrderedMap.contains, known]
    rfl
  simp only [Processor.join, insert?, present, if_true]

theorem join_within (joinType : JoinType) {keys : JoinKeys} {store : Store} {seen : List Arrival}
    (within : keys.Within store seen) (side : Side) (arrived : Solution) :
    keys.Within (Processor.join joinType keys store side arrived).2 (seen ++ [(side, arrived)]) ∧
      ∀ joined ∈ (Processor.join joinType keys store side arrived).1,
        (∃ partner, (side.opposite, partner) ∈ seen ∧
            Solution.pair side arrived partner = some joined) ∨
          joinType = .leftOuter ∧ side = .left ∧ joined = arrived := by
  cases known : OrderedMap.get? store (keys.key side arrived) with
  | some stored =>
    rw [join_eq_unchanged known]
    refine ⟨⟨within.keyed, fun other solution member => ?_⟩, fun joined member => by cases member⟩
    exact List.mem_append_left _ (within.arrived other solution member)
  | none =>
    rw [join_eq_put within.keyed known]
    refine ⟨⟨keyed_put within.keyed side arrived, fun other solution member => ?_⟩, ?_⟩
    · rcases (mem_arrivedOn_put known).mp member with here | earlier
      · exact List.mem_append_right _ (List.mem_singleton.mpr here)
      · exact List.mem_append_left _ (within.arrived other solution earlier)
    · intro joined member
      rcases List.mem_append.mp member with paired | bare
      · obtain ⟨partner, stored, same⟩ := List.mem_filterMap.mp paired
        rcases (mem_arrivedOn_put known).mp stored with here | earlier
        · exact absurd (congrArg Prod.fst here) side.opposite_ne
        · exact Or.inl ⟨partner, within.arrived _ _ earlier, same⟩
      · split at bare
        next alone => exact Or.inr ⟨alone.1, alone.2.1, List.mem_singleton.mp bare⟩
        next => cases bare

theorem join_of_mem {joinType : JoinType} {keys : JoinKeys} {store : Store} {seen : List Arrival}
    {side : Side} {arrived : Solution} (remembers : keys.Remembers store seen)
    (member : (side, arrived) ∈ seen) :
    Processor.join joinType keys store side arrived = ([], store) :=
  join_eq_unchanged (mem_arrivedOn.mp (remembers.recalled side arrived member))

theorem Remembers.eq_of_get? {keys : JoinKeys} {store : Store} {seen : List Arrival} {side : Side}
    {arrived stored : Solution} (remembers : keys.Remembers store seen)
    (separates : keys.Separates (seen ++ [(side, arrived)]))
    (found : OrderedMap.get? store (keys.key side arrived) = some stored) :
    stored = arrived ∧ (side, stored) ∈ seen := by
  have newest : (side, arrived) ∈ seen ++ [(side, arrived)] := by simp
  obtain ⟨origin, key⟩ := remembers.keyed _ (OrderedMap.get?_eq_some_iff.mp found)
  have sides := side_eq_of_key_eq key
  subst sides
  have earlier : (side, stored) ∈ seen :=
    remembers.arrived side stored (mem_arrivedOn.mpr (key ▸ found))
  exact ⟨(separates side arrived stored newest (List.mem_append_left _ earlier) key).symm, earlier⟩

theorem join_of_notMem (joinType : JoinType) {keys : JoinKeys} {store : Store} {seen : List Arrival}
    {side : Side} {arrived : Solution} (remembers : keys.Remembers store seen)
    (separates : keys.Separates (seen ++ [(side, arrived)])) (fresh : (side, arrived) ∉ seen) :
    keys.Remembers (Processor.join joinType keys store side arrived).2 (seen ++ [(side, arrived)]) ∧
      (Processor.join joinType keys store side arrived).1.Perm
        (joinType.news side arrived (valuesOn side.opposite seen).dedup) := by
  have unknown : OrderedMap.get? store (keys.key side arrived) = none := by
    rw [Option.eq_none_iff_forall_ne_some]
    intro stored found
    obtain ⟨rfl, earlier⟩ := remembers.eq_of_get? separates found
    exact fresh earlier
  have within := (join_within joinType remembers.toWithin side arrived).1
  rw [join_eq_put remembers.keyed unknown] at within ⊢
  refine ⟨⟨within, fun other solution member => ?_⟩, JoinType.news_perm ?_⟩
  · rw [mem_arrivedOn_put unknown]
    rcases List.mem_append.mp member with earlier | here
    · exact Or.inr (remembers.recalled other solution earlier)
    · exact Or.inl (List.mem_singleton.mp here)
  · rw [List.perm_ext_iff_of_nodup (nodup_arrivedOn ..) (List.nodup_dedup _)]
    intro solution
    rw [mem_arrivedOn_put unknown, List.mem_dedup, mem_valuesOn]
    constructor
    · rintro (here | earlier)
      · exact absurd (congrArg Prod.fst here) side.opposite_ne
      · exact remembers.arrived _ _ earlier
    · exact fun earlier => Or.inr (remembers.recalled _ _ earlier)

end JoinKeys

namespace Processor

open JoinKeys

def joinAll (joinType : JoinType) (keys : JoinKeys) : Store → List Arrival → List Solution × Store
  | store, [] => ([], store)
  | store, (side, arrived) :: rest =>
    let (joined, grown) := join joinType keys store side arrived
    let (later, last) := joinAll joinType keys grown rest
    (joined ++ later, last)

theorem joinAll_append (joinType : JoinType) (keys : JoinKeys) (store : Store)
    (first second : List Arrival) :
    joinAll joinType keys store (first ++ second) =
      ((joinAll joinType keys store first).1 ++
          (joinAll joinType keys (joinAll joinType keys store first).2 second).1,
        (joinAll joinType keys (joinAll joinType keys store first).2 second).2) := by
  induction first generalizing store with
  | nil => rfl
  | cons head rest ih =>
    obtain ⟨side, arrived⟩ := head
    simp only [List.cons_append, joinAll, ih, List.append_assoc]

theorem joinAll_singleton (joinType : JoinType) (keys : JoinKeys) (store : Store) (side : Side)
    (arrived : Solution) :
    joinAll joinType keys store [(side, arrived)] = join joinType keys store side arrived := by
  simp [joinAll]

/-- A run whose keys tell the arrivals apart emits what the history of the arrivals asks for. -/
theorem joinAll_remembers (joinType : JoinType) {keys : JoinKeys} {arrivals : List Arrival}
    (separates : keys.Separates arrivals) :
    keys.Remembers (joinAll joinType keys OrderedMap.empty arrivals).2 arrivals ∧
      (joinAll joinType keys OrderedMap.empty arrivals).1.Perm (joinType.results arrivals) := by
  induction arrivals using List.reverseRecOn with
  | nil => exact ⟨remembers_empty keys, by cases joinType <;> exact List.Perm.refl _⟩
  | append_singleton seen arrival ih =>
    obtain ⟨side, arrived⟩ := arrival
    obtain ⟨remembers, emitted⟩ :=
      ih (separates.mono fun arrival member => List.mem_append_left _ member)
    rw [joinAll_append, joinAll_singleton]
    by_cases member : (side, arrived) ∈ seen
    · rw [join_of_mem remembers member, List.append_nil]
      have same : ∀ arrival, arrival ∈ seen ++ [(side, arrived)] → arrival ∈ seen := by
        intro arrival either
        rcases List.mem_append.mp either with earlier | here
        · exact earlier
        · exact List.mem_singleton.mp here ▸ member
      refine ⟨⟨⟨remembers.keyed, fun other solution stored => ?_⟩, fun other solution later => ?_⟩,
        emitted.trans (JoinType.results_concat_of_mem member).symm⟩
      · exact List.mem_append_left _ (remembers.arrived other solution stored)
      · exact remembers.recalled other solution (same _ later)
    · obtain ⟨grown, news⟩ := join_of_notMem joinType remembers separates member
      exact ⟨grown, (emitted.append news).trans (JoinType.results_concat member).symm⟩

/-- Whatever the keys do, a run emits only joins of arrivals and left arrivals. -/
theorem joinAll_within (joinType : JoinType) (keys : JoinKeys) (arrivals : List Arrival) :
    keys.Within (joinAll joinType keys OrderedMap.empty arrivals).2 arrivals ∧
      ∀ joined ∈ (joinAll joinType keys OrderedMap.empty arrivals).1,
        (∃ left right, (.left, left) ∈ arrivals ∧ (.right, right) ∈ arrivals ∧
            Solution.join left right = some joined) ∨
          joinType = .leftOuter ∧ (.left, joined) ∈ arrivals := by
  induction arrivals using List.reverseRecOn with
  | nil => exact ⟨(remembers_empty keys).toWithin, fun _ member => by cases member⟩
  | append_singleton seen arrival ih =>
    obtain ⟨side, arrived⟩ := arrival
    obtain ⟨within, sound⟩ := ih
    have newest : (side, arrived) ∈ seen ++ [(side, arrived)] := by simp
    have older : ∀ arrival ∈ seen, arrival ∈ seen ++ [(side, arrived)] :=
      fun _ member => List.mem_append_left _ member
    obtain ⟨grown, news⟩ := join_within joinType within side arrived
    rw [joinAll_append, joinAll_singleton]
    refine ⟨grown, fun joined member => ?_⟩
    rcases List.mem_append.mp member with earlier | later
    · rcases sound joined earlier with ⟨left, right, isLeft, isRight, same⟩ | ⟨outer, bare⟩
      · exact Or.inl ⟨left, right, older _ isLeft, older _ isRight, same⟩
      · exact Or.inr ⟨outer, older _ bare⟩
    · rcases news joined later with ⟨partner, stored, same⟩ | ⟨outer, rfl, rfl⟩
      · cases side with
        | left => exact Or.inl ⟨arrived, partner, newest, older _ stored, same⟩
        | right => exact Or.inl ⟨partner, arrived, older _ stored, newest, same⟩
      · exact Or.inr ⟨outer, newest⟩

end Processor

end ContinuousQuery
