import ContinuousQuery.Proofs.NaturalJoins

/-!
What a reader learns who may not see everything. Such a reader sees a combined visibility
exactly if both of its parts are seen. Over natural joins, what the reader sees of the results
is what the visible statements yield alone, in the same order. So all other statements neither
add to it, nor remove from it, nor reorder it.
-/

namespace ContinuousQuery

/-- A reader sees what everyone sees, and a combined visibility if both of its parts. -/
structure Clearance (sees : String → Prop) : Prop where
  everyone : sees ""
  both : ∀ first second, sees ("(" ++ first ++ ")&(" ++ second ++ ")") ↔ sees first ∧ sees second

theorem Clearance.combine {sees : String → Prop} (clearance : Clearance sees)
    (left right : String) : sees (combineVisibilities left right) ↔ sees left ∧ sees right := by
  unfold combineVisibilities
  split
  next easy =>
    rcases easy with rfl | rfl
    · simp [clearance.everyone]
    · simp
  next =>
    split
    next unguarded => simp [unguarded, clearance.everyone]
    next => exact clearance.both left right

theorem Clearance.pair {sees : String → Prop} (clearance : Clearance sees) {side : Side}
    {arrived stored joined : Solution} (paired : Solution.pair side arrived stored = some joined) :
    sees joined.visibility ↔ sees arrived.visibility ∧ sees stored.visibility := by
  cases side with
  | left =>
    obtain ⟨-, -, visibility⟩ := Solution.join_eq_some_iff.mp paired
    rw [visibility, clearance.combine]
  | right =>
    obtain ⟨-, -, visibility⟩ := Solution.join_eq_some_iff.mp paired
    rw [visibility, clearance.combine, and_comm]

variable {sees : String → Prop} [DecidablePred sees]

def Guarded.visible {α : Type} (sees : String → Prop) [DecidablePred sees]
    (values : List (Guarded α)) : List (Guarded α) :=
  values.filter (fun value => sees value.visibility)

theorem Guarded.visible_append {α : Type} (first second : List (Guarded α)) :
    visible sees (first ++ second) = visible sees first ++ visible sees second :=
  List.filter_append ..

theorem Guarded.visible_concat {α : Type} (values : List (Guarded α)) (last : Guarded α) :
    visible sees (values ++ [last]) =
      if sees last.visibility then visible sees values ++ [last] else visible sees values := by
  rw [visible_append]
  by_cases seen : sees last.visibility <;> simp [visible, seen]

open Guarded

theorem visible_matches (triple : TriplePattern) (statements : List Statement) :
    visible sees (statements.filterMap triple.matchStatement) =
      (visible sees statements).filterMap triple.matchStatement := by
  rw [visible, visible, List.filter_filterMap, List.filterMap_filter]
  apply List.filterMap_congr
  intro statement _
  cases found : triple.matchStatement statement with
  | none => simp
  | some solution =>
    obtain ⟨bindings, -, rfl⟩ := Option.map_eq_some_iff.mp found
    by_cases seen : sees statement.visibility <;> simp [seen]

theorem visible_map {change : Solution → Solution}
    (kept : ∀ solution, (change solution).visibility = solution.visibility)
    (solutions : List Solution) :
    visible sees (solutions.map change) = (visible sees solutions).map change := by
  rw [visible, visible, List.filter_map]
  congr 2
  funext solution
  simp only [Function.comp_apply, kept]

/-- A reader who does not see an arrival sees nothing of the joins that it takes part in. -/
theorem visible_news (clearance : Clearance sees) (side : Side) (arrived : Solution)
    (partners : List Solution) :
    visible sees (JoinType.natural.news side arrived partners) =
      if sees arrived.visibility then JoinType.natural.news side arrived (visible sees partners)
      else [] := by
  simp only [JoinType.news, reduceCtorEq, false_and, if_false, List.append_nil]
  rw [visible, List.filter_filterMap]
  by_cases seen : sees arrived.visibility
  · rw [if_pos seen, visible, List.filterMap_filter]
    apply List.filterMap_congr
    intro partner _
    cases paired : Solution.pair side arrived partner with
    | none => simp
    | some joined => simp [Option.filter, clearance.pair paired, seen]
  · rw [if_neg seen, List.filterMap_eq_nil_iff]
    intro partner _
    cases paired : Solution.pair side arrived partner with
    | none => simp
    | some joined => simp [clearance.pair paired, seen]

namespace Store

def visible (sees : String → Prop) [DecidablePred sees] (store : Store) : Store :=
  ⟨store.entries.filter (fun entry => sees entry.2.visibility), store.ascending.filter _⟩

theorem get?_visible_eq_some_iff {store : Store} {key : String} {solution : Solution} :
    OrderedMap.get? (visible sees store) key = some solution ↔
      OrderedMap.get? store key = some solution ∧ sees solution.visibility := by
  rw [OrderedMap.get?_eq_some_iff, OrderedMap.get?_eq_some_iff, visible, List.mem_filter,
    decide_eq_true_eq]

theorem get?_visible_eq_none {store : Store} {key : String}
    (unknown : OrderedMap.get? store key = none) :
    OrderedMap.get? (visible sees store) key = none := by
  rw [Option.eq_none_iff_forall_ne_some]
  intro solution found
  have known := (get?_visible_eq_some_iff.mp found).1
  rw [unknown] at known
  cases known

theorem visible_put {store : Store} {key : String}
    (unknown : OrderedMap.get? store key = none) (solution : Solution) :
    visible sees (put store key solution) =
      if sees solution.visibility then put (visible sees store) key solution
      else visible sees store := by
  apply OrderedMap.ext_get?
  intro name
  apply Option.ext
  intro value
  rw [get?_visible_eq_some_iff, put, OrderedMap.get?_insert]
  by_cases seen : sees solution.visibility
  · rw [if_pos seen, put, OrderedMap.get?_insert]
    by_cases here : name = key
    · simp only [here, if_true, Option.some.injEq, and_iff_left_iff_imp]
      rintro rfl
      exact seen
    · rw [if_neg here, if_neg here, get?_visible_eq_some_iff]
  · rw [if_neg seen]
    by_cases here : name = key
    · rw [if_pos here, here, get?_visible_eq_none unknown]
      simp only [Option.some.injEq, reduceCtorEq, iff_false, not_and]
      rintro rfl
      exact seen
    · rw [if_neg here, get?_visible_eq_some_iff]

end Store

theorem JoinKeys.arrivedOn_visible (keys : JoinKeys) (store : Store) (side : Side) :
    keys.arrivedOn (store.visible sees) side = visible sees (keys.arrivedOn store side) := by
  rw [arrivedOn, arrivedOn, Store.visible, visible, List.filter_map, List.filter_comm]
  rfl

theorem JoinKeys.keyed_visible {keys : JoinKeys} {store : Store} (keyed : keys.Keyed store) :
    keys.Keyed (store.visible sees) :=
  fun entry member => keyed entry (List.mem_filter.mp member).1

def Arrival.visible (sees : String → Prop) [DecidablePred sees] (arrivals : List Arrival) :
    List Arrival :=
  arrivals.filter (fun arrival => sees arrival.2.visibility)

theorem Arrival.visible_rightFirst (lefts rights : List Solution) :
    visible sees (rightFirst lefts rights) =
      rightFirst (Guarded.visible sees lefts) (Guarded.visible sees rights) := by
  rw [visible, rightFirst, List.filter_append, List.filter_map, List.filter_map]
  rfl

namespace Processor

theorem join_visible (clearance : Clearance sees) {keys : JoinKeys} {store : Store}
    {seen : List Arrival} {side : Side} {arrived : Solution}
    (remembers : keys.Remembers store seen)
    (separates : keys.Separates (seen ++ [(side, arrived)])) :
    (if sees arrived.visibility then join .natural keys (store.visible sees) side arrived
      else ([], store.visible sees)) =
      (visible sees (join .natural keys store side arrived).1,
        (join .natural keys store side arrived).2.visible sees) := by
  cases found : OrderedMap.get? store (keys.key side arrived) with
  | some stored =>
    obtain ⟨rfl, -⟩ := remembers.eq_of_get? separates found
    rw [JoinKeys.join_eq_unchanged found]
    by_cases visible : sees stored.visibility
    · rw [if_pos visible, JoinKeys.join_eq_unchanged
        (Store.get?_visible_eq_some_iff.mpr ⟨found, visible⟩)]
      rfl
    · rw [if_neg visible]
      rfl
  | none =>
    have absent : OrderedMap.get? (store.visible sees) (keys.key side arrived) = none :=
      Store.get?_visible_eq_none found
    rw [JoinKeys.join_eq_put remembers.keyed found, visible_news clearance,
      Store.visible_put found]
    by_cases visible : sees arrived.visibility
    · rw [if_pos visible, if_pos visible, if_pos visible,
        JoinKeys.join_eq_put (JoinKeys.keyed_visible remembers.keyed) absent,
        ← JoinKeys.arrivedOn_visible, Store.visible_put found, if_pos visible]
    · rw [if_neg visible, if_neg visible, if_neg visible]

theorem joinAll_visible (clearance : Clearance sees) {keys : JoinKeys} {arrivals : List Arrival}
    (separates : keys.Separates arrivals) :
    joinAll .natural keys OrderedMap.empty (Arrival.visible sees arrivals) =
      (visible sees (joinAll .natural keys OrderedMap.empty arrivals).1,
        (joinAll .natural keys OrderedMap.empty arrivals).2.visible sees) := by
  induction arrivals using List.reverseRecOn with
  | nil => rfl
  | append_singleton earlier arrival ih =>
    obtain ⟨side, arrived⟩ := arrival
    have before := separates.mono fun arrival member => List.mem_append_left _ member
    have step := join_visible clearance (joinAll_remembers .natural before).1 separates
    by_cases seen : sees arrived.visibility
    · have shown : Arrival.visible sees (earlier ++ [(side, arrived)]) =
          Arrival.visible sees earlier ++ [(side, arrived)] := by
        simp [Arrival.visible, seen]
      rw [if_pos seen] at step
      rw [shown, joinAll_append, joinAll_append, joinAll_singleton, joinAll_singleton, ih before,
        step, visible_append]
    · have hidden : Arrival.visible sees (earlier ++ [(side, arrived)]) =
          Arrival.visible sees earlier := by
        simp [Arrival.visible, seen]
      rw [if_neg seen] at step
      obtain ⟨nothing, unchanged⟩ := Prod.mk.inj step
      rw [hidden, ih before, joinAll_append, joinAll_singleton, visible_append, ← nothing,
        ← unchanged, List.append_nil]

end Processor

namespace Network

/-- What a reader sees of a network depends on the visible statements alone. -/
def Confined (sees : String → Prop) [DecidablePred sees] (network : Network)
    (statements : List Statement) : Prop :=
  (network.run (visible sees statements)).1 = visible sees (network.run statements).1

theorem visible_step {network : Network} {statements : List Statement} {last : Statement}
    (before : network.Confined sees statements)
    (after : network.Confined sees (statements ++ [last])) :
    visible sees ((network.run statements).2.step last).1 =
      if sees last.visibility then ((network.run (visible sees statements)).2.step last).1
      else [] := by
  rw [Confined, visible_concat, run_concat, visible_append, ← before] at after
  by_cases seen : sees last.visibility
  · rw [if_pos seen, run_concat] at after
    rw [if_pos seen]
    exact (List.append_cancel_left after).symm
  · rw [if_neg seen] at after
    rw [if_neg seen]
    exact List.self_eq_append_right.mp after

theorem arrivals_visible {left right : Network} {statements : List Statement}
    (leftConfined : ∀ part, part <+: statements → left.Confined sees part)
    (rightConfined : ∀ part, part <+: statements → right.Confined sees part) :
    arrivals left right (visible sees statements) =
      Arrival.visible sees (arrivals left right statements) := by
  induction statements using List.reverseRecOn with
  | nil => rfl
  | append_singleton earlier last ih =>
    have inside : earlier <+: earlier ++ [last] := List.prefix_append ..
    have onLeft := visible_step (leftConfined _ inside) (leftConfined _ (List.prefix_refl _))
    have onRight := visible_step (rightConfined _ inside) (rightConfined _ (List.prefix_refl _))
    have before := ih (fun part shorter => leftConfined part (shorter.trans inside))
      (fun part shorter => rightConfined part (shorter.trans inside))
    rw [arrivals_concat, Arrival.visible, List.filter_append, ← Arrival.visible, ← Arrival.visible,
      Arrival.visible_rightFirst, onLeft, onRight, visible_concat, ← before]
    by_cases seen : sees last.visibility
    · rw [if_pos seen, if_pos seen, if_pos seen, arrivals_concat]
    · rw [if_neg seen, if_neg seen, if_neg seen]
      exact (List.append_nil _).symm

end Network

namespace StageTree

theorem Plans.confined (clearance : Clearance sees) {algebra : Algebra NodeId} {plan : StageTree}
    (plans : Plans algebra plan) (inner : algebra.InnerJoins) {statements : List Statement}
    (free : ∀ statement ∈ statements, statement.content.SeparatorFree) :
    plan.initial.Confined sees statements := by
  induction plans generalizing statements with
  | pattern =>
    rw [Network.Confined, run_initial_pattern, run_initial_pattern, visible_matches]
  | projection _ ih =>
    rw [Network.Confined, run_initial_projection, run_initial_projection, ih inner free, visible_map]
    exact fun _ => rfl
  | rebinding _ ih =>
    rw [Network.Confined, run_initial_projection, run_initial_projection, ih inner free, visible_map]
    exact fun _ => rfl
  | join joins onLeft onRight leftIh rightIh =>
    obtain ⟨rfl, innerLeft, innerRight⟩ := inner
    cases joins
    have separates :=
      onLeft.separates_of_mandatory onRight innerLeft.mandatory innerRight.mandatory free
    have arrivals := Network.arrivals_visible
      (fun part before => leftIh innerLeft fun statement member =>
        free statement (before.subset member))
      (fun part before => rightIh innerRight fun statement member =>
        free statement (before.subset member))
    rw [Network.Confined, run_initial_join, run_initial_join, arrivals,
      Processor.joinAll_visible clearance separates]

end StageTree

namespace Tree

open ContinuousQuery.Topology

/-- Two sessions that differ in statements which a reader may not see look the same to the reader. -/
theorem session_visible {σ : Type} {tree : Tree} (built : tree.Built) (source : IdSource σ)
    (state : σ) {query : CompiledQuery} (compiled : tree.compile source state = .ok query)
    (statementTopic resultTopic : String) {topology : Topology}
    (assembled : query.assemble statementTopic resultTopic = .ok topology)
    {algebra : Algebra NodeId} (whole : tree.algebra? = some algebra) (inner : algebra.InnerJoins)
    (clearance : Clearance sees) {actions others : List Action}
    (free : ∀ statement ∈ Action.statements actions, statement.content.SeparatorFree)
    (same : Action.statements others = visible sees (Action.statements actions)) :
    (∀ answer ∈ (topology.converse actions topology.start).1, answer.Succeeded) ∧
      (∀ answer ∈ (topology.converse others topology.start).1, answer.Succeeded) ∧
      topology.sessionResults others = visible sees (topology.sessionResults actions) := by
  obtain ⟨found, plan, known, plans, rfl, distinct⟩ := exists_plan built compiled assembled
  cases whole.symm.trans known
  obtain ⟨succeeded, results⟩ := StageTree.session_topology distinct actions
  obtain ⟨otherSucceeded, otherResults⟩ := StageTree.session_topology distinct others
  refine ⟨succeeded, otherSucceeded, ?_⟩
  rw [results, otherResults, same]
  exact plans.confined clearance inner free

def seesWithoutW (visibility : String) : Prop := 'w' ∉ visibility.toList

instance : DecidablePred seesWithoutW := fun visibility =>
  inferInstanceAs (Decidable ('w' ∉ visibility.toList))

theorem clearance_seesWithoutW : Clearance seesWithoutW where
  everyone := by decide
  both := by simp [seesWithoutW]

theorem session_visible_twoSteps :
    let others : List Action := [.pipe ⟨⟨.iri "x", "p", .iri "x"⟩, "v"⟩, .read,
      .pipe ⟨⟨.iri "x", "p", .iri "x"⟩, "v"⟩]
    (∀ answer ∈ (twoStepsTopology.converse twoStepsActions twoStepsTopology.start).1,
      answer.Succeeded) ∧
      (∀ answer ∈ (twoStepsTopology.converse others twoStepsTopology.start).1,
        answer.Succeeded) ∧
      twoStepsTopology.sessionResults others =
        visible seesWithoutW (twoStepsTopology.sessionResults twoStepsActions) := by
  intro others
  have whole : twoSteps.algebra? = some (.unary ⟨4⟩ (.projection ["a", "c", "tag"])
      (.unary ⟨3⟩ (.rebinding [⟨.constant (.iri "t\x1f"), "tag"⟩])
        (.binary ⟨2⟩ .naturalJoin
          (.pattern ⟨0⟩ ⟨.variable "a", .iri "p", .variable "b"⟩)
          (.pattern ⟨1⟩ ⟨.variable "b", .iri "p", .variable "c"⟩)))) := by
    decide +kernel
  have compiled : twoSteps.compile .sequential 0 = .ok twoStepsQuery := by decide +kernel
  have assembled : twoStepsQuery.assemble "statements" "results" = .ok twoStepsTopology := by
    decide +kernel
  exact session_visible (built_ofGraphPattern _) .sequential 0 compiled "statements" "results"
    assembled whole ⟨rfl, trivial, trivial⟩ clearance_seesWithoutW (by decide) (by decide)

end Tree

end ContinuousQuery
