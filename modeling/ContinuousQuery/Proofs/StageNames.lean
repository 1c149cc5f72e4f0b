import ContinuousQuery.Proofs.Safety
import Mathlib.Data.List.Forall2
import Mathlib.Data.List.Nodup

/-!
The names of stages. Two plans of one operator tree differ in their ids at most, so their networks
are the same when they start and remember the same ever after. Ids only say where a store is, and
no client can tell apart two topologies of one tree.
-/

namespace ContinuousQuery

structure Stage.Corresponds (first second : Stores) (stage other : Stage) : Prop where
  renamed : other = { stage with id := other.id }
  store : stage.capability.stageKind = .join →
    (OrderedMap.get? first stage.id).getD OrderedMap.empty =
      (OrderedMap.get? second other.id).getD OrderedMap.empty

theorem Stage.Corresponds.node_eq {first second : Stores} {stage other : Stage}
    (corresponds : Corresponds first second stage other) : stage.node = other.node := by
  rw [corresponds.renamed]

namespace StageTree

inductive Renamed : StageTree → StageTree → Prop
  | pattern {node : NodeId} {id other : String} {triple : TriplePattern} :
      Renamed (.pattern node id triple) (.pattern node other triple)
  | projection {node : NodeId} {id other : String} {function : Projection}
      {inner twin : StageTree} (below : Renamed inner twin) :
      Renamed (.projection node id function inner) (.projection node other function twin)
  | join {node : NodeId} {id other : String} {joinType : JoinType} {keys : JoinKeys}
      {left right leftTwin rightTwin : StageTree} (onLeft : Renamed left leftTwin)
      (onRight : Renamed right rightTwin) :
      Renamed (.join node id joinType keys left right)
        (.join node other joinType keys leftTwin rightTwin)

namespace Renamed

variable {plan twin : StageTree}

theorem refl (plan : StageTree) : Renamed plan plan := by
  induction plan with
  | pattern => exact .pattern
  | projection _ _ _ _ ih => exact .projection ih
  | join _ _ _ _ _ _ left right => exact .join left right

theorem node_eq (renamed : Renamed plan twin) : twin.node = plan.node := by
  cases renamed <;> rfl

theorem initial_eq (renamed : Renamed plan twin) : plan.initial = twin.initial := by
  unfold initial
  induction renamed with
  | pattern => rfl
  | projection _ ih => rw [network, network, ih]
  | join _ _ left right =>
    rw [network, network, left, right]
    rfl

theorem corresponds (renamed : Renamed plan twin) {first second : Stores}
    (same : plan.network first = twin.network second) (side : Option Side) :
    List.Forall₂ (Stage.Corresponds first second) (plan.stages side) (twin.stages side) := by
  induction renamed generalizing side with
  | pattern => exact .cons ⟨rfl, fun join => by cases join⟩ .nil
  | projection below ih =>
    rw [network, network] at same
    injection same with _ inner
    refine .cons ⟨?_, fun join => by cases join⟩ (ih inner none)
    rw [below.node_eq]
  | join onLeft onRight leftIh rightIh =>
    rw [network, network] at same
    injection same with _ _ store left right
    refine .cons ⟨?_, fun _ => store⟩
      (List.rel_append (leftIh left (some .left)) (rightIh right (some .right)))
    rw [onLeft.node_eq, onRight.node_eq]

end Renamed

theorem Plans.renamed {algebra : Algebra NodeId} {plan twin : StageTree}
    (plans : Plans algebra plan) (others : Plans algebra twin) : Renamed plan twin := by
  induction plans generalizing twin with
  | pattern =>
    cases others with
    | pattern => exact .pattern
  | projection below ih =>
    cases others with
    | projection other => exact .projection (ih other)
    | rebinding => cases below
  | rebinding below ih =>
    cases others with
    | projection other => cases other
    | rebinding other => exact .projection (ih other)
  | join joins _ _ left right =>
    cases others with
    | join otherJoins onLeft onRight =>
      cases joins.symm.trans otherJoins
      exact .join (left onLeft) (right onRight)

/-- The states of two topologies show a client the same and remember the same. -/
structure Indistinct (plan twin : StageTree) (state other : RunState) : Prop where
  results : state.results = other.results
  network : plan.network state.stores = twin.network other.stores
  equipped : plan.Equipped state
  otherEquipped : twin.Equipped other

theorem Indistinct.exists_store {plan twin : StageTree} {state other : RunState}
    (indistinct : Indistinct plan twin state other) {stage counterpart : Stage}
    (corresponds : Stage.Corresponds state.stores other.stores stage counterpart)
    {side otherSide : Option Side} (member : stage ∈ plan.stages side)
    (otherMember : counterpart ∈ twin.stages otherSide)
    (join : stage.capability.stageKind = .join) :
    ∃ store, OrderedMap.get? state.stores stage.id = some store ∧
      OrderedMap.get? other.stores counterpart.id = some store := by
  have otherJoin : counterpart.capability.stageKind = .join := by
    rw [corresponds.renamed]
    exact join
  have own := indistinct.equipped stage.id
    ((plan.mem_joinIds_iff side).mpr ⟨stage, member, join, rfl⟩)
  have otherOwn := indistinct.otherEquipped counterpart.id
    ((twin.mem_joinIds_iff otherSide).mpr ⟨counterpart, otherMember, otherJoin, rfl⟩)
  obtain ⟨store, found⟩ := Option.isSome_iff_exists.mp own
  obtain ⟨otherStore, otherFound⟩ := Option.isSome_iff_exists.mp otherOwn
  have same := corresponds.store join
  rw [found, otherFound, Option.getD_some, Option.getD_some] at same
  exact ⟨store, found, otherFound.trans (congrArg some same.symm)⟩

section Topology

open ContinuousQuery.Topology

variable {plan twin : StageTree}
  (statementTopic resultTopic otherStatements otherResults : String)

theorem indistinct_start (renamed : Renamed plan twin) :
    Indistinct plan twin (plan.topology statementTopic resultTopic).start
      (twin.topology otherStatements otherResults).start where
  results := rfl
  network := by rw [network_start, network_start, renamed.initial_eq]
  equipped := equipped_start
  otherEquipped := equipped_start

variable (distinct : (sourceName :: formatterName :: sinkName :: plan.ids).Nodup)
  (otherDistinct : (sourceName :: formatterName :: sinkName :: twin.ids).Nodup)
include distinct otherDistinct

theorem act_indistinct (action : Action) {state other : RunState}
    (indistinct : Indistinct plan twin state other) :
    ((plan.topology statementTopic resultTopic).act action state).1 =
        ((twin.topology otherStatements otherResults).act action other).1 ∧
      Indistinct plan twin ((plan.topology statementTopic resultTopic).act action state).2
        ((twin.topology otherStatements otherResults).act action other).2 := by
  cases action with
  | pipe statement =>
    obtain ⟨after, piped, shown, network, kept⟩ := plan.pipe_topology distinct statementTopic
      resultTopic statement state indistinct.equipped
    obtain ⟨otherAfter, otherPiped, otherShown, otherNetwork, otherKept⟩ :=
      twin.pipe_topology otherDistinct otherStatements otherResults statement other
        indistinct.otherEquipped
    simp only [act, piped, otherPiped, true_and]
    refine ⟨?_, ?_, kept, otherKept⟩
    · rw [shown, otherShown, indistinct.results, indistinct.network]
    · rw [network, otherNetwork, indistinct.network]
  | read =>
    refine ⟨?_, rfl, indistinct.network, indistinct.equipped, indistinct.otherEquipped⟩
    exact congrArg Answer.results indistinct.results

theorem converse_indistinct (actions : List Action) {state other : RunState}
    (indistinct : Indistinct plan twin state other) :
    ((plan.topology statementTopic resultTopic).converse actions state).1 =
        ((twin.topology otherStatements otherResults).converse actions other).1 ∧
      Indistinct plan twin ((plan.topology statementTopic resultTopic).converse actions state).2
        ((twin.topology otherStatements otherResults).converse actions other).2 := by
  induction actions generalizing state other with
  | nil => exact ⟨rfl, indistinct⟩
  | cons action rest ih =>
    obtain ⟨answer, after⟩ := act_indistinct statementTopic resultTopic otherStatements
      otherResults distinct otherDistinct action indistinct
    obtain ⟨answers, last⟩ := ih after
    refine ⟨?_, last⟩
    simp only [converse, answer, answers]

end Topology

end StageTree

/-- Lists that are related place by place are related wherever their keys are equal, if related
entries have equal keys and no key is repeated. -/
theorem relation_of_key_eq {α β κ : Type} {relation : α → β → Prop} {first : List α}
    {second : List β} {key : α → κ} {otherKey : β → κ}
    (related : List.Forall₂ relation first second)
    (keyed : ∀ entry other, relation entry other → key entry = otherKey other)
    (nodup : (second.map otherKey).Nodup) {entry : α} (member : entry ∈ first) {other : β}
    (otherMember : other ∈ second) (same : key entry = otherKey other) : relation entry other := by
  obtain ⟨index, rfl⟩ := List.mem_iff_get.mp member
  have inside : index < second.length := related.length_eq ▸ index.isLt
  have partner := related.get index.isLt inside
  have here := List.inj_on_of_nodup_map nodup (List.get_mem ..) otherMember
    ((keyed _ _ partner).symm.trans same)
  exact here ▸ partner

namespace Tree

open ContinuousQuery.Topology

/-- Sessions with two topologies of one tree get the same answers and leave the same in the stores
of corresponding joins, whatever the ids of their stages are. -/
theorem converse_renamed {σ τ : Type} {tree : Tree} (built : tree.Built) {source : IdSource σ}
    {other : IdSource τ} {start : σ} {otherStart : τ} {query otherQuery : CompiledQuery}
    (compiled : tree.compile source start = .ok query)
    (otherCompiled : tree.compile other otherStart = .ok otherQuery)
    {statementTopic resultTopic otherStatements otherResults : String}
    {topology twin : Topology}
    (assembled : query.assemble statementTopic resultTopic = .ok topology)
    (otherAssembled : otherQuery.assemble otherStatements otherResults = .ok twin)
    (actions : List Action) :
    let session := topology.converse actions topology.start
    let otherSession := twin.converse actions twin.start
    session.1 = otherSession.1 ∧
      query.stages.map Stage.node = otherQuery.stages.map Stage.node ∧
      ∀ stage ∈ query.stages, ∀ counterpart ∈ otherQuery.stages,
        stage.node = counterpart.node →
          counterpart = { stage with id := counterpart.id } ∧
          (stage.capability.stageKind = .join → ∃ store,
            OrderedMap.get? session.2.stores stage.id = some store ∧
              OrderedMap.get? otherSession.2.stores counterpart.id = some store) := by
  intro session otherSession
  obtain ⟨algebra, plan, whole, plans, follows⟩ := follows_of_compile built.consistent compiled
  obtain ⟨other, otherPlan, otherWhole, otherPlans, otherFollows⟩ :=
    follows_of_compile built.consistent otherCompiled
  cases whole.symm.trans otherWhole
  obtain ⟨rfl, distinct⟩ := CompiledQuery.topology_of_assemble follows assembled
  obtain ⟨rfl, otherDistinct⟩ := CompiledQuery.topology_of_assemble otherFollows otherAssembled
  have renamed := plans.renamed otherPlans
  obtain ⟨answers, last⟩ := StageTree.converse_indistinct statementTopic resultTopic
    otherStatements otherResults distinct otherDistinct actions
    (StageTree.indistinct_start statementTopic resultTopic otherStatements otherResults renamed)
  have related := renamed.corresponds last.network none
  rw [← follows.stages, ← otherFollows.stages] at related
  have sameNodes : query.stages.map Stage.node = otherQuery.stages.map Stage.node := by
    rw [← List.forall₂_eq_eq_eq, List.forall₂_map_left_iff, List.forall₂_map_right_iff]
    exact related.imp fun _ _ corresponds => corresponds.node_eq
  have distinctNodes : (otherQuery.stages.map Stage.node).Nodup := by
    obtain ⟨represents, -⟩ := algebra?_eq_some_iff.mp whole
    rw [otherFollows.stages]
    exact built.consistent.nodup_nodes represents otherPlans none
  refine ⟨answers, sameNodes, fun stage member counterpart otherMember sameNode => ?_⟩
  have corresponds := relation_of_key_eq related
    (fun _ _ corresponds => corresponds.node_eq) distinctNodes member otherMember sameNode
  rw [follows.stages] at member
  rw [otherFollows.stages] at otherMember
  exact ⟨corresponds.renamed, last.exists_store corresponds member otherMember⟩

/-- The query of `optionalThirds` with ids that mislead about the kinds of its stages. -/
def misnamedThirdsQuery : CompiledQuery :=
  (optionalThirds.compile (.cycle ["SP_3", "SP_2", "JOIN_1", ""]) 0).toOption.getD ⟨[], []⟩

def misnamedThirdsTopology : Topology :=
  (misnamedThirdsQuery.assemble "" "results").toOption.getD Topology.empty

theorem converse_renamed_optionalThirds :
    let actions := [Action.pipe pairOfX, .read, .pipe thirdOfX]
    let session := optionalThirdsTopology.converse actions optionalThirdsTopology.start
    let otherSession := misnamedThirdsTopology.converse actions misnamedThirdsTopology.start
    optionalThirds.Built ∧ session.1 = otherSession.1 ∧
      ∃ store, OrderedMap.get? session.2.stores "JOIN_1" = some store ∧
        OrderedMap.get? otherSession.2.stores "SP_2" = some store := by
  intro actions session otherSession
  have built : optionalThirds.Built := built_ofOperators _
  have otherCompiled : optionalThirds.compile (.cycle ["SP_3", "SP_2", "JOIN_1", ""]) 0 =
      .ok misnamedThirdsQuery := by
    decide +kernel
  have otherAssembled : misnamedThirdsQuery.assemble "" "results" =
      .ok misnamedThirdsTopology := by
    decide +kernel
  obtain ⟨answers, -, corresponding⟩ := converse_renamed built compile_optionalThirds
    otherCompiled assemble_optionalThirds otherAssembled actions
  obtain ⟨stage, member, node, id, join⟩ : ∃ stage ∈ optionalThirdsQuery.stages,
      stage.node = ⟨2⟩ ∧ stage.id = "JOIN_1" ∧ stage.capability.stageKind = .join := by
    decide +kernel
  obtain ⟨counterpart, otherMember, otherNode, otherId⟩ :
      ∃ stage ∈ misnamedThirdsQuery.stages, stage.node = ⟨2⟩ ∧ stage.id = "SP_2" := by
    decide +kernel
  obtain ⟨-, stores⟩ :=
    corresponding stage member counterpart otherMember (node.trans otherNode.symm)
  rw [← id, ← otherId]
  exact ⟨built, answers, stores join⟩

end Tree

end ContinuousQuery
