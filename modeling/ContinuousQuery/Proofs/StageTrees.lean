import ContinuousQuery.Plan.CompiledQuery
import ContinuousQuery.Proofs.Effects
import ContinuousQuery.Proofs.Network
import ContinuousQuery.Proofs.OperatorTrees

/-!
Plans as trees. The stages of a compiled query are those of a tree which mirrors the algebra
of the query, except that a rebinding below a projection has no stage of its own. With the
stores of its joins filled in, such a tree is a network of operators.
-/

namespace ContinuousQuery

def BinaryKind.joinType? : BinaryKind → Option JoinType
  | .naturalJoin => some .natural
  | .leftOuterJoin false => some .leftOuter
  | .leftOuterJoin true | .union | .minus => none

theorem BinaryKind.joinType?_eq_some_iff {kind : BinaryKind} {joinType : JoinType} :
    kind.joinType? = some joinType ↔
      kind = .naturalJoin ∧ joinType = .natural ∨
        kind = .leftOuterJoin false ∧ joinType = .leftOuter := by
  cases kind with
  | leftOuterJoin filtered => cases filtered <;> simp [joinType?, eq_comm]
  | _ => simp [joinType?, eq_comm]

/-- The stages of a query, each with those that feed it. -/
inductive StageTree where
  | pattern (node : NodeId) (id : String) (triple : TriplePattern)
  | projection (node : NodeId) (id : String) (function : Projection) (inner : StageTree)
  | join (node : NodeId) (id : String) (joinType : JoinType) (keys : JoinKeys)
      (left right : StageTree)

namespace StageTree

def node : StageTree → NodeId
  | .pattern node _ _ | .projection node _ _ _ | .join node _ _ _ _ _ => node

def id : StageTree → String
  | .pattern _ id _ | .projection _ id _ _ | .join _ id _ _ _ _ => id

/-- The stages in the order of the visit, if the results enter a join on the given side. -/
def stages : Option Side → StageTree → List Stage
  | side, .pattern node id triple => [⟨node, id, side, .pattern triple, []⟩]
  | side, .projection node id function inner =>
    ⟨node, id, side, .projection function, [inner.node]⟩ :: inner.stages none
  | side, .join node id joinType keys left right =>
    ⟨node, id, side, .join joinType keys, [left.node, right.node]⟩ ::
      (left.stages (some .left) ++ right.stages (some .right))

def ids : StageTree → List String
  | .pattern _ id _ => [id]
  | .projection _ id _ inner => id :: inner.ids
  | .join _ id _ _ left right => id :: (left.ids ++ right.ids)

def joinIds : StageTree → List String
  | .pattern _ _ _ => []
  | .projection _ _ _ inner => inner.joinIds
  | .join _ id _ _ left right => right.joinIds ++ left.joinIds ++ [id]

def patternIds : StageTree → List String
  | .pattern _ id _ => [id]
  | .projection _ _ _ inner => inner.patternIds
  | .join _ _ _ _ left right => right.patternIds ++ left.patternIds

/-- The network whose joins remember what is in the stores of their stages. -/
def network (stores : Stores) : StageTree → Network
  | .pattern _ _ triple => .pattern triple
  | .projection _ _ function inner => .projection function (inner.network stores)
  | .join _ id joinType keys left right =>
    .join joinType keys ((OrderedMap.get? stores id).getD OrderedMap.empty) (left.network stores)
      (right.network stores)

theorem ids_stages (side : Option Side) (plan : StageTree) :
    (plan.stages side).map Stage.id = plan.ids := by
  induction plan generalizing side with
  | pattern => rfl
  | projection _ _ _ _ ih => simp only [stages, List.map_cons, ids, ih]
  | join _ _ _ _ _ _ left right =>
    simp only [stages, List.map_cons, List.map_append, ids, left, right]

theorem id_mem_ids (plan : StageTree) : plan.id ∈ plan.ids := by
  cases plan <;> exact List.mem_cons_self

theorem joinIds_subset (plan : StageTree) : ∀ id ∈ plan.joinIds, id ∈ plan.ids := by
  induction plan with
  | pattern => intro id member; cases member
  | projection _ _ _ _ ih => exact fun id member => List.mem_cons_of_mem _ (ih id member)
  | join _ _ _ _ _ _ left right =>
    intro id member
    simp only [joinIds, ids, List.mem_append, List.mem_cons, List.not_mem_nil, or_false]
      at member ⊢
    rcases member with (onRight | onLeft) | here
    · exact Or.inr (Or.inr (right id onRight))
    · exact Or.inr (Or.inl (left id onLeft))
    · exact Or.inl here

theorem patternIds_subset (plan : StageTree) : ∀ id ∈ plan.patternIds, id ∈ plan.ids := by
  induction plan with
  | pattern => exact fun id member => member
  | projection _ _ _ _ ih => exact fun id member => List.mem_cons_of_mem _ (ih id member)
  | join _ _ _ _ _ _ left right =>
    intro id member
    rcases List.mem_append.mp member with onRight | onLeft
    · exact List.mem_cons_of_mem _ (List.mem_append_right _ (right id onRight))
    · exact List.mem_cons_of_mem _ (List.mem_append_left _ (left id onLeft))

theorem network_congr {plan : StageTree} {first second : Stores}
    (same : ∀ id ∈ plan.joinIds, OrderedMap.get? first id = OrderedMap.get? second id) :
    plan.network first = plan.network second := by
  induction plan with
  | pattern => rfl
  | projection _ _ _ _ ih => rw [network, network, ih same]
  | join _ id _ _ left right leftIh rightIh =>
    have onRight : ∀ id ∈ right.joinIds, OrderedMap.get? first id = OrderedMap.get? second id :=
      fun id member => same id (by simp [joinIds, member])
    have onLeft : ∀ id ∈ left.joinIds, OrderedMap.get? first id = OrderedMap.get? second id :=
      fun id member => same id (by simp [joinIds, member])
    rw [network, network, leftIh onLeft, rightIh onRight, same id (by simp [joinIds])]

theorem mem_joinIds_iff (plan : StageTree) (side : Option Side) {id : String} :
    id ∈ plan.joinIds ↔
      ∃ stage ∈ plan.stages side, stage.capability.stageKind = .join ∧ stage.id = id := by
  induction plan generalizing side with
  | pattern => simp [joinIds, stages, Capability.stageKind]
  | projection _ _ _ _ ih =>
    rw [joinIds, stages, List.exists_mem_cons_iff, ← ih none, Capability.stageKind]
    simp
  | join _ top _ _ left right leftIh rightIh =>
    have parts : ∀ first second : List Stage,
        (∃ stage ∈ first ++ second, stage.capability.stageKind = .join ∧ stage.id = id) ↔
          (∃ stage ∈ first, stage.capability.stageKind = .join ∧ stage.id = id) ∨
            ∃ stage ∈ second, stage.capability.stageKind = .join ∧ stage.id = id := by
      intro first second
      simp only [List.mem_append, or_and_right, exists_or]
    rw [stages, List.exists_mem_cons_iff, parts, ← leftIh, ← rightIh, Capability.stageKind,
      joinIds, List.mem_append, List.mem_append, List.mem_singleton]
    tauto

/-- The plan of an algebra. A join lists the names that its operands bind. -/
inductive Plans : Algebra NodeId → StageTree → Prop
  | pattern {node : NodeId} {id : String} {triple : TriplePattern} :
      Plans (.pattern node triple) (.pattern node id triple)
  | projection {node : NodeId} {id : String} {names : List String} {operand : Algebra NodeId}
      {inner : StageTree} (below : Plans operand inner) :
      Plans (.unary node (.projection names) operand)
        (.projection node id (Projection.ofRebindings [] names) inner)
  | rebinding {node label : NodeId} {id : String} {names : List String}
      {elements : List Projection.Element} {operand : Algebra NodeId} {inner : StageTree}
      (below : Plans operand inner) :
      Plans (.unary node (.projection names) (.unary label (.rebinding elements) operand))
        (.projection node id (Projection.ofRebindings elements names) inner)
  | join {node : NodeId} {id : String} {kind : BinaryKind} {joinType : JoinType}
      {left right : Algebra NodeId} {first second : StageTree}
      (joins : kind.joinType? = some joinType) (onLeft : Plans left first)
      (onRight : Plans right second) :
      Plans (.binary node kind left right)
        (.join node id joinType (JoinKeys.plan left.names right.names) first second)

theorem Plans.node_eq {algebra : Algebra NodeId} {plan : StageTree} (plans : Plans algebra plan) :
    plan.node = algebra.label := by
  cases plans <;> rfl

theorem Plans.nodes_sublist {algebra : Algebra NodeId} {plan : StageTree}
    (plans : Plans algebra plan) (side : Option Side) :
    List.Sublist ((plan.stages side).map Stage.node) algebra.labels := by
  induction plans generalizing side with
  | pattern => exact List.Sublist.refl _
  | projection _ ih => exact (ih none).cons_cons _
  | rebinding _ ih => exact ((ih none).cons _).cons_cons _
  | join _ _ _ left right =>
    rw [stages, List.map_cons, List.map_append]
    exact ((left _).append (right _)).cons_cons _

end StageTree

namespace Compilation

open StageTree

variable {σ : Type} {tree : Tree} {source : IdSource σ}

theorem run_record (tree : Tree) (source : IdSource σ) (node : NodeId) (capability : Capability)
    (inputs : List NodeId) (draft : Draft σ) :
    (record tree source node capability inputs).run draft =
      let drawn := source.next capability.stageKind draft.state
      if draft.stages.any (fun stage => stage.id = drawn.1) then
        .error (.duplicateStageId drawn.1) ⟨drawn.2, draft.stages⟩
      else
        .ok () ⟨drawn.2,
          draft.stages ++ [⟨node, drawn.1, tree.side? node, capability, inputs⟩]⟩ := by
  rw [record, run_get_bind]
  by_cases known : draft.stages.any
      (fun stage => stage.id = (source.next capability.stageKind draft.state).1)
  · simp only [if_pos known]
    rfl
  · simp only [if_neg known]
    rfl

theorem stages_of_record {node : NodeId} {capability : Capability} {inputs : List NodeId}
    {draft after : Draft σ}
    (recorded : (record tree source node capability inputs).run draft = .ok () after) :
    ∃ id, after.stages = draft.stages ++ [⟨node, id, tree.side? node, capability, inputs⟩] ∧
      id ∉ draft.stages.map Stage.id := by
  rw [run_record] at recorded
  dsimp only at recorded
  split at recorded
  next => cases recorded
  next new =>
    cases recorded
    refine ⟨_, rfl, fun member => new ?_⟩
    obtain ⟨stage, known, same⟩ := List.mem_map.mp member
    exact List.any_eq_true.mpr ⟨stage, known, decide_eq_true same⟩

theorem ids_of_record {node : NodeId} {capability : Capability} {inputs : List NodeId}
    {draft after : Draft σ}
    (recorded : (record tree source node capability inputs).run draft = .ok () after)
    (nodup : (draft.stages.map Stage.id).Nodup) : (after.stages.map Stage.id).Nodup := by
  obtain ⟨id, same, new⟩ := stages_of_record recorded
  rw [same, List.map_append]
  exact nodup.append (List.nodup_singleton _) (by simpa using new)

theorem finish_eq_ok_iff {result : EStateM.Result CompileError (Draft σ) Unit}
    {query : CompiledQuery} {final : σ} :
    finish result = (.ok query, final) ↔
      ∃ draft, result = .ok () draft ∧ draft.query = query ∧ draft.state = final := by
  cases result <;> simp [finish]

theorem finish_eq_error_iff {result : EStateM.Result CompileError (Draft σ) Unit}
    {error : CompileError} {final : σ} :
    finish result = (.error error, final) ↔
      ∃ draft, result = .error error draft ∧ draft.state = final := by
  cases result <;> simp [finish]

/-- What a successful visit adds to a draft: the stages of a plan, all with new ids. -/
def Extends (tree : Tree) (algebra : Algebra NodeId) (draft after : Draft σ) : Prop :=
  ∃ plan, Plans algebra plan ∧
    after.stages = draft.stages ++ plan.stages (tree.side? algebra.label) ∧
    ((draft.stages.map Stage.id).Nodup → (after.stages.map Stage.id).Nodup)

theorem extends_projection {node : NodeId} {function : Projection} {draft middle after : Draft σ}
    {algebra inner : Algebra NodeId} (label : algebra.label = node)
    (plans : ∀ id plan, Plans inner plan → Plans algebra (.projection node id function plan))
    (side : tree.side? inner.label = none)
    (recorded : (record tree source node (.projection function) [inner.label]).run draft =
      .ok () middle)
    (visited : Extends tree inner middle after) : Extends tree algebra draft after := by
  obtain ⟨id, stages, -⟩ := stages_of_record recorded
  obtain ⟨plan, below, later, nodup⟩ := visited
  refine ⟨_, plans id plan below, ?_, fun unique => nodup (ids_of_record recorded unique)⟩
  rw [later, stages, label, StageTree.stages, below.node_eq, side, List.append_assoc]
  rfl

theorem extends_join (consistent : tree.Consistent) {node : NodeId} {kind : BinaryKind}
    {joinType : JoinType} {left right : Algebra NodeId} {draft middle second after : Draft σ}
    (represents : tree.Represents (.binary node kind left right))
    (joins : kind.joinType? = some joinType) (recorded : (record tree source node
      (joinOf tree joinType left.label right.label) [left.label, right.label]).run draft =
        .ok () middle)
    (onLeft : Extends tree left middle second) (onRight : Extends tree right second after) :
    Extends tree (.binary node kind left right) draft after := by
  cases represents with
  | binary found first last =>
    obtain ⟨id, stages, -⟩ := stages_of_record recorded
    obtain ⟨leftPlan, leftPlans, leftStages, leftNodup⟩ := onLeft
    obtain ⟨rightPlan, rightPlans, rightStages, rightNodup⟩ := onRight
    refine ⟨.join node id joinType _ leftPlan rightPlan, .join joins leftPlans rightPlans, ?_,
      fun unique => rightNodup (leftNodup (ids_of_record recorded unique))⟩
    rw [rightStages, leftStages, stages, StageTree.stages, leftPlans.node_eq, rightPlans.node_eq,
      consistent.side?_left found, consistent.side?_right found, joinOf,
      consistent.names_label first, consistent.names_label last]
    simp only [List.append_assoc, List.cons_append, List.nil_append, Algebra.label]

theorem extends_of_visit (consistent : tree.Consistent) {algebra : Algebra NodeId}
    (represents : tree.Represents algebra) {draft after : Draft σ}
    (visited : (visit tree source algebra).run draft = .ok () after) :
    Extends tree algebra draft after := by
  fun_induction visit tree source algebra generalizing draft after with
  | case1 node triple =>
    obtain ⟨id, stages, -⟩ := stages_of_record visited
    exact ⟨.pattern node id triple, .pattern, stages, ids_of_record visited⟩
  | case2 node names label elements operand ih =>
    obtain ⟨_, middle, recorded, later⟩ := run_bind_eq_ok_iff.mp visited
    cases represents with
    | unary found inner =>
      cases inner with
      | unary foundBelow inner =>
        exact extends_projection rfl (fun _ _ => .rebinding) (consistent.side?_unary foundBelow)
          recorded (ih inner later)
  | case3 node names operand _ ih =>
    obtain ⟨_, middle, recorded, later⟩ := run_bind_eq_ok_iff.mp visited
    cases represents with
    | unary found inner =>
      exact extends_projection rfl (fun _ _ => .projection) (consistent.side?_unary found)
        recorded (ih inner later)
  | case4 node left right leftIh rightIh =>
    obtain ⟨_, middle, recorded, later⟩ := run_bind_eq_ok_iff.mp visited
    obtain ⟨_, second, onLeft, onRight⟩ := run_bind_eq_ok_iff.mp later
    have operands := represents
    cases operands with
    | binary found first last =>
      exact extends_join consistent represents rfl recorded (leftIh first onLeft)
        (rightIh last onRight)
  | case5 node left right leftIh rightIh =>
    obtain ⟨_, middle, recorded, later⟩ := run_bind_eq_ok_iff.mp visited
    obtain ⟨_, second, onLeft, onRight⟩ := run_bind_eq_ok_iff.mp later
    have operands := represents
    cases operands with
    | binary found first last =>
      exact extends_join consistent represents rfl recorded (leftIh first onLeft)
        (rightIh last onRight)
  | case6 refused => cases visited

end Compilation

/-- The stages of a query are those of a plan, and the ids of stages can be told apart. -/
structure CompiledQuery.Follows (query : CompiledQuery) (plan : StageTree) : Prop where
  stages : query.stages = plan.stages none
  distinct : plan.ids.Nodup
  known : ∀ stage ∈ plan.stages none, query.idOf? stage.node = some stage.id

namespace Tree

theorem Consistent.nodup_nodes {tree : Tree} (consistent : tree.Consistent)
    {algebra : Algebra NodeId} (represents : tree.Represents algebra) {plan : StageTree}
    (plans : StageTree.Plans algebra plan) (side : Option Side) :
    ((plan.stages side).map Stage.node).Nodup :=
  (plans.nodes_sublist side).nodup (consistent.nodup_labels represents)

theorem follows_of_compile {σ : Type} {tree : Tree} (consistent : tree.Consistent)
    {source : IdSource σ} {state : σ} {query : CompiledQuery}
    (compiled : tree.compile source state = .ok query) :
    ∃ algebra plan, tree.algebra? = some algebra ∧ StageTree.Plans algebra plan ∧
      query.Follows plan := by
  unfold compile compileFrom at compiled
  split at compiled
  next => cases compiled
  next algebra found =>
    obtain ⟨draft, visited, rfl, -⟩ := Compilation.finish_eq_ok_iff.mp (Prod.ext compiled rfl)
    obtain ⟨represents, top⟩ := algebra?_eq_some_iff.mp found
    obtain ⟨plan, plans, stages, distinct⟩ :=
      Compilation.extends_of_visit consistent represents visited
    rw [side?_root top, List.nil_append] at stages
    have nodes := consistent.nodup_nodes represents plans none
    refine ⟨algebra, plan, found, plans, stages, ?_, ?_⟩
    · rw [← StageTree.ids_stages none plan, ← stages]
      exact distinct List.nodup_nil
    · intro stage member
      have entries : ((draft.stages.map (fun stage => (stage.node, stage.id))).map
          Prod.fst).Nodup := by
        rw [stages, List.map_map]
        exact nodes
      have entry : (stage.node, stage.id) ∈
          draft.stages.map (fun stage => (stage.node, stage.id)) := by
        rw [stages]
        exact List.mem_map_of_mem member
      rw [CompiledQuery.idOf?, Compilation.Draft.query, find?_eq_some_of_nodup entries entry]
      rfl

end Tree

end ContinuousQuery
