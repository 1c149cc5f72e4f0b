import ContinuousQuery.Proofs.Evaluation
import ContinuousQuery.Proofs.MirroredPlans
import ContinuousQuery.Proofs.Watching
import ContinuousQuery.Results.Json

/-!
The names that records bind. A tree says of every node which names its solutions may bind. What
the stage of a node forwards binds no other names, and all of them if the node is made of
patterns and natural joins. So a join has seen every name that its keys are made of, and the
columns of a query show all of a result.
-/

namespace ContinuousQuery

open ContinuousQuery.Topology

def Side.select {α : Type} (side : Side) (left right : α) : α :=
  match side with
  | .left => left
  | .right => right

theorem Side.select_of_inputs {side : Side} {left right own other : NodeId}
    (inputs : [left, right] = side.inputs own other) : side.select left right = own := by
  cases side <;> cases inputs <;> rfl

theorem StageResult.solution_ofSide (side : Option Side) (solution : Solution) :
    (StageResult.ofSide side solution).solution = solution := by
  cases side <;> rfl

namespace Tree

inductive Conjunctive (tree : Tree) : NodeId → Prop
  | pattern {id : NodeId} {triple : TriplePattern}
      (found : tree.operator? id = some (.pattern triple)) : Conjunctive tree id
  | join {id left right : NodeId}
      (found : tree.operator? id = some (.binary .naturalJoin left right))
      (onLeft : Conjunctive tree left) (onRight : Conjunctive tree right) : Conjunctive tree id

/-- A solution that binds only names of a node, and all of them if the node is conjunctive. -/
structure Fits (tree : Tree) (id : NodeId) (solution : Solution) : Prop where
  bound : ∀ name ∈ OrderedMap.names solution.content, name ∈ (tree.names id).names
  complete : tree.Conjunctive id →
    ∀ name ∈ (tree.names id).names, name ∈ OrderedMap.names solution.content

theorem not_conjunctive_unary {tree : Tree} {id operand : NodeId} {kind : UnaryKind}
    (found : tree.operator? id = some (.unary kind operand)) : ¬tree.Conjunctive id := by
  intro conjunctive
  cases conjunctive with
  | pattern other => cases found.symm.trans other
  | join other => cases found.symm.trans other

theorem Conjunctive.of_join {tree : Tree} {id left right : NodeId} {kind : BinaryKind}
    (found : tree.operator? id = some (.binary kind left right))
    (conjunctive : tree.Conjunctive id) :
    kind = .naturalJoin ∧ tree.Conjunctive left ∧ tree.Conjunctive right := by
  cases conjunctive with
  | pattern other => cases found.symm.trans other
  | join other onLeft onRight =>
    cases found.symm.trans other
    exact ⟨rfl, onLeft, onRight⟩

theorem Conjunctive.select {tree : Tree} {id left right : NodeId} {kind : BinaryKind}
    (found : tree.operator? id = some (.binary kind left right))
    (conjunctive : tree.Conjunctive id) (side : Side) :
    tree.Conjunctive (side.select left right) := by
  obtain ⟨-, onLeft, onRight⟩ := conjunctive.of_join found
  cases side with
  | left => exact onLeft
  | right => exact onRight

theorem Consistent.fits_match {tree : Tree} (consistent : tree.Consistent) {id : NodeId}
    {triple : TriplePattern} (found : tree.operator? id = some (.pattern triple))
    {statement : Statement} {solution : Solution}
    (matched : triple.matchStatement statement = some solution) : tree.Fits id solution := by
  have names : ∀ name, name ∈ OrderedMap.names solution.content ↔
      name ∈ (tree.names id).names := by
    intro name
    rw [consistent.names_of_operator? found]
    exact (Solution.mem_names_matchStatement matched).trans NameSet.mem_names_ofNames.symm
  exact ⟨fun name => (names name).mp, fun _ name => (names name).mpr⟩

theorem Consistent.fits_project {tree : Tree} (consistent : tree.Consistent) {id operand : NodeId}
    {names : List String} (found : tree.operator? id = some (.unary (.projection names) operand))
    (elements : List Projection.Element) (solution : Solution) :
    tree.Fits id ((Projection.ofRebindings elements names).project solution) where
  bound := by
    intro name bound
    rw [Solution.project_ofRebindings] at bound
    rw [consistent.names_of_operator? found]
    exact NameSet.mem_names_ofNames.mpr (Solution.mem_names_restrict bound)
  complete := fun conjunctive => absurd conjunctive (not_conjunctive_unary found)

theorem Consistent.mem_names_join {tree : Tree} (consistent : tree.Consistent)
    {id left right : NodeId} {kind : BinaryKind} {joinType : JoinType}
    (found : tree.operator? id = some (.binary kind left right))
    (joins : kind.joinType? = some joinType) {name : String} :
    name ∈ (tree.names id).names ↔
      name ∈ (tree.names left).names ∨ name ∈ (tree.names right).names := by
  have union : tree.names id = NameSet.union (tree.names left) (tree.names right) := by
    rw [consistent.names_of_operator? found]
    rcases BinaryKind.joinType?_eq_some_iff.mp joins with ⟨rfl, -⟩ | ⟨rfl, -⟩ <;> rfl
  rw [union, NameSet.mem_names_union]

theorem Consistent.fits_pair {tree : Tree} (consistent : tree.Consistent)
    {id left right : NodeId} {kind : BinaryKind} {joinType : JoinType}
    (found : tree.operator? id = some (.binary kind left right))
    (joins : kind.joinType? = some joinType) {side : Side} {arrived partner joined : Solution}
    (here : tree.Fits (side.select left right) arrived)
    (there : tree.Fits (side.opposite.select left right) partner)
    (paired : Solution.pair side arrived partner = some joined) : tree.Fits id joined := by
  have names : ∀ name, name ∈ OrderedMap.names joined.content ↔
      name ∈ OrderedMap.names arrived.content ∨ name ∈ OrderedMap.names partner.content := by
    intro name
    cases side with
    | left => exact Solution.mem_names_join paired
    | right => exact (Solution.mem_names_join paired).trans or_comm
  have operands : ∀ name, name ∈ (tree.names id).names ↔
      name ∈ (tree.names (side.select left right)).names ∨
        name ∈ (tree.names (side.opposite.select left right)).names := by
    intro name
    cases side with
    | left => exact consistent.mem_names_join found joins
    | right => exact (consistent.mem_names_join found joins).trans or_comm
  constructor
  · intro name bound
    exact (operands name).mpr (((names name).mp bound).imp (here.bound name) (there.bound name))
  · intro conjunctive name listed
    exact (names name).mpr (((operands name).mp listed).imp
      (here.complete (conjunctive.select found side) name)
      (there.complete (conjunctive.select found side.opposite) name))

theorem Consistent.mem_outputNames {tree : Tree} (consistent : tree.Consistent) {id : NodeId}
    {name : String} : name ∈ tree.outputNames id ↔ name ∈ (tree.names id).names := by
  unfold outputNames
  split
  next names operand found =>
    rw [consistent.names_of_operator? found]
    exact NameSet.mem_names_ofNames.symm
  next => exact Iff.rfl

/-- An entry in the store of a join lies under its key for a side whose operand it fits. -/
def Filed (tree : Tree) (keys : JoinKeys) (left right : NodeId) (entry : String × Solution) :
    Prop :=
  ∃ side : Side, entry.1 = keys.key side entry.2 ∧ tree.Fits (side.select left right) entry.2

theorem Filed.fullyBound {tree : Tree} {left right : NodeId} {entry : String × Solution}
    (filed : tree.Filed (JoinKeys.plan (tree.names left) (tree.names right)) left right entry)
    (onLeft : tree.Conjunctive left) (onRight : tree.Conjunctive right) :
    ∃ (side : Side) (rest : List String),
      entry.1 = JoinState.components (side.text :: JoinState.fullyBound :: rest) := by
  obtain ⟨side, key, fits⟩ := filed
  have complete : (JoinKeys.plan (tree.names left) (tree.names right)).Complete entry.2 := by
    intro name member
    obtain ⟨first, second⟩ := JoinKeys.mem_joinNames_plan.mp member
    rw [← OrderedMap.mem_names_iff]
    cases side with
    | left => exact fits.complete onLeft name first
    | right => exact fits.complete onRight name second
  rw [JoinKeys.key, JoinKeys.keyParts_eq, JoinKeys.mark, if_pos complete] at key
  exact ⟨side, _, key⟩

section Join

variable {tree : Tree} {left right : NodeId} {keys : JoinKeys} {store : Store} {side : Side}
  {arrived : Solution}

theorem filed_put (filed : ∀ entry ∈ store.entries, tree.Filed keys left right entry)
    (fits : tree.Fits (side.select left right) arrived) :
    ∀ entry ∈ (Store.put store (keys.key side arrived) arrived).entries,
      tree.Filed keys left right entry := by
  intro entry member
  rcases OrderedMap.mem_place member with rfl | earlier
  · exact ⟨side, rfl, fits⟩
  · exact filed entry earlier

theorem fits_of_mem_candidates (filed : ∀ entry ∈ store.entries, tree.Filed keys left right entry) :
    ∀ partner ∈ keys.candidates store side arrived,
      tree.Fits (side.opposite.select left right) partner := by
  intro partner member
  rw [JoinKeys.candidates_eq_filter] at member
  obtain ⟨entry, kept, rfl⟩ := List.mem_map.mp member
  obtain ⟨inside, reached⟩ := List.mem_filter.mp kept
  obtain ⟨origin, key, fits⟩ := filed entry inside
  rw [key] at reached
  exact JoinKeys.side_eq_of_reaches reached ▸ fits

theorem Consistent.join_fits (consistent : tree.Consistent) {id : NodeId} {kind : BinaryKind}
    {joinType : JoinType} (found : tree.operator? id = some (.binary kind left right))
    (joins : kind.joinType? = some joinType)
    (filed : ∀ entry ∈ store.entries, tree.Filed keys left right entry)
    (fits : tree.Fits (side.select left right) arrived) :
    (∀ joined ∈ (Processor.join joinType keys store side arrived).1, tree.Fits id joined) ∧
      ∀ entry ∈ (Processor.join joinType keys store side arrived).2.entries,
        tree.Filed keys left right entry := by
  by_cases known : OrderedMap.contains store (keys.key side arrived) = true
  · simp only [Processor.join, JoinKeys.insert?, known, if_true]
    exact ⟨List.forall_mem_nil _, filed⟩
  · have grown := filed_put filed fits
    simp only [Processor.join, JoinKeys.insert?, known, Bool.false_eq_true, if_false]
    refine ⟨fun joined member => ?_, grown⟩
    rw [JoinType.onArrival_eq_news, JoinType.news] at member
    rcases List.mem_append.mp member with paired | alone
    · obtain ⟨partner, candidate, same⟩ := List.mem_filterMap.mp paired
      exact consistent.fits_pair found joins fits (fits_of_mem_candidates grown partner candidate)
        same
    · split at alone
      next outer =>
        -- A solution without partners lacks names of the right operand, but then the join is no
        -- natural one.
        obtain ⟨rfl, rfl, -⟩ := outer
        cases List.mem_singleton.mp alone
        refine ⟨fun name bound => ?_, fun conjunctive => ?_⟩
        · exact (consistent.mem_names_join found joins).mpr (Or.inl (fits.bound name bound))
        · obtain ⟨rfl, -⟩ := conjunctive.of_join found
          cases joins
      next => cases alone

end Join

end Tree

inductive Stage.Implements (stage : Stage) (tree : Tree) : Prop
  | pattern {triple : TriplePattern} (capability : stage.capability = .pattern triple)
      (found : tree.operator? stage.node = some (.pattern triple))
  | projection {elements : List Projection.Element} {names : List String} {operand : NodeId}
      (capability : stage.capability = .projection (Projection.ofRebindings elements names))
      (found : tree.operator? stage.node = some (.unary (.projection names) operand))
  | join {kind : BinaryKind} {joinType : JoinType} {left right : NodeId}
      (capability : stage.capability =
        .join joinType (JoinKeys.plan (tree.names left) (tree.names right)))
      (inputs : stage.inputs = [left, right])
      (found : tree.operator? stage.node = some (.binary kind left right))
      (joins : kind.joinType? = some joinType)

theorem Stage.Implements.of_operator? {stage : Stage} {tree : Tree}
    (implements : stage.Implements tree) {kind : BinaryKind} {left right : NodeId}
    (found : tree.operator? stage.node = some (.binary kind left right)) :
    ∃ joinType, stage.capability =
        .join joinType (JoinKeys.plan (tree.names left) (tree.names right)) ∧
      stage.inputs = [left, right] := by
  cases implements with
  | join capability inputs shape =>
    cases found.symm.trans shape
    exact ⟨_, capability, inputs⟩
  | pattern _ shape => cases found.symm.trans shape
  | projection _ shape => cases found.symm.trans shape

theorem StageTree.Plans.implements {tree : Tree} (consistent : tree.Consistent)
    {algebra : Algebra NodeId} {plan : StageTree} (plans : Plans algebra plan)
    (represents : tree.Represents algebra) (side : Option Side) :
    ∀ stage ∈ plan.stages side, stage.Implements tree := by
  induction plans generalizing side with
  | pattern =>
    cases represents with
    | pattern found => exact List.forall_mem_singleton.mpr (.pattern rfl found)
  | projection _ ih =>
    cases represents with
    | unary found inner =>
      exact List.forall_mem_cons.mpr ⟨.projection rfl found, ih inner none⟩
  | rebinding _ ih =>
    cases represents with
    | unary found inner =>
      cases inner with
      | unary _ inner =>
        exact List.forall_mem_cons.mpr ⟨.projection rfl found, ih inner none⟩
  | join joins onLeft onRight leftIh rightIh =>
    cases represents with
    | binary found first last =>
      refine List.forall_mem_cons.mpr ⟨.join ?_ ?_ found joins,
        List.forall_mem_append.mpr ⟨leftIh first _, rightIh last _⟩⟩
      · rw [consistent.names_label first, consistent.names_label last]
      · rw [onLeft.node_eq, onRight.node_eq]

theorem StageTree.Plans.conjunctive {tree : Tree} {algebra : Algebra NodeId} {plan : StageTree}
    (plans : Plans algebra plan) (represents : tree.Represents algebra)
    (top : tree.Conjunctive algebra.label) (side : Option Side) :
    ∀ stage ∈ plan.stages side, tree.Conjunctive stage.node := by
  induction plans generalizing side with
  | pattern => exact List.forall_mem_singleton.mpr top
  | projection =>
    cases represents with
    | unary found => exact absurd top (Tree.not_conjunctive_unary found)
  | rebinding =>
    cases represents with
    | unary found => exact absurd top (Tree.not_conjunctive_unary found)
  | join joins onLeft onRight leftIh rightIh =>
    cases represents with
    | binary found first last =>
      obtain ⟨-, left, right⟩ := top.of_join found
      exact List.forall_mem_cons.mpr
        ⟨top, List.forall_mem_append.mpr ⟨leftIh first left _, rightIh last right _⟩⟩

namespace CompiledQuery

/-- A record for a node of the topology: what enters a join fits the operand on its side, and what
enters the last two nodes fits the root. -/
structure Takes (query : CompiledQuery) (tree : Tree) (name : String) (record : Record) : Prop where
  joins : ∀ stage ∈ query.stages, stage.id = name → ∀ side solution,
    record = .result (.binary side solution) → ∀ kind left right,
      tree.operator? stage.node = some (.binary kind left right) →
        tree.Fits (side.select left right) solution
  formatter : name = formatterName → ∀ root, query.root? = some root → ∀ result,
    record = .result result → tree.Fits root.node result.solution
  sink : name = sinkName → ∀ root, query.root? = some root → ∀ solution,
    record = .solution solution → tree.Fits root.node solution

/-- The names that are bound by what flows through the topology of a query and stays in it. -/
def boundNames (query : CompiledQuery) (tree : Tree) : Topology.Contract where
  takes := query.Takes tree
  forwards := fun name record => ∀ stage ∈ query.stages, stage.id = name →
    ∃ solution, record = .result (.ofSide stage.side solution) ∧ tree.Fits stage.node solution
  stores := fun stores => ∀ stage ∈ query.stages, ∀ joinType keys,
    stage.capability = .join joinType keys → ∃ store kind left right,
      OrderedMap.get? stores stage.id = some store ∧
        tree.operator? stage.node = some (.binary kind left right) ∧
        ∀ entry ∈ store.entries, tree.Filed keys left right entry
  results := fun solution => ∀ root, query.root? = some root → tree.Fits root.node solution

section Stages

variable {query : CompiledQuery} {tree : Tree} {stage : Stage}

theorem stored_insert (distinct : (query.stages.map Stage.id).Nodup)
    (member : stage ∈ query.stages) {joinType : JoinType} {keys : JoinKeys}
    (capability : stage.capability = .join joinType keys) {kind : BinaryKind} {left right : NodeId}
    (found : tree.operator? stage.node = some (.binary kind left right)) {stores : Stores}
    (stored : (query.boundNames tree).stores stores) {grown : Store}
    (filed : ∀ entry ∈ grown.entries, tree.Filed keys left right entry) :
    (query.boundNames tree).stores (OrderedMap.insert stores stage.id grown) := by
  intro other inside otherType otherKeys otherJoin
  by_cases same : other.id = stage.id
  · cases List.inj_on_of_nodup_map distinct inside member same
    cases capability.symm.trans otherJoin
    exact ⟨grown, kind, left, right, OrderedMap.get?_insert_self .., found, filed⟩
  · obtain ⟨kept, otherKind, first, second, unchanged, shape, entries⟩ :=
      stored other inside otherType otherKeys otherJoin
    exact ⟨kept, otherKind, first, second,
      (OrderedMap.get?_insert_of_ne _ _ same).trans unchanged, shape, entries⟩

theorem process_fits (consistent : tree.Consistent)
    (distinct : (query.stages.map Stage.id).Nodup) (member : stage ∈ query.stages)
    (implements : stage.Implements tree) {attached : List String} {stores after : Stores}
    {record : Record} {forwarded : List Record} (stored : (query.boundNames tree).stores stores)
    (taken : query.Takes tree stage.id record)
    (processed : (Processor.ofStage stage).process attached stores record =
      .ok (forwarded, after)) :
    (query.boundNames tree).stores after ∧ ∀ output ∈ forwarded,
      ∃ solution, output = .result (.ofSide stage.side solution) ∧
        tree.Fits stage.node solution := by
  cases implements with
  | @pattern triple capability found =>
    cases record with
    | statement statement =>
      simp only [Processor.process, Processor.ofStage, capability] at processed
      cases processed
      refine ⟨stored, List.forall_mem_map.mpr fun solution matched => ⟨solution, rfl, ?_⟩⟩
      exact consistent.fits_match found (Option.mem_toList.mp matched)
    | _ => simp only [Processor.process, Processor.ofStage, capability, reduceCtorEq] at processed
  | @projection elements names operand capability found =>
    cases record with
    | result result =>
      simp only [Processor.process, Processor.ofStage, capability] at processed
      cases processed
      exact ⟨stored, List.forall_mem_singleton.mpr
        ⟨_, rfl, consistent.fits_project found elements result.solution⟩⟩
    | _ => simp only [Processor.process, Processor.ofStage, capability, reduceCtorEq] at processed
  | @join kind joinType left right capability inputs found joins =>
    cases record with
    | result result =>
      cases result with
      | unary solution =>
        simp only [Processor.process, Processor.ofStage, capability, reduceCtorEq] at processed
      | binary side arrived =>
        simp only [Processor.process, Processor.ofStage, capability] at processed
        cases opened : Stores.open? stores attached stage.id with
        | none =>
          rw [opened] at processed
          cases processed
        | some store =>
          rw [opened] at processed
          cases processed
          obtain ⟨known, _, _, _, here, again, filed⟩ := stored stage member _ _ capability
          cases found.symm.trans again
          cases here.symm.trans (Stores.open?_eq_some_iff.mp opened).2
          obtain ⟨fits, grown⟩ := consistent.join_fits found joins filed
            (taken.joins stage member rfl side arrived rfl _ _ _ found)
          exact ⟨stored_insert distinct member capability found stored grown,
            List.forall_mem_map.mpr fun joined emitted => ⟨joined, rfl, fits joined emitted⟩⟩
    | _ => simp only [Processor.process, Processor.ofStage, capability, reduceCtorEq] at processed

end Stages

section Follows

variable {query : CompiledQuery} {plan : StageTree} {tree : Tree} (follows : query.Follows plan)
  (distinct : ((plan.stages none).map Stage.node).Nodup)
  (unreserved : (sourceName :: formatterName :: sinkName :: plan.ids).Nodup)
  (implements : ∀ stage ∈ query.stages, stage.Implements tree)
include follows

include implements in
theorem Follows.boundNames_start (statementTopic resultTopic : String) :
    (query.boundNames tree).stores (plan.topology statementTopic resultTopic).start.stores := by
  intro stage member joinType keys join
  have listed : stage.id ∈ plan.joinIds := by
    rw [plan.mem_joinIds_iff none, ← follows.stages]
    exact ⟨stage, member, by rw [join]; rfl, rfl⟩
  have declared := @StageTree.declared_start plan statementTopic resultTopic stage.id listed
  cases implements stage member with
  | join _ _ found => exact ⟨_, _, _, _, declared, found, List.forall_mem_nil _⟩
  | pattern capability => cases join.symm.trans capability
  | projection capability => cases join.symm.trans capability

include unreserved

theorem Follows.unreserved_id {stage : Stage} (member : stage ∈ query.stages) :
    stage.id ≠ formatterName ∧ stage.id ≠ sinkName := by
  obtain ⟨-, notFormatter, notSink, -⟩ := nodup_ends.mp unreserved
  have listed := follows.id_mem_ids member
  exact ⟨fun same => notFormatter (same ▸ listed), fun same => notSink (same ▸ listed)⟩

include distinct implements

theorem Follows.takes_child {stage : Stage} (member : stage ∈ query.stages) {node : Topology.Node}
    (hosts : query.Hosts node stage) {solution : Solution} (fits : tree.Fits stage.node solution) :
    ∀ child ∈ node.children, query.Takes tree child (.result (.ofSide stage.side solution)) := by
  have children := hosts.children
  split at children
  next root =>
    rw [children]
    refine List.forall_mem_singleton.mpr ⟨?_, ?_, ?_⟩
    · exact fun other inside taken => absurd taken (follows.unreserved_id unreserved inside).1
    · rintro - top isTop result ⟨⟩
      cases root.symm.trans isTop
      rw [StageResult.solution_ofSide]
      exact fits
    · rintro - _ _ _ ⟨⟩
  next =>
    obtain ⟨reader, reading, listed, alone⟩ := children
    rw [alone]
    refine List.forall_mem_singleton.mpr ⟨?_, ?_, ?_⟩
    · intro other inside same side arrived sent kind left right found
      cases List.inj_on_of_nodup_map follows.nodup_ids inside reading same
      cases follows.feeds distinct member reading listed with
      | alone _ _ unsided =>
        rw [unsided] at sent
        cases sent
      | paired _ inputs sided =>
        rw [sided] at sent
        cases sent
        obtain ⟨-, -, operands⟩ := (implements reader reading).of_operator? found
        rw [Side.select_of_inputs (operands.symm.trans inputs)]
        exact fits
    · exact fun taken => absurd taken (follows.unreserved_id unreserved reading).1
    · rintro - _ _ _ ⟨⟩

theorem Follows.binds_host (consistent : tree.Consistent) {stage : Stage}
    (member : stage ∈ query.stages) {node : Topology.Node} (hosts : query.Hosts node stage) :
    (query.boundNames tree).Binds node := by
  unfold Contract.Binds
  rw [hosts.kind]
  intro stores record forwarded after stored taken processed
  rw [hosts.name] at taken ⊢
  obtain ⟨kept, outputs⟩ := process_fits consistent follows.nodup_ids member
    (implements stage member) stored taken processed
  refine ⟨kept, fun output emitted => ?_⟩
  obtain ⟨solution, rfl, fits⟩ := outputs output emitted
  refine ⟨fun other inside same => ?_,
    follows.takes_child distinct unreserved implements member hosts fits⟩
  cases List.inj_on_of_nodup_map follows.nodup_ids inside member same
  exact ⟨solution, rfl, fits⟩

theorem Follows.binds_topology (consistent : tree.Consistent)
    (statementTopic resultTopic : String) :
    ∀ node ∈ (plan.topology statementTopic resultTopic).nodes,
      (query.boundNames tree).Binds node := by
  refine List.forall_mem_cons.mpr ⟨?_, List.forall_mem_append.mpr ⟨?_,
    List.forall_mem_cons.mpr ⟨?_, List.forall_mem_singleton.mpr ?_⟩⟩⟩
  · rintro statement child -
    exact ⟨by rintro _ _ _ _ _ ⟨⟩, by rintro _ _ _ _ ⟨⟩, by rintro _ _ _ _ ⟨⟩⟩
  · intro node member
    obtain ⟨stage, inside, hosts⟩ := exists_related_of_mem (follows.forall₂_hosts distinct) member
    exact follows.binds_host distinct unreserved implements consistent (List.mem_reverse.mp inside)
      hosts
  · intro stores record forwarded after stored taken processed
    cases record with
    | result result =>
      cases processed
      refine ⟨stored, List.forall_mem_singleton.mpr
        ⟨fun other inside same => absurd same (follows.unreserved_id unreserved inside).1, ?_⟩⟩
      refine List.forall_mem_singleton.mpr ⟨by rintro _ _ _ _ _ ⟨⟩, by rintro _ _ _ _ ⟨⟩, ?_⟩
      rintro - root top solution ⟨⟩
      exact taken.formatter rfl root top result rfl
    | _ => cases processed
  · intro solution taken root top
    exact taken.sink rfl root top solution rfl

end Follows

/-- The names that a query binds while it runs are those that its tree says. -/
structure BindsNames (query : CompiledQuery) (tree : Tree) (topology : Topology) : Prop where
  /-- All that the stage of a node forwards fits the node. -/
  forwarded : ∀ watched, topology.Observed watched → ∀ stage ∈ query.stages, ∀ record,
    ⟨stage.id, record⟩ ∈ watched.emissions → ∃ solution,
      record = .result (.ofSide stage.side solution) ∧ tree.Fits stage.node solution
  /-- The columns of the query show all that a result binds, also if a run is read at its end. -/
  shown : ∀ solution,
    ((∃ state, topology.Reachable state ∧ solution ∈ state.results) ∨
      ∃ statements results, topology.evaluate statements = .ok results ∧ solution ∈ results) →
    ∀ name term, OrderedMap.get? solution.content name = some term →
      name ∈ tree.columns ∧
        (name, term) ∈ Results.boundVariables tree.columns solution.content
  /-- Joins remember solutions that fit their operands, under their keys, which have the mark of
  solutions that bind all join names if the node is conjunctive. -/
  stored : ∀ state, topology.Reachable state → ∀ stage ∈ query.stages, ∀ joinType keys,
    stage.capability = .join joinType keys → ∃ store kind left right,
      OrderedMap.get? state.stores stage.id = some store ∧
        tree.operator? stage.node = some (.binary kind left right) ∧
        keys = JoinKeys.plan (tree.names left) (tree.names right) ∧
        ∀ entry ∈ store.entries, tree.Filed keys left right entry ∧
          (tree.Conjunctive stage.node → ∃ (side : Side) (rest : List String),
            entry.1 = JoinState.components (side.text :: JoinState.fullyBound :: rest))
  conjunctive : ∀ root, tree.root? = some root → tree.Conjunctive root →
    ∀ stage ∈ query.stages, tree.Conjunctive stage.node

end CompiledQuery

namespace Tree

/-- Whatever statements say, the topology of a compiled tree binds names as the tree says. -/
theorem binds_names {σ : Type} {tree : Tree} (built : tree.Built) (source : IdSource σ)
    (initial : σ) {query : CompiledQuery} (compiled : tree.compile source initial = .ok query)
    (statementTopic resultTopic : String) {topology : Topology}
    (assembled : query.assemble statementTopic resultTopic = .ok topology) :
    query.BindsNames tree topology := by
  have consistent := built.consistent
  obtain ⟨algebra, plan, whole, plans, follows⟩ := follows_of_compile consistent compiled
  obtain ⟨represents, isRoot⟩ := algebra?_eq_some_iff.mp whole
  have distinct := consistent.nodup_nodes represents plans none
  obtain ⟨rfl, unreserved⟩ := CompiledQuery.topology_of_assemble follows assembled
  have implements : ∀ stage ∈ query.stages, stage.Implements tree := by
    rw [follows.stages]
    exact plans.implements consistent represents none
  have holds : ∀ watched, (plan.topology statementTopic resultTopic).Observed watched →
      (query.boundNames tree).Holds watched := fun watched observed =>
    Contract.holds_of_observed
      (follows.binds_topology distinct unreserved implements consistent statementTopic resultTopic)
      (StageTree.nodup_nodeNames_topology unreserved statementTopic resultTopic)
      (follows.boundNames_start implements statementTopic resultTopic) observed
  have reached : ∀ state, (plan.topology statementTopic resultTopic).Reachable state →
      ∃ emissions, (query.boundNames tree).Holds ⟨state, emissions⟩ := by
    intro state reachable
    obtain ⟨emissions, observed⟩ := reachable_iff_observed.mp reachable
    exact ⟨emissions, holds _ observed⟩
  refine ⟨?_, ?_, ?_, ?_⟩
  · intro watched observed stage member record forwarded
    exact (holds watched observed).emissions _ forwarded stage member rfl
  · intro solution origin name term found
    obtain ⟨state, reachable, waiting⟩ :
        ∃ state, (plan.topology statementTopic resultTopic).Reachable state ∧
          solution ∈ state.results := by
      rcases origin with read | ⟨statements, results, evaluated, member⟩
      · exact read
      · exact exists_reachable_of_mem_evaluate evaluated solution member
    obtain ⟨emissions, kept⟩ := reached state reachable
    obtain ⟨root, top, -⟩ := CompiledQuery.root?_of_follows follows
    have rootNode : root.node = algebra.label := by
      rw [CompiledQuery.root?, follows.stages] at top
      exact (StageTree.node_of_head? top).trans plans.node_eq
    have listed : name ∈ tree.columns := by
      have bound := (kept.results solution waiting root top).bound name
        (OrderedMap.mem_names_iff.mpr (by rw [found]; rfl))
      rw [rootNode] at bound
      rw [columns, isRoot]
      exact consistent.mem_outputNames.mpr bound
    exact ⟨listed, List.mem_filterMap.mpr ⟨name, listed, by rw [found]; rfl⟩⟩
  · intro state reachable stage member joinType keys join
    obtain ⟨emissions, kept⟩ := reached state reachable
    obtain ⟨store, kind, left, right, here, found, filed⟩ :=
      kept.stores stage member joinType keys join
    obtain ⟨_, planned, -⟩ := (implements stage member).of_operator? found
    cases join.symm.trans planned
    refine ⟨store, kind, left, right, here, found, rfl, fun entry listed => ?_⟩
    refine ⟨filed entry listed, fun conjunctive => ?_⟩
    obtain ⟨-, onLeft, onRight⟩ := conjunctive.of_join found
    exact (filed entry listed).fullyBound onLeft onRight
  · intro root top conjunctive
    cases isRoot.symm.trans top
    rw [follows.stages]
    exact plans.conjunctive represents conjunctive none

/-- Paths of two steps, all names of which are shown. -/
def linkedSteps : Tree :=
  .ofGraphPattern (.basic [⟨.variable "a", .iri "p", .variable "b"⟩,
    ⟨.variable "b", .iri "p", .variable "c"⟩])

def linkedStepsQuery : CompiledQuery := (linkedSteps.compile .sequential 0).toOption.getD ⟨[], []⟩

def linkedStepsTopology : Topology :=
  (linkedStepsQuery.assemble "statements" "results").toOption.getD Topology.empty

def stepInPlace : Statement := ⟨⟨.iri "x", "p", .iri "x"⟩, "v"⟩

theorem binds_names_linkedSteps :
    linkedSteps.Built ∧ linkedSteps.Conjunctive ⟨2⟩ ∧ linkedSteps.columns = ["a", "b", "c"] ∧
      linkedStepsQuery.BindsNames linkedSteps linkedStepsTopology ∧
      (linkedStepsTopology.watch stepInPlace ⟨linkedStepsTopology.start, []⟩).emissions.map
          (fun emission => (emission.node, emission.record.text)) =
        [("SP_2", "RIGHT: {?b=<x>, ?c=<x>} [v]"), ("SP_1", "LEFT: {?a=<x>, ?b=<x>} [v]"),
          ("JOIN_0", "{?a=<x>, ?b=<x>, ?c=<x>} [v]"),
          (formatterName, "{?a=<x>, ?b=<x>, ?c=<x>} [v]")] := by
  have built : linkedSteps.Built := built_ofGraphPattern _
  have compiled : linkedSteps.compile .sequential 0 = .ok linkedStepsQuery := by decide +kernel
  have assembled : linkedStepsQuery.assemble "statements" "results" = .ok linkedStepsTopology := by
    decide +kernel
  have first : linkedSteps.operator? ⟨0⟩ =
      some (.pattern ⟨.variable "a", .iri "p", .variable "b"⟩) := by
    decide +kernel
  have second : linkedSteps.operator? ⟨1⟩ =
      some (.pattern ⟨.variable "b", .iri "p", .variable "c"⟩) := by
    decide +kernel
  have top : linkedSteps.operator? ⟨2⟩ = some (.binary .naturalJoin ⟨0⟩ ⟨1⟩) := by decide +kernel
  exact ⟨built, .join top (.pattern first) (.pattern second), by decide +kernel,
    binds_names built .sequential 0 compiled "statements" "results" assembled, by decide +kernel⟩

end Tree

end ContinuousQuery
