import ContinuousQuery.Proofs.OrderedTopologies
import ContinuousQuery.Proofs.Readers
import Mathlib.Data.List.Forall2

/-!
What assembly makes of a query. The nodes stand for the stages from the last one to the first,
between the source and the two nodes of the results, and the edges between them are the edges
of the operator tree. Only ids with the names of the other nodes keep a query from being
assembled.
-/

namespace ContinuousQuery

open ContinuousQuery.Topology

namespace CompiledQuery

variable {query : CompiledQuery}

theorem wellFormed_of_addStage {topology grown : Topology} {stage : Stage}
    (wellFormed : topology.WellFormed) (added : query.addStage topology stage = .ok grown) :
    grown.WellFormed := by
  obtain ⟨parents, -, rest⟩ := bind_eq_ok_iff.mp added
  obtain ⟨middle, processor, stored⟩ := bind_eq_ok_iff.mp rest
  have next : middle.WellFormed := wellFormed.addNode Bool.noConfusion processor
  split at stored
  next => exact next.addStore stored
  next =>
    cases stored
    exact next

theorem wellFormed_of_foldlM {stages : List Stage} {topology grown : Topology}
    (wellFormed : topology.WellFormed)
    (added : stages.foldlM query.addStage topology = .ok grown) : grown.WellFormed := by
  induction stages generalizing topology with
  | nil =>
    cases added
    exact wellFormed
  | cons stage rest ih =>
    rw [List.foldlM_cons] at added
    obtain ⟨middle, first, later⟩ := bind_eq_ok_iff.mp added
    exact ih (wellFormed_of_addStage wellFormed first) later

/-- Assembly puts every node behind its parents, whatever the stages of the query are. -/
theorem wellFormed_of_assemble {statementTopic resultTopic : String} {topology : Topology}
    (assembled : query.assemble statementTopic resultTopic = .ok topology) :
    topology.WellFormed := by
  unfold assemble at assembled
  split at assembled
  next => cases assembled
  next root _ =>
    obtain ⟨start, source, steps⟩ := bind_eq_ok_iff.mp assembled
    obtain ⟨staged, stages, steps⟩ := bind_eq_ok_iff.mp steps
    obtain ⟨formatted, formatter, sink⟩ := bind_eq_ok_iff.mp steps
    have atStart : start.WellFormed := wellFormed_empty.addNode (fun _ => rfl) source
    have behindStages := wellFormed_of_foldlM atStart stages
    have behindFormatter : formatted.WellFormed :=
      behindStages.addNode Bool.noConfusion formatter
    exact behindFormatter.addNode Bool.noConfusion sink

def idsOfKind (query : CompiledQuery) (kind : StageKind) : List String :=
  ((query.stages.filter (fun stage => stage.capability.stageKind = kind)).map Stage.id).reverse

/-- The node does the work of the stage, with a store if it is a join, and receives from the source
or from the stages of the inputs, in their order. -/
structure Carries (query : CompiledQuery) (node : Topology.Node) (stage : Stage) : Prop where
  name : node.name = stage.id
  kind : node.kind = .processor (Processor.ofStage stage)
  parents : if stage.capability.stageKind = .pattern then node.parents = [sourceName]
    else node.parents.map some = stage.inputs.map query.idOf?
  stores : node.stores = if stage.capability.stageKind = .join then [stage.id] else []

/-- The node of a stage sends its results to the reader of the stage alone, and the node of the
first stage to the formatter. -/
structure Hosts (query : CompiledQuery) (node : Topology.Node) (stage : Stage) : Prop
    extends query.Carries node stage where
  children : if query.root? = some stage then node.children = [formatterName]
    else ∃ reader ∈ query.stages, stage.node ∈ reader.inputs ∧ node.children = [reader.id]

/-- The topology has the shape of the query, read from the operands to the operators. -/
structure Mirrors (query : CompiledQuery) (statementTopic resultTopic : String)
    (topology : Topology) : Prop where
  nodes : ∃ root hosts, query.root? = some root ∧
    List.Forall₂ query.Hosts hosts query.stages.reverse ∧
    topology.nodes =
      ⟨sourceName, .source ⟨statementTopic, .string, .statement⟩, [],
          query.idsOfKind .pattern, []⟩ ::
        (hosts ++
          [⟨formatterName, .processor ⟨formatterName, .formatter⟩, [root.id], [sinkName], []⟩,
            ⟨sinkName, .sink ⟨resultTopic, .string, .solution⟩, [formatterName], [], []⟩])
  /-- Every node comes after its parents. -/
  ordered : ∀ (position : Nat) (node : Topology.Node), topology.nodes[position]? = some node →
    ∀ parent ∈ node.parents, ∃ earlier < position,
      (topology.nodes[earlier]?).map (·.name) = some parent
  stores : topology.stores = (query.idsOfKind .join).map StoreSpec.joinState
  /-- A store belongs to the join with its name, once, and to no other node. -/
  attached : ∀ spec ∈ topology.stores, ∀ node ∈ topology.nodes,
    node.stores.count spec.name = if node.name = spec.name then 1 else 0

end CompiledQuery

namespace StageTree

theorem reverse_patterns (plan : StageTree) (side : Option Side) :
    (((plan.stages side).filter (fun stage => stage.capability.stageKind = .pattern)).map
      Stage.id).reverse = plan.patternIds := by
  induction plan generalizing side with
  | pattern => rfl
  | projection _ _ _ _ ih => simpa [stages, patternIds, Capability.stageKind] using ih none
  | join _ _ _ _ _ _ left right =>
    rw [patternIds, ← left (some .left), ← right (some .right)]
    simp [stages, Capability.stageKind]

theorem reverse_joins (plan : StageTree) (side : Option Side) :
    (((plan.stages side).filter (fun stage => stage.capability.stageKind = .join)).map
      Stage.id).reverse = plan.joinIds := by
  induction plan generalizing side with
  | pattern => rfl
  | projection _ _ _ _ ih => simpa [stages, joinIds, Capability.stageKind] using ih none
  | join _ _ _ _ _ _ left right =>
    rw [joinIds, ← left (some .left), ← right (some .right)]
    simp [stages, Capability.stageKind]

theorem node_of_head? {plan : StageTree} {side : Option Side} {stage : Stage}
    (first : (plan.stages side).head? = some stage) : stage.node = plan.node := by
  cases plan <;> cases first <;> rfl

theorem forall₂_wired {query : CompiledQuery} {plan : StageTree} {side : Option Side}
    (known : ∀ stage ∈ plan.stages side, query.idOf? stage.node = some stage.id)
    (children : List String) :
    List.Forall₂ (fun node stage => query.Carries node stage ∧
      ((plan.stages side).head? = some stage ∧ node.children = children ∨
        ∃ reader ∈ plan.stages side, stage.node ∈ reader.inputs ∧ node.children = [reader.id]))
      (plan.wired side children) (plan.stages side).reverse := by
  induction plan generalizing side children with
  | pattern node id triple =>
    exact .cons ⟨⟨rfl, rfl, rfl, rfl⟩, .inl ⟨rfl, rfl⟩⟩ .nil
  | projection node id function inner ih =>
    obtain ⟨-, knownBelow⟩ := List.forall_mem_cons.mp known
    have input : query.idOf? inner.node = some inner.id := CompiledQuery.idOf?_node knownBelow
    rw [stages, List.reverse_cons]
    refine List.rel_append ((ih knownBelow [id]).imp ?_) (.cons ⟨⟨rfl, rfl, ?_, rfl⟩,
      .inl ⟨rfl, rfl⟩⟩ .nil)
    · rintro host stage ⟨carries, ⟨first, alone⟩ | ⟨reader, inside, listed, alone⟩⟩
      · exact ⟨carries, .inr ⟨_, List.mem_cons_self, by simp [node_of_head? first], alone⟩⟩
      · exact ⟨carries, .inr ⟨reader, List.mem_cons_of_mem _ inside, listed, alone⟩⟩
    · simp [Capability.stageKind, input]
  | join node id joinType keys left right leftIh rightIh =>
    obtain ⟨-, knownBelow⟩ := List.forall_mem_cons.mp known
    obtain ⟨knownLeft, knownRight⟩ := List.forall_mem_append.mp knownBelow
    have leftInput : query.idOf? left.node = some left.id := CompiledQuery.idOf?_node knownLeft
    have rightInput : query.idOf? right.node = some right.id := CompiledQuery.idOf?_node knownRight
    rw [stages, List.reverse_cons, List.reverse_append, List.append_assoc]
    refine List.rel_append ((rightIh knownRight [id]).imp ?_) (List.rel_append
      ((leftIh knownLeft [id]).imp ?_) (.cons ⟨⟨rfl, rfl, ?_, rfl⟩, .inl ⟨rfl, rfl⟩⟩ .nil))
    · rintro host stage ⟨carries, ⟨first, alone⟩ | ⟨reader, inside, listed, alone⟩⟩
      · exact ⟨carries, .inr ⟨_, List.mem_cons_self, by simp [node_of_head? first], alone⟩⟩
      · exact ⟨carries, .inr ⟨reader, by simp [inside], listed, alone⟩⟩
    · rintro host stage ⟨carries, ⟨first, alone⟩ | ⟨reader, inside, listed, alone⟩⟩
      · exact ⟨carries, .inr ⟨_, List.mem_cons_self, by simp [node_of_head? first], alone⟩⟩
      · exact ⟨carries, .inr ⟨reader, by simp [inside], listed, alone⟩⟩
    · simp [Capability.stageKind, leftInput, rightInput]

end StageTree

theorem exists_related_of_mem {α β : Type} {relation : α → β → Prop} {first : List α}
    {second : List β} (related : List.Forall₂ relation first second) {value : α}
    (member : value ∈ first) : ∃ other ∈ second, relation value other := by
  induction related with
  | nil => cases member
  | cons here _ ih =>
    rcases List.mem_cons.mp member with rfl | later
    · exact ⟨_, List.mem_cons_self, here⟩
    · obtain ⟨other, inside, holds⟩ := ih later
      exact ⟨other, List.mem_cons_of_mem _ inside, holds⟩

namespace CompiledQuery

section Follows

variable {query : CompiledQuery} {plan : StageTree} (follows : query.Follows plan)
include follows

theorem Follows.nodup_ids : (query.stages.map Stage.id).Nodup := by
  rw [follows.stages, StageTree.ids_stages]
  exact follows.distinct

theorem Follows.id_mem_ids {stage : Stage} (member : stage ∈ query.stages) :
    stage.id ∈ plan.ids := by
  rw [← StageTree.ids_stages none, ← follows.stages]
  exact List.mem_map_of_mem member

theorem Follows.exists_assemble_iff (statementTopic resultTopic : String) :
    (∃ topology, query.assemble statementTopic resultTopic = .ok topology) ↔
      ∀ stage ∈ query.stages, stage.id ∉ [sourceName, formatterName, sinkName] := by
  constructor
  · rintro ⟨topology, assembled⟩ stage member reserved
    obtain ⟨notSource, notFormatter, notSink, -⟩ :=
      nodup_ends.mp (topology_of_assemble follows assembled).2
    have listed := follows.id_mem_ids member
    simp only [List.mem_cons, List.not_mem_nil, or_false] at reserved
    rcases reserved with same | same | same
    · exact notSource (same ▸ listed)
    · exact notFormatter (same ▸ listed)
    · exact notSink (same ▸ listed)
  · intro free
    have apart : ∀ name ∈ [sourceName, formatterName, sinkName], name ∉ plan.ids := by
      intro name reserved listed
      rw [← StageTree.ids_stages none, ← follows.stages] at listed
      obtain ⟨stage, member, rfl⟩ := List.mem_map.mp listed
      exact free stage member reserved
    refine ⟨_, assemble_eq_ok follows (nodup_ends.mpr ⟨?_, ?_, ?_, follows.distinct⟩) _ _⟩
    · exact apart _ (by simp)
    · exact apart _ (by simp)
    · exact apart _ (by simp)

variable (distinct : ((plan.stages none).map Stage.node).Nodup)
include distinct

theorem Follows.forall₂_hosts :
    List.Forall₂ query.Hosts (plan.wired none [formatterName]) query.stages.reverse := by
  rw [follows.stages]
  refine (StageTree.forall₂_wired follows.known [formatterName]).imp ?_
  rintro node stage ⟨carries, outlet⟩
  refine ⟨carries, ?_⟩
  rw [root?, follows.stages]
  rcases outlet with ⟨first, alone⟩ | ⟨reader, inside, listed, alone⟩
  · rw [if_pos first]
    exact alone
  · -- Nothing reads the first stage, so a stage with a reader is another one.
    have below : (plan.stages none).head? ≠ some stage := by
      intro first
      have unread := (List.nodup_cons.mp (StageTree.nodup_inputs distinct)).1
      exact unread (StageTree.node_of_head? first ▸ List.mem_flatMap.mpr ⟨reader, inside, listed⟩)
    rw [if_neg below]
    exact ⟨reader, inside, listed, alone⟩

theorem Follows.count_stores
    (unreserved : (sourceName :: formatterName :: sinkName :: plan.ids).Nodup) {store : String}
    (join : store ∈ plan.joinIds) (statementTopic resultTopic : String) :
    ∀ node ∈ (plan.topology statementTopic resultTopic).nodes,
      node.stores.count store = if node.name = store then 1 else 0 := by
  obtain ⟨notSource, notFormatter, notSink, -⟩ := nodup_ends.mp unreserved
  have listed := plan.joinIds_subset store join
  have stateless : ∀ node : Topology.Node, node.stores = [] → node.name ∉ plan.ids →
      node.stores.count store = if node.name = store then 1 else 0 := by
    intro node none other
    rw [none, if_neg (fun same : node.name = store => other (same ▸ listed)), List.count_nil]
  refine List.forall_mem_cons.mpr ⟨stateless _ rfl notSource, List.forall_mem_append.mpr ⟨?_,
    List.forall_mem_cons.mpr ⟨stateless _ rfl notFormatter,
      List.forall_mem_singleton.mpr (stateless _ rfl notSink)⟩⟩⟩
  intro node member
  obtain ⟨stage, inside, hosts⟩ := exists_related_of_mem (follows.forall₂_hosts distinct) member
  rw [hosts.name, hosts.stores]
  obtain ⟨joining, among, isJoin, rfl⟩ := (plan.mem_joinIds_iff none).mp join
  by_cases same : stage.id = joining.id
  · rw [← follows.stages] at among
    cases List.inj_on_of_nodup_map follows.nodup_ids (List.mem_reverse.mp inside) among same
    rw [if_pos isJoin, if_pos rfl, List.count_singleton_self]
  · rw [if_neg same]
    split
    next => exact List.count_eq_zero_of_not_mem (by simpa using Ne.symm same)
    next => rfl

theorem Follows.mirrors {statementTopic resultTopic : String} {topology : Topology}
    (assembled : query.assemble statementTopic resultTopic = .ok topology) :
    query.Mirrors statementTopic resultTopic topology := by
  have wellFormed := wellFormed_of_assemble assembled
  have hosts := follows.forall₂_hosts distinct
  obtain ⟨rfl, unreserved⟩ := topology_of_assemble follows assembled
  obtain ⟨root, isRoot, rootId⟩ := root?_of_follows follows
  refine ⟨⟨root, _, isRoot, hosts, ?_⟩, ?_, ?_, ?_⟩
  · rw [StageTree.topology, idsOfKind, follows.stages, plan.reverse_patterns, rootId]
  · intro position node found parent listed
    obtain ⟨earlier, less, named⟩ := wellFormed.parents position node found parent listed
    exact ⟨earlier, less, by rwa [← List.getElem?_map]⟩
  · rw [StageTree.topology, idsOfKind, follows.stages, plan.reverse_joins]
  · intro spec declared
    obtain ⟨store, join, rfl⟩ := List.mem_map.mp declared
    exact follows.count_stores distinct unreserved join statementTopic resultTopic

end Follows

end CompiledQuery

namespace Tree

/-- A compiled tree can be assembled unless the id of a stage is taken by another node, and then
the topology mirrors the tree. -/
theorem assemble_mirrors {σ : Type} {tree : Tree} (built : tree.Built) (source : IdSource σ)
    (initial : σ) {query : CompiledQuery} (compiled : tree.compile source initial = .ok query)
    (statementTopic resultTopic : String) :
    ((∃ topology, query.assemble statementTopic resultTopic = .ok topology) ↔
      ∀ stage ∈ query.stages, stage.id ∉ [sourceName, formatterName, sinkName]) ∧
      ∀ topology, query.assemble statementTopic resultTopic = .ok topology →
        query.Mirrors statementTopic resultTopic topology := by
  obtain ⟨algebra, plan, found, plans, follows⟩ := follows_of_compile built.consistent compiled
  obtain ⟨represents, -⟩ := algebra?_eq_some_iff.mp found
  have distinct := built.consistent.nodup_nodes represents plans none
  exact ⟨follows.exists_assemble_iff statementTopic resultTopic,
    fun _ assembled => follows.mirrors distinct assembled⟩

def pairedWithItselfTopology : Topology :=
  (pairedWithItselfQuery.assemble "statements" "results").toOption.getD Topology.empty

theorem assemble_mirrors_pairedWithItself :
    pairedWithItself.Built ∧
      pairedWithItselfQuery.Mirrors "statements" "results" pairedWithItselfTopology ∧
      pairedWithItselfTopology.nodes.map (fun node => (node.name, node.parents, node.children)) =
        [(sourceName, [], ["w", "z"]), ("w", [sourceName], ["x"]), ("z", [sourceName], ["y"]),
          ("y", ["z"], ["x"]), ("x", ["y", "w"], [formatterName]),
          (formatterName, ["x"], [sinkName]), (sinkName, [formatterName], [])] ∧
      ¬∃ query, pairedWithItself.compile (.cycle ["x", sinkName, "z", "w"]) 0 = .ok query ∧
        ∃ topology, query.assemble "statements" "results" = .ok topology := by
  have built : pairedWithItself.Built := built_ofOperators _
  have compiled : pairedWithItself.compile (.cycle ["x", "y", "z", "w"]) 0 =
      .ok pairedWithItselfQuery := by
    decide +kernel
  have assembled : pairedWithItselfQuery.assemble "statements" "results" =
      .ok pairedWithItselfTopology := by
    decide +kernel
  refine ⟨built, (assemble_mirrors built _ 0 compiled "statements" "results").2 _ assembled,
    by decide +kernel, ?_⟩
  rintro ⟨query, taken, assembles⟩
  have free := (assemble_mirrors built _ 0 taken "statements" "results").1.mp assembles
  have stages : (pairedWithItself.compile (.cycle ["x", sinkName, "z", "w"]) 0).map
      (fun query => query.stages.map Stage.id) = .ok ["x", sinkName, "z", "w"] := by
    decide +kernel
  rw [taken] at stages
  have ids : query.stages.map Stage.id = ["x", sinkName, "z", "w"] := Except.ok.inj stages
  have reserved : sinkName ∈ query.stages.map Stage.id := by
    rw [ids]
    simp
  obtain ⟨stage, member, same⟩ := List.mem_map.mp reserved
  exact free stage member (by simp [same])

end Tree

end ContinuousQuery
