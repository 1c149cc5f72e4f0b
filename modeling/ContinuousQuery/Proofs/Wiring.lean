import ContinuousQuery.Topology.Assembly
import ContinuousQuery.Topology.Driver
import ContinuousQuery.Proofs.StageTrees

/-!
The topology of a plan. Assembly succeeds exactly if all nodes have different names, and then
every stage sends its results to the stage above it, the source sends statements to all
pattern stages from right to left, and every join has a store of its own.
-/

namespace ContinuousQuery

namespace Topology

def nodeNames (nodes : List Node) : List String := nodes.map (·.name)

theorem nodup_ends {ids : List String} :
    (sourceName :: formatterName :: sinkName :: ids).Nodup ↔
      sourceName ∉ ids ∧ formatterName ∉ ids ∧ sinkName ∉ ids ∧ ids.Nodup := by
  have ends : sourceName ≠ formatterName ∧ sourceName ≠ sinkName ∧ formatterName ≠ sinkName := by
    decide
  simp only [List.nodup_cons, List.mem_cons, not_or, ends, true_and, not_false_eq_true]

@[simp] theorem nodeNames_nil : nodeNames [] = [] := rfl

@[simp] theorem nodeNames_cons (node : Node) (rest : List Node) :
    nodeNames (node :: rest) = node.name :: nodeNames rest := rfl

@[simp] theorem nodeNames_append (first second : List Node) :
    nodeNames (first ++ second) = nodeNames first ++ nodeNames second := List.map_append

theorem mem_nodeNames {nodes : List Node} {node : Node} (member : node ∈ nodes) :
    node.name ∈ nodeNames nodes := List.mem_map_of_mem member

theorem getElem?_nodeNames {nodes : List Node} {position : Nat} {node : Node}
    (found : nodes[position]? = some node) : (nodeNames nodes)[position]? = some node.name := by
  rw [nodeNames, List.getElem?_map, found, Option.map_some]

theorem isSome_node?_iff {topology : Topology} {name : String} :
    (topology.node? name).isSome ↔ name ∈ nodeNames topology.nodes := by
  simp [node?, nodeNames]

theorem node?_eq_some_iff {topology : Topology} (distinct : (nodeNames topology.nodes).Nodup)
    {name : String} {node : Node} :
    topology.node? name = some node ↔ node ∈ topology.nodes ∧ node.name = name := by
  constructor
  · intro found
    exact ⟨List.mem_of_find?_eq_some found, by simpa using List.find?_some found⟩
  · rintro ⟨member, rfl⟩
    obtain ⟨other, found⟩ : ∃ other, topology.node? node.name = some other :=
      Option.isSome_iff_exists.mp (isSome_node?_iff.mpr (mem_nodeNames member))
    have same : other.name = node.name := by simpa using List.find?_some found
    rw [found, List.inj_on_of_nodup_map distinct (List.mem_of_find?_eq_some found) member same]

/-- The processors of the nodes are found under the names of the nodes. -/
def Provides (processors : Processors) (nodes : List Node) : Prop :=
  ∀ node ∈ nodes, ∀ processor, node.kind = .processor processor →
    OrderedMap.get? processors node.name = some processor

theorem provides_append {processors : Processors} {first second : List Node} :
    Provides processors (first ++ second) ↔
      Provides processors first ∧ Provides processors second :=
  List.forall_mem_append

theorem provides_cons {processors : Processors} {node : Node} {rest : List Node} :
    Provides processors (node :: rest) ↔
      (∀ processor, node.kind = .processor processor →
        OrderedMap.get? processors node.name = some processor) ∧ Provides processors rest :=
  List.forall_mem_cons

/-- A driver finds all of its processors, because no two nodes have the same name. -/
theorem provides_processors {topology : Topology} (distinct : (nodeNames topology.nodes).Nodup) :
    Provides topology.processors topology.nodes := by
  intro node member processor kind
  rw [nodeNames, List.nodup_iff_pairwise_ne, List.pairwise_map] at distinct
  rw [processors, OrderedMap.get?_ofList]
  apply OrderedMap.latest?_eq_some_of_nodup
  · rw [List.nodup_iff_pairwise_ne, List.pairwise_map]
    refine distinct.filterMap _ fun first second apart => ?_
    intro one fromFirst other fromSecond
    obtain ⟨_, -, rfl⟩ := Option.map_eq_some_iff.mp fromFirst
    obtain ⟨_, -, rfl⟩ := Option.map_eq_some_iff.mp fromSecond
    exact apart
  · refine List.mem_filterMap.mpr ⟨node, member, ?_⟩
    rw [Node.processor?, kind]
    rfl

def link (name : String) (parents : List String) (nodes : List Node) : List Node :=
  nodes.map (fun node =>
    { node with children := node.children ++ List.replicate (parents.count node.name) name })

def attach (store : String) (processors : List String) (nodes : List Node) : List Node :=
  nodes.map (fun node =>
    { node with stores := node.stores ++ List.replicate (processors.count node.name) store })

@[simp] theorem nodeNames_link (name : String) (parents : List String) (nodes : List Node) :
    nodeNames (link name parents nodes) = nodeNames nodes := by
  simp [nodeNames, link, Function.comp_def]

@[simp] theorem nodeNames_attach (store : String) (processors : List String) (nodes : List Node) :
    nodeNames (attach store processors nodes) = nodeNames nodes := by
  simp [nodeNames, attach, Function.comp_def]

theorem link_append (name : String) (parents : List String) (first second : List Node) :
    link name parents (first ++ second) = link name parents first ++ link name parents second :=
  List.map_append

theorem link_of_disjoint {name : String} {parents : List String} {nodes : List Node}
    (other : ∀ node ∈ nodeNames nodes, node ∉ parents) : link name parents nodes = nodes := by
  induction nodes with
  | nil => rfl
  | cons node rest ih =>
    obtain ⟨here, later⟩ := List.forall_mem_cons.mp other
    rw [link, List.map_cons, List.count_eq_zero_of_not_mem here, List.replicate_zero,
      List.append_nil]
    exact congrArg _ (ih later)

theorem attach_of_disjoint {store : String} {processors : List String} {nodes : List Node}
    (other : ∀ node ∈ nodeNames nodes, node ∉ processors) :
    attach store processors nodes = nodes := by
  induction nodes with
  | nil => rfl
  | cons node rest ih =>
    obtain ⟨here, later⟩ := List.forall_mem_cons.mp other
    rw [attach, List.map_cons, List.count_eq_zero_of_not_mem here, List.replicate_zero,
      List.append_nil]
    exact congrArg _ (ih later)

theorem addNode_eq_ok_iff {topology grown : Topology} {name : String} {kind : NodeKind}
    {parents : List String} :
    topology.addNode name kind parents = .ok grown ↔
      name ∉ nodeNames topology.nodes ∧ (∀ parent ∈ parents, parent ∈ nodeNames topology.nodes) ∧
        grown = ⟨link name parents topology.nodes ++ [⟨name, kind, parents, [], []⟩],
          topology.stores⟩ := by
  unfold addNode
  by_cases known : name ∈ nodeNames topology.nodes
  · rw [if_pos (isSome_node?_iff.mpr known)]
    simp [known]
  · rw [if_neg (mt isSome_node?_iff.mp known)]
    split
    next parent missing =>
      have unknown := List.find?_some missing
      have member := List.mem_of_find?_eq_some missing
      rw [Option.isNone_iff_eq_none, ← Option.not_isSome_iff_eq_none, isSome_node?_iff] at unknown
      simp only [reduceCtorEq, false_iff, not_and]
      exact fun _ present => absurd (present parent member) unknown
    next present =>
      have parents : ∀ parent ∈ parents, parent ∈ nodeNames topology.nodes := by
        intro parent member
        have here := List.find?_eq_none.mp present parent member
        rwa [Option.isNone_iff_eq_none, ← Option.not_isSome_iff_eq_none, not_not,
          isSome_node?_iff] at here
      simp only [Except.ok.injEq, known, not_false_eq_true, true_and]
      exact ⟨fun same => ⟨parents, same.symm⟩, fun ⟨_, same⟩ => same.symm⟩

theorem addStore_eq_ok_iff {topology grown : Topology} {spec : StoreSpec}
    {processors : List String} :
    topology.addStore spec processors = .ok grown ↔
      spec.name ∉ topology.stores.map (·.name) ∧
        (∀ name ∈ processors, (topology.node? name).any Node.isProcessor) ∧
          grown = ⟨attach spec.name processors topology.nodes, topology.stores ++ [spec]⟩ := by
  unfold addStore
  by_cases known : spec.name ∈ topology.stores.map (·.name)
  · have declared : topology.stores.any (fun store => store.name = spec.name) = true := by
      simpa using known
    rw [if_pos declared]
    simp [known]
  · have undeclared : ¬topology.stores.any (fun store => store.name = spec.name) = true := by
      simpa using known
    rw [if_neg undeclared]
    split
    next name missing =>
      have member := List.mem_of_find?_eq_some missing
      have refused := List.find?_some missing
      simp only [reduceCtorEq, false_iff, not_and]
      intro _ present
      rw [present name member] at refused
      cases refused
    next present =>
      have accepted : ∀ name ∈ processors, (topology.node? name).any Node.isProcessor := by
        intro name member
        have here := List.find?_eq_none.mp present name member
        simpa using here
      simp only [Except.ok.injEq, known, not_false_eq_true, true_and]
      exact ⟨fun same => ⟨accepted, same.symm⟩, fun ⟨_, same⟩ => same.symm⟩

theorem addStore_eq_ok {topology : Topology} {name : String} {node : Node}
    (found : topology.node? name = some node) (processor : node.isProcessor = true)
    (new : ∀ spec ∈ topology.stores, spec.name ≠ name) :
    topology.addStore (.joinState name) [name] =
      .ok ⟨attach name [name] topology.nodes, topology.stores ++ [.joinState name]⟩ := by
  refine addStore_eq_ok_iff.mpr ⟨?_, List.forall_mem_singleton.mpr ?_, rfl⟩
  · simpa [StoreSpec.joinState] using new
  · rw [found, Option.any_some, processor]

theorem nodeNames_of_addStore {topology grown : Topology} {spec : StoreSpec}
    {processors : List String} (added : topology.addStore spec processors = .ok grown) :
    nodeNames grown.nodes = nodeNames topology.nodes := by
  obtain ⟨-, -, rfl⟩ := addStore_eq_ok_iff.mp added
  exact nodeNames_attach ..

end Topology

open ContinuousQuery.Topology

namespace StageTree

/-- The nodes of the stages of a plan, whose results are sent to the given nodes. -/
def wired : Option Side → List String → StageTree → List Topology.Node
  | side, children, .pattern _ id triple =>
    [⟨id, .processor ⟨id, .stage (.pattern triple) side id⟩, [sourceName], children, []⟩]
  | side, children, .projection _ id function inner =>
    inner.wired none [id] ++
      [⟨id, .processor ⟨id, .stage (.projection function) side id⟩, [inner.id], children, []⟩]
  | side, children, .join _ id joinType keys left right =>
    right.wired (some .right) [id] ++ (left.wired (some .left) [id] ++
      [⟨id, .processor ⟨id, .stage (.join joinType keys) side id⟩, [left.id, right.id], children,
        [id]⟩])

def topology (statementTopic resultTopic : String) (plan : StageTree) : Topology where
  nodes := ⟨sourceName, .source ⟨statementTopic, .string, .statement⟩, [], plan.patternIds, []⟩ ::
    (plan.wired none [formatterName] ++
      [⟨formatterName, .processor ⟨formatterName, .formatter⟩, [plan.id], [sinkName], []⟩,
        ⟨sinkName, .sink ⟨resultTopic, .string, .solution⟩, [formatterName], [], []⟩])
  stores := plan.joinIds.map StoreSpec.joinState

theorem nodeNames_wired_perm (side : Option Side) (children : List String) (plan : StageTree) :
    (nodeNames (plan.wired side children)).Perm plan.ids := by
  induction plan generalizing side children with
  | pattern => exact List.Perm.refl _
  | projection _ id _ _ ih =>
    rw [wired, nodeNames_append]
    exact ((ih none [id]).append_right _).trans List.perm_append_comm
  | join _ id _ _ _ _ left right =>
    rw [wired, nodeNames_append, nodeNames_append]
    have below := ((right (some .right) [id]).append (left (some .left) [id])).trans
      List.perm_append_comm
    rw [← List.append_assoc]
    exact (below.append_right _).trans List.perm_append_comm

@[simp] theorem mem_nodeNames_wired {side : Option Side} {children : List String} {plan : StageTree}
    {name : String} : name ∈ nodeNames (plan.wired side children) ↔ name ∈ plan.ids :=
  (plan.nodeNames_wired_perm side children).mem_iff

theorem nodup_nodeNames_topology {plan : StageTree}
    (distinct : (sourceName :: formatterName :: sinkName :: plan.ids).Nodup)
    (statementTopic resultTopic : String) :
    (nodeNames (plan.topology statementTopic resultTopic).nodes).Nodup := by
  have names : (nodeNames (plan.topology statementTopic resultTopic).nodes).Perm
      (sourceName :: (plan.ids ++ [formatterName, sinkName])) := by
    rw [topology, nodeNames_cons, nodeNames_append]
    exact ((plan.nodeNames_wired_perm none [formatterName]).append_right _).cons sourceName
  rw [names.nodup_iff]
  exact (List.Perm.cons sourceName List.perm_append_comm).nodup_iff.mp distinct

theorem exists_stage (side : Option Side) (plan : StageTree) :
    ∃ stage ∈ plan.stages side, stage.node = plan.node ∧ stage.id = plan.id := by
  cases plan <;> exact ⟨_, List.mem_cons_self, rfl, rfl⟩

/-- Only the first stage of a plan gets a new child if no other stage is among the parents. -/
theorem link_wired {plan : StageTree} (distinct : plan.ids.Nodup) {name : String}
    {parents : List String} (once : parents.count plan.id = 1)
    (others : ∀ id ∈ plan.ids, id ≠ plan.id → id ∉ parents) (side : Option Side)
    (children : List String) :
    link name parents (plan.wired side children) = plan.wired side (children ++ [name]) := by
  have top : ∀ node : Topology.Node, node.name = plan.id → link name parents [node] =
      [{ node with children := node.children ++ [name] }] := by
    intro node same
    rw [link, List.map_singleton, same, once]
    rfl
  cases plan with
  | pattern node id triple => exact top _ rfl
  | projection node id function inner =>
    obtain ⟨new, -⟩ := List.nodup_cons.mp distinct
    rw [wired, wired, link, List.map_append]
    refine congr (congrArg _ (link_of_disjoint fun other member => ?_)) (top _ rfl)
    have below := mem_nodeNames_wired.mp member
    exact others other (List.mem_cons_of_mem _ below) (fun (same : other = id) => new (same ▸ below))
  | join node id joinType keys left right =>
    obtain ⟨new, -⟩ := List.nodup_cons.mp distinct
    have untouched : ∀ other ∈ left.ids ++ right.ids, other ∉ parents := fun other below =>
      others other (List.mem_cons_of_mem _ below) (fun (same : other = id) => new (same ▸ below))
    rw [wired, wired, link, List.map_append, List.map_append]
    refine congr (congrArg _ (link_of_disjoint fun other member => ?_))
      (congr (congrArg _ (link_of_disjoint fun other member => ?_)) (top _ rfl))
    · exact untouched other (List.mem_append_right _ (mem_nodeNames_wired.mp member))
    · exact untouched other (List.mem_append_left _ (mem_nodeNames_wired.mp member))

end StageTree

namespace CompiledQuery

theorem addStage_eq_ok {query : CompiledQuery} {topology : Topology} {stage : Stage}
    {parents : List String} (inputs : query.parentsOf stage = .ok parents)
    (new : stage.id ∉ nodeNames topology.nodes)
    (present : ∀ parent ∈ parents, parent ∈ nodeNames topology.nodes)
    (stateless : ∀ joinType keys, stage.capability ≠ .join joinType keys) :
    query.addStage topology stage =
      .ok ⟨link stage.id parents topology.nodes ++
        [⟨stage.id, .processor (Processor.ofStage stage), parents, [], []⟩], topology.stores⟩ := by
  have added : topology.addNode stage.id (.processor (Processor.ofStage stage)) parents = .ok _ :=
    addNode_eq_ok_iff.mpr ⟨new, present, rfl⟩
  rw [addStage, inputs]
  -- The alternative of a join is ruled out by the last hypothesis.
  simp only [bind, Except.bind, addProcessor, added]

theorem addStage_join_eq_ok {query : CompiledQuery} {topology : Topology} {stage : Stage}
    {parents : List String} {joinType : JoinType} {keys : JoinKeys}
    (join : stage.capability = .join joinType keys) (inputs : query.parentsOf stage = .ok parents)
    (new : stage.id ∉ nodeNames topology.nodes)
    (present : ∀ parent ∈ parents, parent ∈ nodeNames topology.nodes)
    (unused : ∀ spec ∈ topology.stores, spec.name ≠ stage.id) :
    query.addStage topology stage =
      .ok ⟨link stage.id parents topology.nodes ++
        [⟨stage.id, .processor (Processor.ofStage stage), parents, [], [stage.id]⟩],
        topology.stores ++ [.joinState stage.id]⟩ := by
  have added : topology.addNode stage.id (.processor (Processor.ofStage stage)) parents = .ok _ :=
    addNode_eq_ok_iff.mpr ⟨new, present, rfl⟩
  have others : ∀ node ∈ nodeNames (link stage.id parents topology.nodes), node ∉ [stage.id] := by
    intro node member here
    rw [nodeNames_link] at member
    exact new (List.mem_singleton.mp here ▸ member)
  have found : node? ⟨link stage.id parents topology.nodes ++ [⟨stage.id,
      .processor (Processor.ofStage stage), parents, [], []⟩], topology.stores⟩ stage.id =
        some ⟨stage.id, .processor (Processor.ofStage stage), parents, [], []⟩ := by
    have absent : (link stage.id parents topology.nodes).find?
        (fun node => node.name = stage.id) = none := by
      rw [List.find?_eq_none]
      intro node member same
      exact others node.name (mem_nodeNames member) (by simpa using same)
    rw [node?, List.find?_append, absent]
    simp
  have stored := addStore_eq_ok found rfl unused
  rw [addStage, inputs]
  simp only [bind, Except.bind, addProcessor, added, join, stored]
  rw [attach, List.map_append]
  refine congrArg Except.ok (congrArg (Topology.mk · _) ?_)
  refine congr (congrArg _ (attach_of_disjoint others)) ?_
  simp

theorem idOf?_node {query : CompiledQuery} {plan : StageTree} {side : Option Side}
    (known : ∀ stage ∈ plan.stages side, query.idOf? stage.node = some stage.id) :
    query.idOf? plan.node = some plan.id := by
  obtain ⟨stage, member, sameNode, sameId⟩ := StageTree.exists_stage side plan
  rw [← sameNode, ← sameId]
  exact known stage member

section Build

variable {query : CompiledQuery} {topic : Topic} {fed : List String} {nodes : List Topology.Node}
  {stores : List StoreSpec} {node : NodeId} {id : String} {side : Option Side}

def sourceNode (topic : Topic) (fed : List String) : Topology.Node :=
  ⟨sourceName, .source topic, [], fed, []⟩

theorem link_skip {name : String} {parents : List String} (source : sourceName ∉ parents)
    (others : ∀ node ∈ nodeNames nodes, node ∉ parents) :
    link name parents (sourceNode topic fed :: nodes) = sourceNode topic fed :: nodes :=
  link_of_disjoint (List.forall_mem_cons.mpr ⟨source, others⟩)

/-- The stages of a plan can be added behind some nodes and stores. -/
structure Fresh (nodes : List Topology.Node) (stores : List StoreSpec) (plan : StageTree) :
    Prop where
  source : sourceName ∉ nodeNames nodes
  distinct : plan.ids.Nodup
  other : sourceName ∉ plan.ids
  new : ∀ id ∈ plan.ids, id ∉ nodeNames nodes
  unused : ∀ spec ∈ stores, spec.name ∉ plan.ids

theorem Fresh.ofInner {function : Projection} {inner : StageTree}
    (fresh : Fresh nodes stores (.projection node id function inner)) :
    Fresh nodes stores inner where
  source := fresh.source
  distinct := (List.nodup_cons.mp fresh.distinct).2
  other := fun member => fresh.other (List.mem_cons_of_mem _ member)
  new := fun id member => fresh.new id (List.mem_cons_of_mem _ member)
  unused := fun spec member inside => fresh.unused spec member (List.mem_cons_of_mem _ inside)

variable {joinType : JoinType} {keys : JoinKeys} {left right : StageTree}

theorem Fresh.ofRight (fresh : Fresh nodes stores (.join node id joinType keys left right)) :
    Fresh nodes stores right where
  source := fresh.source
  distinct := (List.nodup_append.mp (List.nodup_cons.mp fresh.distinct).2).2.1
  other := fun member => fresh.other (by simp [StageTree.ids, member])
  new := fun id member => fresh.new id (by simp [StageTree.ids, member])
  unused := fun spec member inside => fresh.unused spec member (by simp [StageTree.ids, inside])

theorem Fresh.disjoint (fresh : Fresh nodes stores (.join node id joinType keys left right)) :
    List.Disjoint left.ids right.ids :=
  List.disjoint_of_nodup_append (List.nodup_cons.mp fresh.distinct).2

theorem Fresh.ofLeft (fresh : Fresh nodes stores (.join node id joinType keys left right))
    (children : List String) :
    Fresh (nodes ++ right.wired (some .right) children) (stores ++ right.joinIds.map .joinState)
      left where
  source := by
    have elsewhere : sourceName ∉ right.ids := fresh.ofRight.other
    simpa [fresh.source] using elsewhere
  distinct := (List.nodup_append.mp (List.nodup_cons.mp fresh.distinct).2).1
  other := fun member => fresh.other (by simp [StageTree.ids, member])
  new := by
    intro id member
    have old := fresh.new id (by simp [StageTree.ids, member])
    simpa [old] using fresh.disjoint member
  unused := by
    intro spec member inside
    rcases List.mem_append.mp member with old | added
    · exact fresh.unused spec old (by simp [StageTree.ids, inside])
    · obtain ⟨id, join, rfl⟩ := List.mem_map.mp added
      exact fresh.disjoint inside (right.joinIds_subset id join)

theorem addStage_pattern {triple : TriplePattern}
    (fresh : Fresh nodes stores (.pattern node id triple)) :
    query.addStage ⟨sourceNode topic fed :: nodes, stores⟩
        ⟨node, id, side, .pattern triple, []⟩ =
      .ok ⟨sourceNode topic (fed ++ [id]) ::
        (nodes ++ (StageTree.pattern node id triple).wired side []), stores⟩ := by
  have new : id ∉ nodeNames (sourceNode topic fed :: nodes) :=
    List.not_mem_cons_of_ne_of_not_mem
      (fun same => fresh.other (List.mem_singleton.mpr same.symm))
      (fresh.new id List.mem_cons_self)
  have apart : link id [sourceName] nodes = nodes := link_of_disjoint fun node member same =>
    fresh.source (List.mem_singleton.mp same ▸ member)
  have inputs : query.parentsOf ⟨node, id, side, .pattern triple, []⟩ = .ok [sourceName] := rfl
  refine (addStage_eq_ok inputs new ?_ ?_).trans ?_
  · simp [sourceNode]
  · simp
  · rw [link, List.map_cons, ← link, apart]
    simp [sourceNode, StageTree.wired, Processor.ofStage]

theorem addStage_projection {function : Projection} {inner : StageTree}
    (fresh : Fresh nodes stores (.projection node id function inner))
    (input : query.idOf? inner.node = some inner.id) :
    query.addStage ⟨sourceNode topic fed :: (nodes ++ inner.wired none []),
        stores ++ inner.joinIds.map .joinState⟩ ⟨node, id, side, .projection function, [inner.node]⟩ =
      .ok ⟨sourceNode topic fed ::
        (nodes ++ (StageTree.projection node id function inner).wired side []),
        stores ++ inner.joinIds.map .joinState⟩ := by
  have notSource : id ≠ sourceName := fun same => fresh.other (by simp [StageTree.ids, same])
  have top := (List.nodup_cons.mp fresh.distinct).1
  have new := fresh.new id (by simp [StageTree.ids])
  have apart : link id [inner.id] (sourceNode topic fed :: nodes) = sourceNode topic fed :: nodes :=
    link_skip (fun same => fresh.ofInner.other (List.mem_singleton.mp same ▸ inner.id_mem_ids))
      fun other member same =>
        fresh.ofInner.new inner.id inner.id_mem_ids (List.mem_singleton.mp same ▸ member)
  have linked : link id [inner.id] (inner.wired none []) = inner.wired none ([] ++ [id]) :=
    StageTree.link_wired fresh.ofInner.distinct (by simp) (by simp) none []
  have inputs : query.parentsOf ⟨node, id, side, .projection function, [inner.node]⟩ =
      .ok [inner.id] := by
    simp [parentsOf, input]
  refine (addStage_eq_ok inputs ?_ ?_ ?_).trans ?_
  · simp [sourceNode, notSource, new, top]
  · simp [inner.id_mem_ids]
  · simp
  · simp only [← List.cons_append]
    rw [link_append, apart, linked]
    simp [StageTree.wired, Processor.ofStage]

theorem addStage_join (fresh : Fresh nodes stores (.join node id joinType keys left right))
    (leftInput : query.idOf? left.node = some left.id)
    (rightInput : query.idOf? right.node = some right.id) :
    query.addStage ⟨sourceNode topic fed ::
        (nodes ++ right.wired (some .right) [] ++ left.wired (some .left) []),
        stores ++ right.joinIds.map .joinState ++ left.joinIds.map .joinState⟩
        ⟨node, id, side, .join joinType keys, [left.node, right.node]⟩ =
      .ok ⟨sourceNode topic fed ::
        (nodes ++ (StageTree.join node id joinType keys left right).wired side []),
        stores ++ (StageTree.join node id joinType keys left right).joinIds.map .joinState⟩ := by
  have notSource : id ≠ sourceName := fun same => fresh.other (by simp [StageTree.ids, same])
  have top := (List.nodup_cons.mp fresh.distinct).1
  have new := fresh.new id (by simp [StageTree.ids])
  have leftMem := left.id_mem_ids
  have rightMem := right.id_mem_ids
  have different : left.id ≠ right.id := fun same => fresh.disjoint leftMem (same ▸ rightMem)
  have known : ∀ parent ∈ [left.id, right.id], parent ∈ left.ids ++ right.ids := by
    simp [leftMem, rightMem]
  have apart : link id [left.id, right.id] (sourceNode topic fed :: nodes) =
      sourceNode topic fed :: nodes :=
    link_skip (fun member => fresh.other (List.mem_cons_of_mem _ (known _ member)))
      fun other member parent => fresh.new other (List.mem_cons_of_mem _ (known _ parent)) member
  have linkedLeft : link id [left.id, right.id] (left.wired (some .left) []) =
      left.wired (some .left) ([] ++ [id]) := by
    apply StageTree.link_wired (fresh.ofLeft []).distinct
    · simp [different.symm]
    · intro other member notTop parent
      have same := (List.mem_cons.mp parent).resolve_left notTop
      exact fresh.disjoint member (List.mem_singleton.mp same ▸ rightMem)
  have linkedRight : link id [left.id, right.id] (right.wired (some .right) []) =
      right.wired (some .right) ([] ++ [id]) := by
    apply StageTree.link_wired fresh.ofRight.distinct
    · simp [different]
    · intro other member notTop parent
      rcases List.mem_cons.mp parent with same | same
      · exact fresh.disjoint leftMem (same ▸ member)
      · exact notTop (List.mem_singleton.mp same)
  have inputs : query.parentsOf ⟨node, id, side, .join joinType keys, [left.node, right.node]⟩ =
      .ok [left.id, right.id] := by
    simp only [parentsOf, List.mapM_cons, List.mapM_nil, leftInput, rightInput]
    rfl
  refine (addStage_join_eq_ok rfl inputs ?_ ?_ ?_).trans ?_
  · simpa [sourceNode, notSource, new, not_or, and_comm] using top
  · simp [leftMem, rightMem]
  · intro spec member same
    have old : spec ∉ stores := fun inside =>
      fresh.unused spec inside (same ▸ List.mem_cons_self)
    simp only [List.mem_append, old, false_or, List.mem_map] at member
    rcases member with ⟨other, inside, rfl⟩ | ⟨other, inside, rfl⟩
    · have here : other = id := same
      exact top (here ▸ List.mem_append_right _ (right.joinIds_subset other inside))
    · have here : other = id := same
      exact top (here ▸ List.mem_append_left _ (left.joinIds_subset other inside))
  · simp only [← List.cons_append]
    rw [link_append, link_append, apart, linkedLeft, linkedRight]
    simp [StageTree.joinIds, StageTree.wired, Processor.ofStage]

theorem foldlM_addStage {plan : StageTree} (fresh : Fresh nodes stores plan)
    (known : ∀ stage ∈ plan.stages side, query.idOf? stage.node = some stage.id) :
    (plan.stages side).reverse.foldlM query.addStage ⟨sourceNode topic fed :: nodes, stores⟩ =
      .ok ⟨sourceNode topic (fed ++ plan.patternIds) :: (nodes ++ plan.wired side []),
        stores ++ plan.joinIds.map .joinState⟩ := by
  induction plan generalizing side fed nodes stores with
  | pattern node id triple =>
    rw [StageTree.joinIds, List.map_nil, List.append_nil]
    exact List.foldlM_cons.trans (by rw [addStage_pattern fresh]; rfl)
  | projection node id function inner ih =>
    obtain ⟨-, knownBelow⟩ := List.forall_mem_cons.mp known
    rw [StageTree.stages, List.reverse_cons]
    exact foldlM_concat_eq_ok_iff.mpr ⟨_, ih fresh.ofInner knownBelow,
      addStage_projection fresh (idOf?_node knownBelow)⟩
  | join node id joinType keys left right leftIh rightIh =>
    obtain ⟨-, knownBelow⟩ := List.forall_mem_cons.mp known
    obtain ⟨knownLeft, knownRight⟩ := List.forall_mem_append.mp knownBelow
    rw [StageTree.stages, List.reverse_cons, List.reverse_append, StageTree.patternIds,
      ← List.append_assoc]
    refine foldlM_concat_eq_ok_iff.mpr ⟨_, ?_,
      addStage_join fresh (idOf?_node knownLeft) (idOf?_node knownRight)⟩
    rw [List.foldlM_append]
    exact bind_eq_ok_iff.mpr
      ⟨_, rightIh fresh.ofRight knownRight, leftIh (fresh.ofLeft []) knownLeft⟩

end Build

theorem root?_of_follows {query : CompiledQuery} {plan : StageTree} (follows : query.Follows plan) :
    ∃ root, query.root? = some root ∧ root.id = plan.id := by
  rw [root?, follows.stages]
  cases plan <;> exact ⟨_, rfl, rfl⟩

section Ends

variable {plan : StageTree} {topic resultTopic : Topic} {stores : List StoreSpec}

theorem addProcessor_formatter (distinct : plan.ids.Nodup) (notSource : sourceName ∉ plan.ids)
    (notFormatter : formatterName ∉ plan.ids) :
    addProcessor ⟨sourceNode topic plan.patternIds :: plan.wired none [], stores⟩ formatterName
        ⟨formatterName, .formatter⟩ [plan.id] =
      .ok ⟨sourceNode topic plan.patternIds :: (plan.wired none [formatterName] ++
        [⟨formatterName, .processor ⟨formatterName, .formatter⟩, [plan.id], [], []⟩]), stores⟩ := by
  have linked : link formatterName [plan.id] (sourceNode topic plan.patternIds ::
      plan.wired none []) = sourceNode topic plan.patternIds :: plan.wired none [formatterName] := by
    have skipped : link formatterName [plan.id] [sourceNode topic plan.patternIds] =
        [sourceNode topic plan.patternIds] :=
      link_skip (fun same => notSource (List.mem_singleton.mp same ▸ plan.id_mem_ids))
        fun _ member => by cases member
    have wired : link formatterName [plan.id] (plan.wired none []) =
        plan.wired none ([] ++ [formatterName]) :=
      StageTree.link_wired distinct (by simp) (by simp) none []
    exact (link_append _ _ [sourceNode topic plan.patternIds] _).trans
      (congr (congrArg _ skipped) wired)
  refine addNode_eq_ok_iff.mpr ⟨?_, ?_, ?_⟩
  · have other : formatterName ≠ sourceName := by decide
    simp [sourceNode, notFormatter, other]
  · simp [plan.id_mem_ids]
  · rw [linked]
    rfl

theorem addSink_result (notFormatter : formatterName ∉ plan.ids) (notSink : sinkName ∉ plan.ids) :
    addSink ⟨sourceNode topic plan.patternIds :: (plan.wired none [formatterName] ++
        [⟨formatterName, .processor ⟨formatterName, .formatter⟩, [plan.id], [], []⟩]), stores⟩
        sinkName resultTopic [formatterName] =
      .ok ⟨sourceNode topic plan.patternIds :: (plan.wired none [formatterName] ++
        [⟨formatterName, .processor ⟨formatterName, .formatter⟩, [plan.id], [sinkName], []⟩,
          ⟨sinkName, .sink resultTopic, [formatterName], [], []⟩]), stores⟩ := by
  have skipped : link sinkName [formatterName]
      (sourceNode topic plan.patternIds :: plan.wired none [formatterName]) =
        sourceNode topic plan.patternIds :: plan.wired none [formatterName] :=
    link_skip (by decide) fun other member same => notFormatter
      (List.mem_singleton.mp same ▸ StageTree.mem_nodeNames_wired.mp member)
  refine addNode_eq_ok_iff.mpr ⟨?_, ?_, ?_⟩
  · have other : sinkName ≠ sourceName ∧ sinkName ≠ formatterName := by decide
    simp [sourceNode, notSink, other]
  · simp
  · have linked := link_append sinkName [formatterName]
      (sourceNode topic plan.patternIds :: plan.wired none [formatterName])
      [⟨formatterName, .processor ⟨formatterName, .formatter⟩, [plan.id], [], []⟩]
    rw [skipped] at linked
    simp only [← List.cons_append]
    rw [linked]
    simp [link]

end Ends

theorem assemble_eq_ok {query : CompiledQuery} {plan : StageTree} (follows : query.Follows plan)
    (distinct : (sourceName :: formatterName :: sinkName :: plan.ids).Nodup)
    (statementTopic resultTopic : String) :
    query.assemble statementTopic resultTopic = .ok (plan.topology statementTopic resultTopic) := by
  obtain ⟨notSource, notFormatter, notSink, -⟩ := nodup_ends.mp distinct
  obtain ⟨root, isRoot, rootId⟩ := root?_of_follows follows
  have fresh : Fresh [] [] plan :=
    ⟨List.not_mem_nil, follows.distinct, notSource, fun _ _ => List.not_mem_nil,
      fun _ member => by cases member⟩
  have staged : (plan.stages none).reverse.foldlM query.addStage
      ⟨[sourceNode ⟨statementTopic, .string, .statement⟩ []], []⟩ = .ok _ :=
    foldlM_addStage fresh follows.known
  rw [← follows.stages] at staged
  rw [assemble, isRoot]
  refine bind_eq_ok_iff.mpr ⟨_, rfl, bind_eq_ok_iff.mpr ⟨_, staged, bind_eq_ok_iff.mpr ⟨_, ?_,
    addSink_result notFormatter notSink⟩⟩⟩
  rw [rootId]
  exact addProcessor_formatter follows.distinct notSource notFormatter

theorem nodeNames_of_addStage {query : CompiledQuery} {topology grown : Topology} {stage : Stage}
    (added : query.addStage topology stage = .ok grown) :
    stage.id ∉ nodeNames topology.nodes ∧
      nodeNames grown.nodes = nodeNames topology.nodes ++ [stage.id] := by
  obtain ⟨parents, -, rest⟩ := bind_eq_ok_iff.mp added
  obtain ⟨middle, processor, stored⟩ := bind_eq_ok_iff.mp rest
  obtain ⟨new, -, rfl⟩ := addNode_eq_ok_iff.mp processor
  refine ⟨new, ?_⟩
  split at stored
  next =>
    rw [nodeNames_of_addStore stored]
    simp
  next =>
    cases stored
    simp

theorem nodeNames_of_foldlM {query : CompiledQuery} {stages : List Stage} {topology grown : Topology}
    (added : stages.foldlM query.addStage topology = .ok grown)
    (distinct : (nodeNames topology.nodes).Nodup) :
    (nodeNames grown.nodes).Nodup ∧
      nodeNames grown.nodes = nodeNames topology.nodes ++ stages.map Stage.id := by
  induction stages generalizing topology with
  | nil =>
    cases added
    simpa using distinct
  | cons stage rest ih =>
    rw [List.foldlM_cons] at added
    obtain ⟨middle, first, later⟩ := bind_eq_ok_iff.mp added
    obtain ⟨new, names⟩ := nodeNames_of_addStage first
    have extended : (nodeNames middle.nodes).Nodup := by
      rw [names]
      exact distinct.append (List.nodup_singleton _) (by simpa using new)
    obtain ⟨unique, all⟩ := ih later extended
    rw [names, List.append_assoc] at all
    exact ⟨unique, all⟩

/-- Assembly yields the topology of the plan, and all its nodes have names of their own. -/
theorem topology_of_assemble {query : CompiledQuery} {plan : StageTree}
    (follows : query.Follows plan) {statementTopic resultTopic : String} {topology : Topology}
    (assembled : query.assemble statementTopic resultTopic = .ok topology) :
    topology = plan.topology statementTopic resultTopic ∧
      (sourceName :: formatterName :: sinkName :: plan.ids).Nodup := by
  obtain ⟨root, isRoot, -⟩ := root?_of_follows follows
  have steps := assembled
  rw [assemble, isRoot] at steps
  obtain ⟨start, source, steps⟩ := bind_eq_ok_iff.mp steps
  cases source
  obtain ⟨staged, stages, steps⟩ := bind_eq_ok_iff.mp steps
  obtain ⟨formatted, formatter, sink⟩ := bind_eq_ok_iff.mp steps
  obtain ⟨unique, names⟩ := nodeNames_of_foldlM stages (List.nodup_singleton sourceName)
  obtain ⟨newFormatter, -, rfl⟩ := addNode_eq_ok_iff.mp formatter
  obtain ⟨newSink, -⟩ := addNode_eq_ok_iff.mp sink
  have stagedNames : nodeNames staged.nodes = sourceName :: plan.ids.reverse := by
    rw [names, List.map_reverse, follows.stages, StageTree.ids_stages]
    rfl
  have distinct : (sourceName :: formatterName :: sinkName :: plan.ids).Nodup := by
    simp only [nodeNames_append, nodeNames_link, stagedNames] at unique newFormatter newSink
    simp only [List.nodup_cons, List.mem_reverse, List.nodup_reverse, List.mem_append,
      List.mem_cons, not_or] at unique newFormatter newSink
    exact nodup_ends.mpr ⟨unique.1, newFormatter.2, newSink.1.2, unique.2⟩
  exact ⟨Except.ok.inj (assembled.symm.trans (assemble_eq_ok follows distinct _ _)), distinct⟩

end CompiledQuery

end ContinuousQuery
