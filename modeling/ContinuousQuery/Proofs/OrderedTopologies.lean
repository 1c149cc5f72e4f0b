import ContinuousQuery.Proofs.Builders
import Mathlib.Logic.Relation

/-!
Topologies in the order of their addition. Nodes only refer to nodes before them, and a node
lists each child as often as the child has it as a parent. No sequence of steps, whichever of
them are refused, makes a builder whose records could run in a circle.
-/

namespace ContinuousQuery

namespace Topology

/-- The children of a node: each of the nodes as often as it has the node as its parent. -/
def childrenOf (name : String) (nodes : List Node) : List String :=
  nodes.flatMap (fun child => List.replicate (child.parents.count name) child.name)

/-- Every node comes after its parents and is listed by them. -/
structure WellFormed (topology : Topology) : Prop where
  distinct : (nodeNames topology.nodes).Nodup
  parents : ∀ (position : Nat) (node : Node), topology.nodes[position]? = some node →
    ∀ parent ∈ node.parents,
      ∃ earlier < position, (nodeNames topology.nodes)[earlier]? = some parent
  children : ∀ node ∈ topology.nodes, node.children = childrenOf node.name topology.nodes
  sources : ∀ node ∈ topology.nodes, node.isSource → node.parents = []
  storeNames : (topology.stores.map (·.name)).Nodup
  attached : ∀ node ∈ topology.nodes, ∀ store ∈ node.stores,
    node.isProcessor ∧ store ∈ topology.stores.map (·.name)

theorem wellFormed_empty : empty.WellFormed where
  distinct := List.nodup_nil
  parents := by simp [empty]
  children := by simp [empty]
  sources := by simp [empty]
  storeNames := List.nodup_nil
  attached := by simp [empty]

variable {topology grown : Topology}

theorem mem_link {name : String} {parents : List String} {nodes : List Node} {node : Node} :
    node ∈ link name parents nodes ↔ ∃ before ∈ nodes, node =
      { before with
        children := before.children ++ List.replicate (parents.count before.name) name } := by
  simp only [link, List.mem_map, eq_comm]

theorem mem_attach {store : String} {processors : List String} {nodes : List Node} {node : Node} :
    node ∈ attach store processors nodes ↔ ∃ before ∈ nodes, node =
      { before with
        stores := before.stores ++ List.replicate (processors.count before.name) store } := by
  simp only [attach, List.mem_map, eq_comm]

theorem childrenOf_append (name : String) (first second : List Node) :
    childrenOf name (first ++ second) = childrenOf name first ++ childrenOf name second :=
  List.flatMap_append

theorem childrenOf_link (name child : String) (parents : List String) (nodes : List Node) :
    childrenOf name (link child parents nodes) = childrenOf name nodes := by
  rw [childrenOf, link, List.flatMap_map]
  rfl

theorem childrenOf_attach (name store : String) (processors : List String) (nodes : List Node) :
    childrenOf name (attach store processors nodes) = childrenOf name nodes := by
  rw [childrenOf, attach, List.flatMap_map]
  rfl

theorem childrenOf_eq_nil {name : String} {nodes : List Node}
    (unlisted : ∀ node ∈ nodes, name ∉ node.parents) : childrenOf name nodes = [] := by
  rw [childrenOf, List.flatMap_eq_nil_iff]
  intro node member
  rw [List.count_eq_zero_of_not_mem (unlisted node member), List.replicate_zero]

theorem WellFormed.addNode (wellFormed : topology.WellFormed) {name : String} {kind : NodeKind}
    {parents : List String} (orphan : kind matches .source _ → parents = [])
    (added : topology.addNode name kind parents = .ok grown) : grown.WellFormed := by
  obtain ⟨new, present, rfl⟩ := addNode_eq_ok_iff.mp added
  have unlisted : ∀ node ∈ topology.nodes, name ∉ node.parents := by
    intro node member listed
    obtain ⟨position, found⟩ := List.mem_iff_getElem?.mp member
    obtain ⟨earlier, -, here⟩ := wellFormed.parents position node found name listed
    exact new (List.mem_of_getElem? here)
  refine ⟨?_, ?_, ?_, ?_, wellFormed.storeNames, ?_⟩
  · rw [nodeNames_append, nodeNames_link]
    exact wellFormed.distinct.append (List.nodup_singleton _) (by simpa using new)
  · intro position node found parent listed
    dsimp only at found ⊢
    rw [nodeNames_append, nodeNames_link]
    by_cases older : position < topology.nodes.length
    · rw [List.getElem?_append_left (by simpa [link] using older), link, List.getElem?_map] at found
      obtain ⟨before, here, rfl⟩ := Option.map_eq_some_iff.mp found
      obtain ⟨earlier, less, known⟩ := wellFormed.parents position before here parent listed
      have inside := (List.getElem?_eq_some_iff.mp known).1
      exact ⟨earlier, less, by rw [List.getElem?_append_left inside, known]⟩
    · have last : node ∈ [(⟨name, kind, parents, [], []⟩ : Node)] := by
        rw [List.getElem?_append_right (by simpa [link] using older)] at found
        exact List.mem_of_getElem? found
      cases List.mem_singleton.mp last
      obtain ⟨earlier, known⟩ := List.mem_iff_getElem?.mp (present parent listed)
      have inside := (List.getElem?_eq_some_iff.mp known).1
      refine ⟨earlier, ?_, by rw [List.getElem?_append_left inside, known]⟩
      rw [nodeNames, List.length_map] at inside
      omega
  · refine List.forall_mem_append.mpr ⟨fun node member => ?_, List.forall_mem_singleton.mpr ?_⟩
    · obtain ⟨before, inside, rfl⟩ := mem_link.mp member
      rw [childrenOf_append, childrenOf_link, ← wellFormed.children before inside]
      simp [childrenOf]
    · rw [childrenOf_append, childrenOf_link]
      rw [childrenOf_eq_nil unlisted, childrenOf_eq_nil, List.nil_append]
      exact List.forall_mem_singleton.mpr fun listed => new (present name listed)
  · refine List.forall_mem_append.mpr
      ⟨fun node member source => ?_, List.forall_mem_singleton.mpr orphan⟩
    obtain ⟨before, inside, rfl⟩ := mem_link.mp member
    exact wellFormed.sources before inside source
  · refine List.forall_mem_append.mpr ⟨fun node member => ?_,
      List.forall_mem_singleton.mpr fun _ listed => absurd listed List.not_mem_nil⟩
    obtain ⟨before, inside, rfl⟩ := mem_link.mp member
    exact wellFormed.attached before inside

theorem WellFormed.addStore (wellFormed : topology.WellFormed) {spec : StoreSpec}
    {processors : List String} (added : topology.addStore spec processors = .ok grown) :
    grown.WellFormed := by
  obtain ⟨new, present, rfl⟩ := addStore_eq_ok_iff.mp added
  refine ⟨?_, ?_, ?_, ?_, ?_, ?_⟩
  · rw [nodeNames_attach]
    exact wellFormed.distinct
  · intro position node found
    rw [attach, List.getElem?_map] at found
    obtain ⟨old, here, rfl⟩ := Option.map_eq_some_iff.mp found
    rw [nodeNames_attach]
    exact wellFormed.parents position old here
  · intro node member
    obtain ⟨old, inside, rfl⟩ := mem_attach.mp member
    rw [childrenOf_attach]
    exact wellFormed.children old inside
  · intro node member
    obtain ⟨old, inside, rfl⟩ := mem_attach.mp member
    exact wellFormed.sources old inside
  · rw [List.map_append]
    exact wellFormed.storeNames.append (List.nodup_singleton _) (by simpa using new)
  · intro node member store listed
    obtain ⟨old, inside, rfl⟩ := mem_attach.mp member
    rw [List.map_append, List.mem_append]
    rcases List.mem_append.mp listed with known | added
    · exact (wellFormed.attached old inside store known).imp_right Or.inl
    · obtain ⟨named, rfl⟩ := List.mem_replicate.mp added
      have processor := present old.name (List.count_pos_iff.mp (Nat.pos_of_ne_zero named))
      rw [(node?_eq_some_iff wellFormed.distinct).mpr ⟨inside, rfl⟩] at processor
      exact ⟨processor, Or.inr (List.mem_singleton_self _)⟩

theorem WellFormed.perform (wellFormed : topology.WellFormed) {step : Step}
    (taken : topology.perform step = .ok grown) : grown.WellFormed := by
  cases step with
  | source name topic => exact wellFormed.addNode (fun _ => rfl) taken
  | processor name processor parents => exact wellFormed.addNode Bool.noConfusion taken
  | sink name topic parents => exact wellFormed.addNode Bool.noConfusion taken
  | store spec processors => exact wellFormed.addStore taken

def Sends (nodes : List Node) (sender receiver : String) : Prop :=
  ∃ node ∈ nodes, node.name = sender ∧ receiver ∈ node.children

namespace WellFormed

theorem mem_childrenOf {name child : String} {nodes : List Node} :
    child ∈ childrenOf name nodes ↔ ∃ node ∈ nodes, node.name = child ∧ name ∈ node.parents := by
  simp only [childrenOf, List.mem_flatMap, List.mem_replicate, ne_eq, List.count_eq_zero,
    not_not, eq_comm, and_comm]

theorem exists_later (wellFormed : topology.WellFormed) {position : Nat} {node : Node}
    (found : topology.nodes[position]? = some node) {child : String}
    (listed : child ∈ node.children) :
    ∃ later > position, (nodeNames topology.nodes)[later]? = some child := by
  rw [wellFormed.children node (List.mem_of_getElem? found), mem_childrenOf] at listed
  obtain ⟨other, member, rfl, parent⟩ := listed
  obtain ⟨later, there⟩ := List.mem_iff_getElem?.mp member
  obtain ⟨earlier, less, named⟩ := wellFormed.parents later other there _ parent
  have same : earlier = position :=
    (List.getElem?_inj (List.getElem?_eq_some_iff.mp named).1 wellFormed.distinct).mp
      (named.trans (getElem?_nodeNames found).symm)
  exact ⟨later, same ▸ less, getElem?_nodeNames there⟩

theorem idxOf_lt_of_sends (wellFormed : topology.WellFormed) {sender receiver : String}
    (sends : Sends topology.nodes sender receiver) :
    (nodeNames topology.nodes).idxOf sender < (nodeNames topology.nodes).idxOf receiver := by
  obtain ⟨node, member, rfl, listed⟩ := sends
  obtain ⟨position, found⟩ := List.mem_iff_getElem?.mp member
  obtain ⟨later, behind, named⟩ := wellFormed.exists_later found listed
  have idxOf : ∀ index name, (nodeNames topology.nodes)[index]? = some name →
      (nodeNames topology.nodes).idxOf name = index := by
    intro index name here
    obtain ⟨inRange, rfl⟩ := List.getElem?_eq_some_iff.mp here
    exact wellFormed.distinct.idxOf_getElem index inRange
  rw [idxOf position _ (getElem?_nodeNames found), idxOf later _ named]
  exact behind

theorem acyclic (wellFormed : topology.WellFormed) (name : String) :
    ¬Relation.TransGen (Sends topology.nodes) name name := by
  intro circle
  have forward : Relation.TransGen (· < ·) ((nodeNames topology.nodes).idxOf name)
      ((nodeNames topology.nodes).idxOf name) :=
    circle.lift _ fun _ _ sends => wellFormed.idxOf_lt_of_sends sends
  rw [Relation.transGen_eq_self] at forward
  exact Nat.lt_irrefl _ forward

end WellFormed

theorem count_childrenOf {nodes : List Node} (distinct : (nodeNames nodes).Nodup) {node : Node}
    (member : node ∈ nodes) (name : String) :
    (childrenOf name nodes).count node.name = node.parents.count name := by
  induction nodes with
  | nil => cases member
  | cons first rest ih =>
    rw [nodeNames_cons, List.nodup_cons] at distinct
    obtain ⟨new, later⟩ := distinct
    rw [childrenOf, List.flatMap_cons, List.count_append, List.count_replicate, ← childrenOf]
    rcases List.mem_cons.mp member with rfl | behind
    · have absent : node.name ∉ childrenOf name rest := by
        rw [WellFormed.mem_childrenOf]
        rintro ⟨other, inside, same, -⟩
        exact new (same ▸ mem_nodeNames inside)
      rw [List.count_eq_zero_of_not_mem absent, if_pos (beq_self_eq_true _), Nat.add_zero]
    · have other : first.name ≠ node.name := fun same => new (same ▸ mem_nodeNames behind)
      rw [if_neg (by simpa using other), Nat.zero_add, ih later behind]

theorem positions_childrenOf {position? : String → Option Nat} (name : String) {nodes : List Node}
    {start : Nat} (known : ∀ index node, nodes[index]? = some node →
      position? node.name = some (start + index)) :
    ∃ positions : List Nat, (childrenOf name nodes).map position? = positions.map some ∧
      positions.Pairwise (· ≤ ·) ∧ ∀ position ∈ positions, start ≤ position := by
  induction nodes generalizing start with
  | nil => exact ⟨[], rfl, List.Pairwise.nil, fun _ member => absurd member List.not_mem_nil⟩
  | cons node rest ih =>
    have here := known 0 node rfl
    obtain ⟨positions, located, sorted, bounded⟩ := @ih (start + 1) (by
      intro index later found
      rw [known (index + 1) later found, Nat.add_assoc, Nat.add_comm 1])
    -- The first node may be a child several times, before all later ones.
    refine ⟨List.replicate (node.parents.count name) start ++ positions, ?_, ?_, ?_⟩
    · rw [childrenOf, List.flatMap_cons, ← childrenOf, List.map_append, List.map_append, located]
      rw [List.map_replicate, List.map_replicate, here, Nat.add_zero]
    · refine List.pairwise_append.mpr
        ⟨List.pairwise_replicate.mpr (.inr (Nat.le_refl _)), sorted, ?_⟩
      intro first own second behind
      rw [(List.mem_replicate.mp own).2]
      exact Nat.le_of_succ_le (bounded second behind)
    · refine List.forall_mem_append.mpr
        ⟨?_, fun second behind => Nat.le_of_succ_le (bounded second behind)⟩
      intro first own
      exact Nat.le_of_eq (List.mem_replicate.mp own).2.symm

namespace Builder

variable {builder : Builder}

/-- What the parts of a builder have to do with each other. -/
structure Coherent (builder : Builder) : Prop where
  distinct : (builder.nodes.map (·.name)).Nodup
  /-- The index leads from the names of the nodes to their positions, and holds nothing else. -/
  index : ∀ name position, builder.position? name = some position ↔
    ∃ node, builder.nodes[position]? = some node ∧ node.name = name
  parents : ∀ position node, builder.nodes[position]? = some node → ∀ parent ∈ node.parents,
    ∃ earlier < position, builder.position? parent = some earlier
  /-- A node is a child of another one as often as that one is its parent. -/
  counts : ∀ parent ∈ builder.nodes, ∀ child ∈ builder.nodes,
    parent.children.count child.name = child.parents.count parent.name
  /-- Children are nodes, in the order of their positions. -/
  ordered : ∀ node ∈ builder.nodes, ∃ positions : List Nat,
    node.children.map builder.position? = positions.map some ∧ positions.Pairwise (· ≤ ·)
  sources : ∀ node ∈ builder.nodes, node.isSource → node.parents = []
  storeNames : (builder.stores.map (·.name)).Nodup
  attached : ∀ node ∈ builder.nodes, ∀ store ∈ node.stores,
    node.isProcessor ∧ ∃ spec ∈ builder.stores, spec.name = store
  acyclic : ∀ name, ¬Relation.TransGen (Sends builder.nodes) name name

theorem Indexed.position?_eq_some_iff (indexed : builder.Indexed) {name : String} {position : Nat} :
    builder.position? name = some position ↔
      ∃ node, builder.nodes[position]? = some node ∧ node.name = name := by
  rw [indexed.index, nodeNames, List.getElem?_map, Option.map_eq_some_iff]

theorem Indexed.coherent (indexed : builder.Indexed) (wellFormed : builder.build.WellFormed) :
    builder.Coherent where
  distinct := indexed.distinct
  index := fun _ _ => indexed.position?_eq_some_iff
  parents := by
    intro position node found parent listed
    obtain ⟨earlier, less, named⟩ := wellFormed.parents position node found parent listed
    exact ⟨earlier, less, (indexed.index parent earlier).mpr named⟩
  counts := by
    intro parent inside child member
    rw [wellFormed.children parent inside]
    exact count_childrenOf indexed.distinct member parent.name
  ordered := by
    intro node member
    rw [wellFormed.children node member]
    obtain ⟨positions, located, sorted, -⟩ := @positions_childrenOf builder.position? node.name
      builder.nodes 0 (by
        intro index other found
        rw [Nat.zero_add]
        exact indexed.position?_eq_some_iff.mpr ⟨other, found, rfl⟩)
    exact ⟨positions, located, sorted⟩
  sources := wellFormed.sources
  storeNames := wellFormed.storeNames
  attached := by
    intro node member store listed
    obtain ⟨processor, declared⟩ := wellFormed.attached node member store listed
    exact ⟨processor, List.mem_map.mp declared⟩
  acyclic := wellFormed.acyclic

/-- A step that is refused leaves a builder as it was. Any steps, refused ones among them, make
nodes and stores that fit together, with an index of the nodes and without circles. -/
theorem performAll_coherent :
    (∀ (builder after : Builder) (step : Step) (error : BuildError),
      (perform step).run builder = .error error after → after = builder) ∧
      ∀ steps : List Step, (empty.performAll steps).2.Coherent := by
  refine ⟨fun builder after step error refused => eq_of_perform_eq_error refused, fun steps => ?_⟩
  obtain ⟨indexed, wellFormed⟩ := indexed_empty.performAll
    (fun topology grown step holds taken => WellFormed.perform holds taken) wellFormed_empty steps
  exact indexed.coherent wellFormed

/-- Steps of a client, three of which are refused. -/
def mixedSteps : List Step :=
  [.source "in" ⟨"statements", .string, .statement⟩,
    .processor "twice" ⟨"twice", .formatter⟩ ["in", "in"],
    .store (.joinState "state") ["twice"],
    .processor "lost" ⟨"lost", .formatter⟩ ["twice", "nowhere"],
    .store (.joinState "other") ["in"],
    .sink "in" ⟨"results", .string, .solution⟩ ["twice"],
    .sink "out" ⟨"results", .string, .solution⟩ ["in", "twice"]]

theorem performAll_coherent_mixedSteps :
    (empty.performAll mixedSteps).1 = [none, none, none, some (.unknownParent "lost" "nowhere"),
      some (.unknownProcessor "other" "in"), some (.duplicateNode "in"), none] ∧
      (empty.performAll mixedSteps).2.Coherent ∧
        ∃ after, (perform (.store (.joinState "other") ["twice", "in"])).run
            (empty.performAll mixedSteps).2 = .error (.unknownProcessor "other" "in") after ∧
          after = (empty.performAll mixedSteps).2 := by
  have refused : (perform (.store (.joinState "other") ["twice", "in"])).run
      (empty.performAll mixedSteps).2 =
        .error (.unknownProcessor "other" "in") (empty.performAll mixedSteps).2 := by
    have missing : ["twice", "in"].find? (fun name =>
        ((empty.performAll mixedSteps).2.processorPosition? name).isNone) = some "in" := by
      decide
    rw [perform, run_addStore, if_neg (by decide), missing]
    rfl
  exact ⟨by decide, performAll_coherent.2 mixedSteps, _, refused,
    performAll_coherent.1 _ _ _ _ refused⟩

end Builder

end Topology

end ContinuousQuery
