import ContinuousQuery.Topology.Builder
import ContinuousQuery.Proofs.Wiring
import Mathlib.Logic.Function.Iterate

/-!
Builders against topologies. A builder whose index is right takes the same steps as the topology
it builds, with the same errors, and its index stays right. A step that is refused changes
nothing, whatever the index holds.
-/

namespace ContinuousQuery

namespace Topology

namespace Builder

variable {builder : Builder}

theorem run_locate (position? : Builder → String → Option Nat) (missing : String → BuildError)
    (names : List String) (builder : Builder) :
    (locate position? missing names).run builder =
      match names.find? (fun name => (position? builder name).isNone) with
      | some name => .error (missing name) builder
      | none => .ok (names.filterMap (position? builder)) builder := by
  induction names with
  | nil => rfl
  | cons name rest ih =>
    unfold locate at ih ⊢
    rw [List.mapM_cons, EStateM.run_bind, run_get_bind]
    cases found : position? builder name with
    | none =>
      rw [List.find?_cons_of_pos (by rw [found]; rfl)]
      rfl
    | some position =>
      rw [List.find?_cons_of_neg (by rw [found]; simp), List.filterMap_cons_some found]
      have here : (pure position : Building Nat).run builder = .ok position builder := rfl
      simp only [here]
      rw [EStateM.run_bind, ih]
      cases rest.find? (fun name => (position? builder name).isNone) <;> rfl

theorem run_editAll (change : Node → Node) (positions : List Nat) (builder : Builder) :
    (editAll change positions).run builder =
      .ok () (positions.foldl (fun builder position => builder.edit change position) builder) := by
  induction positions generalizing builder with
  | nil => rfl
  | cons position rest ih => exact ih (builder.edit change position)

theorem run_addNode (name : String) (kind : NodeKind) (parents : List String) (builder : Builder) :
    (addNode name kind parents).run builder =
      if (builder.position? name).isSome then .error (.duplicateNode name) builder
      else match parents.find? (fun parent => (builder.position? parent).isNone) with
      | some parent => .error (.unknownParent name parent) builder
      | none => .ok () (((parents.filterMap builder.position?).foldl
          (fun builder position => builder.edit (Node.addChild name) position) builder).append
            ⟨name, kind, parents, [], []⟩) := by
  rw [addNode, run_get_bind]
  by_cases known : (builder.position? name).isSome
  · simp only [if_pos known]
    rfl
  · simp only [if_neg known]
    rw [EStateM.run_bind, run_locate]
    cases parents.find? (fun parent => (builder.position? parent).isNone) with
    | some parent => rfl
    | none =>
      dsimp only
      rw [EStateM.run_bind, run_editAll]
      rfl

theorem run_addStore (spec : StoreSpec) (processors : List String) (builder : Builder) :
    (addStore spec processors).run builder =
      if builder.stores.any (fun store => store.name = spec.name) then
        .error (.duplicateStore spec.name) builder
      else match processors.find? (fun name => (builder.processorPosition? name).isNone) with
      | some name => .error (.unknownProcessor spec.name name) builder
      | none =>
        let edited := (processors.filterMap builder.processorPosition?).foldl
          (fun builder position => builder.edit (Node.addStore spec.name) position) builder
        .ok () { edited with stores := edited.stores ++ [spec] } := by
  rw [addStore, run_get_bind]
  by_cases known : builder.stores.any (fun store => store.name = spec.name)
  · simp only [if_pos known]
    rfl
  · simp only [if_neg known]
    rw [EStateM.run_bind, run_locate]
    cases processors.find? (fun name => (builder.processorPosition? name).isNone) with
    | some parent => rfl
    | none =>
      dsimp only
      rw [EStateM.run_bind, run_editAll]
      rfl

theorem eq_of_perform_eq_error {step : Step} {error : BuildError} {after : Builder}
    (refused : (perform step).run builder = .error error after) : after = builder := by
  have unchanged : ∀ name kind parents,
      (addNode name kind parents).run builder = .error error after → after = builder := by
    intro name kind parents failed
    rw [run_addNode] at failed
    split at failed
    next => cases failed; rfl
    next =>
      split at failed
      next => cases failed; rfl
      next => cases failed
  cases step with
  | source name topic => exact unchanged _ _ _ refused
  | processor name processor parents => exact unchanged _ _ _ refused
  | sink name topic parents => exact unchanged _ _ _ refused
  | store spec processors =>
    rw [perform, run_addStore] at refused
    split at refused
    next => cases refused; rfl
    next =>
      split at refused
      next => cases refused; rfl
      next => cases refused

structure Indexed (builder : Builder) : Prop where
  distinct : (nodeNames builder.nodes).Nodup
  index : ∀ name position, builder.position? name = some position ↔
    (nodeNames builder.nodes)[position]? = some name

theorem indexed_empty : empty.Indexed where
  distinct := List.nodup_nil
  index := by simp [empty, position?, nodeNames]

theorem isSome_position?_iff (indexed : builder.Indexed) {name : String} :
    (builder.position? name).isSome ↔ name ∈ nodeNames builder.nodes := by
  rw [Option.isSome_iff_exists, List.mem_iff_getElem?]
  exact exists_congr fun position => indexed.index name position

theorem Indexed.node?_build (indexed : builder.Indexed) (name : String) :
    builder.build.node? name = (builder.position? name).bind (builder.nodes[·]?) := by
  cases found : builder.position? name with
  | none =>
    have absent : ¬name ∈ nodeNames builder.nodes := by
      rw [← isSome_position?_iff indexed, found]
      exact Bool.false_ne_true
    rw [Option.bind_none, ← Option.not_isSome_iff_eq_none]
    exact mt isSome_node?_iff.mp absent
  | some position =>
    have named := (indexed.index name position).mp found
    rw [nodeNames, List.getElem?_map] at named
    obtain ⟨node, here, rfl⟩ := Option.map_eq_some_iff.mp named
    rw [Option.bind_some, here]
    exact (node?_eq_some_iff indexed.distinct).mpr ⟨List.mem_of_getElem? here, rfl⟩

theorem nodeNames_edit {change : Node → Node} (keeps : ∀ node, (change node).name = node.name)
    (position : Nat) :
    nodeNames (builder.edit change position).nodes = nodeNames builder.nodes := by
  apply List.ext_getElem?
  intro index
  rw [nodeNames, nodeNames, edit, List.getElem?_map, List.getElem?_map, List.getElem?_modify]
  cases builder.nodes[index]? with
  | none => rfl
  | some node => by_cases here : position = index <;> simp [here, keeps]

theorem Indexed.congr (indexed : builder.Indexed) {after : Builder}
    (names : nodeNames after.nodes = nodeNames builder.nodes)
    (index : after.index = builder.index) : after.Indexed where
  distinct := names ▸ indexed.distinct
  index := by
    intro name position
    rw [position?, index, names]
    exact indexed.index name position

theorem Indexed.modify_eq_map (indexed : builder.Indexed) {name : String} {position : Nat}
    (found : builder.position? name = some position) (change : Node → Node) :
    builder.nodes.modify position change =
      builder.nodes.map (fun node => if node.name = name then change node else node) := by
  apply List.ext_getElem?
  intro index
  rw [List.getElem?_modify, List.getElem?_map]
  cases here : builder.nodes[index]? with
  | none => rfl
  | some node =>
    have same : node.name = name ↔ position = index := by
      have named := getElem?_nodeNames here
      have known := (indexed.index node.name index).mpr named
      constructor
      · rintro rfl
        exact Option.some.inj (found.symm.trans known)
      · rintro rfl
        rw [(indexed.index name position).mp found] at named
        exact (Option.some.inj named).symm
    simp [same]

/-- To edit the nodes of some names is to edit every node as often as it is named. -/
theorem Indexed.foldl_edit (indexed : builder.Indexed) (change : Node → Node)
    (keeps : ∀ node, (change node).name = node.name) {names : List String}
    (known : ∀ name ∈ names, (builder.position? name).isSome) :
    (names.filterMap builder.position?).foldl (fun builder position => builder.edit change position)
        builder =
      { builder with
        nodes := builder.nodes.map (fun node => change^[names.count node.name] node) } := by
  -- Positions are looked up before the first edit; the index stays the same throughout.
  induction names generalizing builder with
  | nil => simp
  | cons name rest ih =>
    obtain ⟨here, later⟩ := List.forall_mem_cons.mp known
    obtain ⟨position, found⟩ := Option.isSome_iff_exists.mp here
    rw [List.filterMap_cons_some found, List.foldl_cons]
    apply (ih (indexed.congr (nodeNames_edit keeps position) rfl) later).trans
    refine congrArg (fun nodes => { builder with nodes := nodes }) ?_
    rw [show (builder.edit change position).nodes = _ from indexed.modify_eq_map found change,
      List.map_map]
    apply List.map_congr_left
    intro node _
    rw [Function.comp_apply, List.count_cons]
    by_cases same : node.name = name
    · simp [same, keeps]
    · simp [same, Ne.symm same]

theorem Indexed.append (indexed : builder.Indexed) {node : Node}
    (new : node.name ∉ nodeNames builder.nodes) : (builder.append node).Indexed where
  distinct := by
    rw [Builder.append, nodeNames_append]
    exact indexed.distinct.append (List.nodup_singleton _) (by simpa using new)
  index := by
    intro name position
    have length : (nodeNames builder.nodes).length = builder.nodes.length := List.length_map _
    rw [position?, Builder.append, OrderedMap.get?_insert, nodeNames_append, List.getElem?_append,
      length]
    by_cases same : name = node.name
    · subst same
      have absent : (nodeNames builder.nodes)[position]? ≠ some node.name := fun here =>
        new (List.mem_of_getElem? here)
      rw [if_pos rfl]
      by_cases older : position < builder.nodes.length
      · simp [older, absent, Nat.ne_of_gt older]
      · rw [if_neg older, nodeNames, List.map_singleton, List.getElem?_singleton]
        simp
        omega
    · rw [if_neg same]
      apply (indexed.index name position).trans
      by_cases older : position < builder.nodes.length
      · rw [if_pos older]
      · rw [if_neg older, List.getElem?_eq_none (by omega), nodeNames, List.map_singleton,
          List.getElem?_singleton]
        simp [Ne.symm same]

theorem Indexed.isSome_node?_build (indexed : builder.Indexed) (name : String) :
    (builder.build.node? name).isSome = (builder.position? name).isSome := by
  rw [Bool.eq_iff_iff, isSome_position?_iff indexed]
  exact isSome_node?_iff

theorem Indexed.any_node?_build (indexed : builder.Indexed) (name : String) :
    (builder.build.node? name).any Node.isProcessor = (builder.processorPosition? name).isSome := by
  rw [indexed.node?_build, processorPosition?]
  cases builder.position? name with
  | none => rfl
  | some position =>
    rw [Option.bind_some, Option.filter_some]
    cases builder.nodes[position]?.any Node.isProcessor <;> rfl

theorem iterate_addChild (child : String) (count : Nat) (node : Node) :
    (Node.addChild child)^[count] node =
      { node with children := node.children ++ List.replicate count child } := by
  induction count generalizing node with
  | zero => simp
  | succ count ih =>
    rw [Function.iterate_succ_apply, ih, List.replicate_succ, Node.addChild]
    simp

theorem iterate_addStore (store : String) (count : Nat) (node : Node) :
    (Node.addStore store)^[count] node =
      { node with stores := node.stores ++ List.replicate count store } := by
  induction count generalizing node with
  | zero => simp
  | succ count ih =>
    rw [Function.iterate_succ_apply, ih, List.replicate_succ, Node.addStore]
    simp

/-- What has become of a builder is what would have become of its topology. -/
def Reflects (builder : Builder) :
    EStateM.Result BuildError Builder Unit → Except BuildError Topology → Prop
  | .ok _ after, outcome => after.Indexed ∧ outcome = .ok after.build
  | .error error after, outcome => after = builder ∧ outcome = .error error

theorem Indexed.reflects_addNode (indexed : builder.Indexed) (name : String) (kind : NodeKind)
    (parents : List String) :
    Reflects builder ((addNode name kind parents).run builder)
      (builder.build.addNode name kind parents) := by
  have same : ∀ parent,
      (builder.build.node? parent).isNone = (builder.position? parent).isNone := by
    intro parent
    rw [← Option.not_isSome, indexed.isSome_node?_build, Option.not_isSome]
  rw [run_addNode, Topology.addNode, indexed.isSome_node?_build]
  simp only [same]
  by_cases known : (builder.position? name).isSome
  · rw [if_pos known, if_pos known]
    exact ⟨rfl, rfl⟩
  · rw [if_neg known, if_neg known]
    cases missing : parents.find? (fun parent => (builder.position? parent).isNone) with
    | some parent => exact ⟨rfl, rfl⟩
    | none =>
      have located : ∀ parent ∈ parents, (builder.position? parent).isSome := by
        simpa [Option.isSome_iff_ne_none] using missing
      have edited := indexed.foldl_edit (Node.addChild name) (fun _ => rfl) located
      simp only [edited, iterate_addChild]
      have linked : Indexed { builder with nodes := link name parents builder.nodes } :=
        indexed.congr (nodeNames_link name parents builder.nodes) rfl
      refine ⟨linked.append ?_, rfl⟩
      rw [nodeNames_link, ← isSome_position?_iff indexed]
      exact known

theorem Indexed.reflects_addStore (indexed : builder.Indexed) (spec : StoreSpec)
    (processors : List String) :
    Reflects builder ((addStore spec processors).run builder)
      (builder.build.addStore spec processors) := by
  rw [run_addStore, Topology.addStore]
  by_cases known : builder.stores.any (fun store => store.name = spec.name)
  · rw [if_pos known, if_pos (show builder.build.stores.any _ = true from known)]
    exact ⟨rfl, rfl⟩
  · rw [if_neg known, if_neg (show ¬builder.build.stores.any _ = true from known)]
    simp only [indexed.any_node?_build, Option.not_isSome]
    cases missing : processors.find? (fun name => (builder.processorPosition? name).isNone) with
    | some processor => exact ⟨rfl, rfl⟩
    | none =>
      have located : ∀ name ∈ processors, (builder.processorPosition? name).isSome := by
        simpa [Option.isSome_iff_ne_none] using missing
      have same : ∀ name ∈ processors,
          builder.processorPosition? name = builder.position? name := by
        intro name member
        obtain ⟨position, found⟩ := Option.isSome_iff_exists.mp (located name member)
        rw [found]
        exact (Option.filter_eq_some_iff.mp found).1.symm
      have edited := indexed.foldl_edit (Node.addStore spec.name) (fun _ => rfl)
        (fun name member => same name member ▸ located name member)
      simp only [List.filterMap_congr same, edited, iterate_addStore]
      exact ⟨indexed.congr (nodeNames_attach spec.name processors builder.nodes) rfl, rfl⟩

theorem Indexed.reflects_perform (indexed : builder.Indexed) (step : Step) :
    Reflects builder ((perform step).run builder) (builder.build.perform step) := by
  cases step with
  | source name topic => exact indexed.reflects_addNode name _ []
  | processor name processor parents => exact indexed.reflects_addNode name _ parents
  | sink name topic parents => exact indexed.reflects_addNode name _ parents
  | store spec processors => exact indexed.reflects_addStore spec processors

theorem Indexed.performAll {invariant : Topology → Prop}
    (kept : ∀ topology grown step, invariant topology → topology.perform step = .ok grown →
      invariant grown)
    (indexed : builder.Indexed) (holds : invariant builder.build) (steps : List Step) :
    (builder.performAll steps).2.Indexed ∧ invariant (builder.performAll steps).2.build := by
  induction steps generalizing builder with
  | nil => exact ⟨indexed, holds⟩
  | cons step rest ih =>
    have reflects := indexed.reflects_perform step
    rw [Builder.performAll]
    cases taken : (perform step).run builder with
    | ok _ after =>
      rw [taken] at reflects
      obtain ⟨next, same⟩ := reflects
      exact ih next (kept _ _ step holds same)
    | error error after =>
      rw [taken] at reflects
      obtain ⟨rfl, -⟩ := reflects
      exact ih indexed holds

end Builder

end Topology

end ContinuousQuery
