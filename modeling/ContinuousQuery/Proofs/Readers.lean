import ContinuousQuery.Proofs.StageTrees
import Mathlib.Data.List.Nodup
import Mathlib.Data.List.Pairwise
import Mathlib.Logic.Relation

/-!
Readers of stages. The side of a stage comes from the parent of its node, and the inputs of a
stage come from the operands of its node, rebindings left out. The two agree: the stages of a
query form one tree with the first stage as its root, in which every other stage is read once,
by a stage before it, at the operand position that is its side.
-/

namespace ContinuousQuery

def Capability.arity : Capability → Nat
  | .pattern _ => 0
  | .projection _ => 1
  | .join _ _ => 2

def Side.inputs (side : Side) (own other : NodeId) : List NodeId :=
  match side with
  | .left => [own, other]
  | .right => [other, own]

theorem Side.eq_of_inputs_eq {side origin : Side} {own other another : NodeId}
    (same : side.inputs own other = origin.inputs own another)
    (distinct : (side.inputs own other).Nodup) : side = origin := by
  cases side <;> cases origin <;> simp_all [inputs]

/-- A stage is an input of another one, and its side is its position among the inputs. -/
inductive Stage.Feeds (stage reader : Stage) : Prop
  | alone {function : Projection} (capability : reader.capability = .projection function)
      (inputs : reader.inputs = [stage.node]) (unsided : stage.side = none)
  | paired {joinType : JoinType} {keys : JoinKeys} {side : Side} {other : NodeId}
      (capability : reader.capability = .join joinType keys)
      (inputs : reader.inputs = side.inputs stage.node other) (sided : stage.side = some side)

theorem Stage.Feeds.mem_inputs {stage reader : Stage} (feeds : stage.Feeds reader) :
    stage.node ∈ reader.inputs := by
  cases feeds with
  | alone _ inputs => simp [inputs]
  | @paired _ _ side _ _ inputs => cases side <;> simp [inputs, Side.inputs]

namespace StageTree

theorem length_inputs (plan : StageTree) (side : Option Side) :
    ∀ stage ∈ plan.stages side, stage.inputs.length = stage.capability.arity := by
  induction plan generalizing side with
  | pattern => exact List.forall_mem_singleton.mpr rfl
  | projection _ _ _ _ ih => exact List.forall_mem_cons.mpr ⟨rfl, ih none⟩
  | join _ _ _ _ _ _ left right =>
    exact List.forall_mem_cons.mpr ⟨rfl, List.forall_mem_append.mpr ⟨left _, right _⟩⟩

theorem nodes_perm_inputs (plan : StageTree) (side : Option Side) :
    ((plan.stages side).map Stage.node).Perm
      (plan.node :: (plan.stages side).flatMap Stage.inputs) := by
  induction plan generalizing side with
  | pattern => exact List.Perm.refl _
  | projection node id function inner ih => exact (ih none).cons node
  | join node id joinType keys left right leftIh rightIh =>
    rw [stages, List.map_cons, List.map_append, List.flatMap_cons, List.flatMap_append]
    have both := (leftIh (some .left)).append (rightIh (some .right))
    exact (both.trans (List.perm_middle.cons left.node)).cons node

theorem exists_reader (plan : StageTree) (side : Option Side) :
    ∀ stage ∈ plan.stages side, stage.node = plan.node ∧ stage.side = side ∨
      ∃ reader ∈ plan.stages side, stage.Feeds reader := by
  induction plan generalizing side with
  | pattern => exact List.forall_mem_singleton.mpr (Or.inl ⟨rfl, rfl⟩)
  | projection node id function inner ih =>
    refine List.forall_mem_cons.mpr ⟨Or.inl ⟨rfl, rfl⟩, fun stage member => Or.inr ?_⟩
    rcases ih none stage member with ⟨top, unsided⟩ | ⟨reader, inside, feeds⟩
    · exact ⟨_, List.mem_cons_self, .alone rfl (congrArg ([·]) top.symm) unsided⟩
    · exact ⟨reader, List.mem_cons_of_mem _ inside, feeds⟩
  | join node id joinType keys left right leftIh rightIh =>
    refine List.forall_mem_cons.mpr ⟨Or.inl ⟨rfl, rfl⟩, fun stage member => Or.inr ?_⟩
    rcases List.mem_append.mp member with onLeft | onRight
    · rcases leftIh _ stage onLeft with ⟨top, sided⟩ | ⟨reader, inside, feeds⟩
      · have inputs : [left.node, right.node] = Side.left.inputs stage.node right.node :=
          congrArg ([·, right.node]) top.symm
        exact ⟨_, List.mem_cons_self, .paired rfl inputs sided⟩
      · exact ⟨reader, List.mem_cons_of_mem _ (List.mem_append_left _ inside), feeds⟩
    · rcases rightIh _ stage onRight with ⟨top, sided⟩ | ⟨reader, inside, feeds⟩
      · have inputs : [left.node, right.node] = Side.right.inputs stage.node left.node :=
          congrArg ([left.node, ·]) top.symm
        exact ⟨_, List.mem_cons_self, .paired rfl inputs sided⟩
      · exact ⟨reader, List.mem_cons_of_mem _ (List.mem_append_right _ inside), feeds⟩

theorem node_mem_nodes (plan : StageTree) (side : Option Side) :
    plan.node ∈ (plan.stages side).map Stage.node :=
  (plan.nodes_perm_inputs side).mem_iff.mpr List.mem_cons_self

theorem mem_nodes_of_mem_inputs {plan : StageTree} {side : Option Side} {stage : Stage}
    (member : stage ∈ plan.stages side) :
    ∀ input ∈ stage.inputs, input ∈ (plan.stages side).map Stage.node := by
  intro input listed
  have among := List.mem_flatMap.mpr ⟨stage, member, listed⟩
  exact (plan.nodes_perm_inputs side).mem_iff.mpr (List.mem_cons_of_mem _ among)

theorem notMem_inputs_behind (plan : StageTree) (side : Option Side)
    (distinct : ((plan.stages side).map Stage.node).Nodup) :
    (∀ stage ∈ plan.stages side, stage.node ∉ stage.inputs) ∧
      (plan.stages side).Pairwise (fun earlier later => earlier.node ∉ later.inputs) := by
  induction plan generalizing side with
  | pattern => exact ⟨List.forall_mem_singleton.mpr List.not_mem_nil, List.pairwise_singleton ..⟩
  | projection node id function inner ih =>
    obtain ⟨new, below⟩ := List.nodup_cons.mp distinct
    obtain ⟨irreflexive, behind⟩ := ih none below
    constructor
    · refine List.forall_mem_cons.mpr ⟨fun listed => new ?_, irreflexive⟩
      exact List.mem_singleton.mp listed ▸ inner.node_mem_nodes none
    · refine List.pairwise_cons.mpr ⟨fun later member listed => new ?_, behind⟩
      exact mem_nodes_of_mem_inputs member _ listed
  | join node id joinType keys left right leftIh rightIh =>
    rw [stages, List.map_cons, List.map_append] at distinct
    obtain ⟨new, below⟩ := List.nodup_cons.mp distinct
    obtain ⟨leftDistinct, rightDistinct, -⟩ := List.nodup_append.mp below
    have apart := List.disjoint_of_nodup_append below
    obtain ⟨leftIrreflexive, leftBehind⟩ := leftIh _ leftDistinct
    obtain ⟨rightIrreflexive, rightBehind⟩ := rightIh _ rightDistinct
    have operands : ∀ input ∈ [left.node, right.node],
        input ∈ (left.stages (some .left)).map Stage.node ++
          (right.stages (some .right)).map Stage.node :=
      List.forall_mem_cons.mpr ⟨List.mem_append_left _ (left.node_mem_nodes _),
        List.forall_mem_singleton.mpr (List.mem_append_right _ (right.node_mem_nodes _))⟩
    constructor
    · exact List.forall_mem_cons.mpr ⟨fun listed => new (operands node listed),
        List.forall_mem_append.mpr ⟨leftIrreflexive, rightIrreflexive⟩⟩
    · refine List.pairwise_cons.mpr ⟨fun later member listed => new ?_, List.pairwise_append.mpr
        ⟨leftBehind, rightBehind, fun earlier onLeft later onRight listed => ?_⟩⟩
      · exact List.mem_append.mpr ((List.mem_append.mp member).imp
          (fun onLeft => mem_nodes_of_mem_inputs onLeft node listed)
          (fun onRight => mem_nodes_of_mem_inputs onRight node listed))
      · exact apart (List.mem_map_of_mem onLeft) (mem_nodes_of_mem_inputs onRight _ listed)

section Distinct

variable {plan : StageTree} {side : Option Side}
  (distinct : ((plan.stages side).map Stage.node).Nodup)
include distinct

theorem nodup_inputs : (plan.node :: (plan.stages side).flatMap Stage.inputs).Nodup :=
  (plan.nodes_perm_inputs side).nodup_iff.mp distinct

theorem count_inputs {stage : Stage} (member : stage ∈ plan.stages side) :
    ((plan.stages side).flatMap Stage.inputs).count stage.node =
      if stage.node = plan.node then 0 else 1 := by
  obtain ⟨unread, nodup⟩ := List.nodup_cons.mp (nodup_inputs distinct)
  split
  next top => exact List.count_eq_zero.mpr (top ▸ unread)
  next below =>
    have listed := (plan.nodes_perm_inputs side).mem_iff.mp (List.mem_map_of_mem member)
    exact List.count_eq_one_of_mem nodup ((List.mem_cons.mp listed).resolve_left below)

theorem reader_unique {first second : Stage} (firstMember : first ∈ plan.stages side)
    (secondMember : second ∈ plan.stages side) {input : NodeId} (inFirst : input ∈ first.inputs)
    (inSecond : input ∈ second.inputs) : first = second := by
  by_contra different
  have apart := (List.nodup_flatMap.mp (List.nodup_cons.mp (nodup_inputs distinct)).2).2
  have symmetric : Std.Symm (Function.onFun List.Disjoint Stage.inputs) :=
    ⟨fun _ _ disjoint => disjoint.symm⟩
  exact apart.forall firstMember secondMember different inFirst inSecond

theorem node_eq_iff {index : Nat} {stage : Stage}
    (found : (plan.stages side)[index]? = some stage) : stage.node = plan.node ↔ index = 0 := by
  obtain ⟨head, rest, shape, top⟩ : ∃ head rest, plan.stages side = head :: rest ∧
      head.node = plan.node := by
    cases plan <;> exact ⟨_, _, rfl, rfl⟩
  rw [shape] at distinct found
  cases index with
  | zero =>
    cases found
    exact iff_of_true top rfl
  | succ index =>
    rw [List.getElem?_cons_succ] at found
    have later : stage.node ∈ rest.map Stage.node :=
      List.mem_map_of_mem (List.mem_of_getElem? found)
    refine iff_of_false (fun same => ?_) (Nat.succ_ne_zero index)
    exact (List.nodup_cons.mp distinct).1 (top ▸ same ▸ later)

end Distinct

end StageTree

namespace CompiledQuery

def Reads (query : CompiledQuery) (reader stage : Stage) : Prop :=
  reader ∈ query.stages ∧ stage ∈ query.stages ∧ stage.node ∈ reader.inputs

/-- The stages of a query form one tree, and they are listed from its root downwards. The side of
a stage is the position that it has among the inputs of the join that reads it. -/
structure FormsTree (query : CompiledQuery) : Prop where
  nonempty : query.stages ≠ []
  distinct : (query.stages.map Stage.node).Nodup
  once : ∀ (index : Nat) (stage : Stage), query.stages[index]? = some stage →
    (query.stages.flatMap Stage.inputs).count stage.node = if index = 0 then 0 else 1
  earlier : ∀ (index position : Nat) (stage reader : Stage),
    query.stages[index]? = some stage → query.stages[position]? = some reader →
      stage.node ∈ reader.inputs → position < index
  sided : ∀ stage ∈ query.stages, ∀ side, stage.side = some side ↔
    ∃ reader ∈ query.stages, ∃ joinType keys other,
      reader.capability = .join joinType keys ∧ reader.inputs = side.inputs stage.node other
  unsided : ∀ (index : Nat) (stage : Stage), query.stages[index]? = some stage →
    (stage.side = none ↔ index = 0 ∨ ∃ reader ∈ query.stages, ∃ function,
      reader.capability = .projection function ∧ reader.inputs = [stage.node])
  arity : ∀ stage ∈ query.stages, stage.inputs.length = stage.capability.arity
  fed : ∀ stage ∈ query.stages, ∀ input ∈ stage.inputs, ∃ feeder ∈ query.stages,
    feeder.node = input ∧ query.idOf? input = some feeder.id
  connected : ∀ root, query.root? = some root → ∀ stage ∈ query.stages,
    Relation.ReflTransGen query.Reads root stage

section Follows

variable {query : CompiledQuery} {plan : StageTree} (follows : query.Follows plan)
  (distinct : ((plan.stages none).map Stage.node).Nodup)
include follows distinct

theorem Follows.lt_of_mem_inputs {index position : Nat} {stage reader : Stage}
    (found : query.stages[index]? = some stage) (reading : query.stages[position]? = some reader)
    (listed : stage.node ∈ reader.inputs) : position < index := by
  rw [follows.stages] at found reading
  obtain ⟨irreflexive, behind⟩ := plan.notMem_inputs_behind none distinct
  obtain ⟨inside, rfl⟩ := List.getElem?_eq_some_iff.mp found
  obtain ⟨within, rfl⟩ := List.getElem?_eq_some_iff.mp reading
  by_contra notBefore
  rcases Nat.eq_or_lt_of_le (Nat.not_lt.mp notBefore) with same | before
  · subst same
    exact irreflexive _ (List.getElem_mem inside) listed
  · exact List.pairwise_iff_getElem.mp behind index position inside within before listed

theorem Follows.feeds {stage reader : Stage} (member : stage ∈ query.stages)
    (reading : reader ∈ query.stages) (listed : stage.node ∈ reader.inputs) :
    stage.Feeds reader := by
  rw [follows.stages] at member reading
  rcases plan.exists_reader none stage member with ⟨top, -⟩ | ⟨other, inside, feeds⟩
  · have among := List.mem_flatMap.mpr ⟨reader, reading, listed⟩
    exact absurd (top ▸ among) (List.nodup_cons.mp (StageTree.nodup_inputs distinct)).1
  · exact StageTree.reader_unique distinct inside reading feeds.mem_inputs listed ▸ feeds

theorem Follows.exists_feeds {index : Nat} {stage : Stage}
    (found : query.stages[index]? = some stage) :
    index = 0 ∧ stage.side = none ∨ ∃ reader ∈ query.stages, stage.Feeds reader := by
  rw [follows.stages] at found ⊢
  refine (plan.exists_reader none stage (List.mem_of_getElem? found)).imp_left ?_
  exact And.imp_left (StageTree.node_eq_iff distinct found).mp

theorem Follows.connected {root stage : Stage} (top : query.root? = some root)
    (member : stage ∈ query.stages) : Relation.ReflTransGen query.Reads root stage := by
  obtain ⟨index, found⟩ := List.mem_iff_getElem?.mp member
  induction index using Nat.strongRecOn generalizing stage with
  | ind index ih =>
    rcases follows.exists_feeds distinct found with ⟨rfl, -⟩ | ⟨reader, reading, feeds⟩
    · rw [root?, List.head?_eq_getElem?, found] at top
      cases top
      exact .refl
    · obtain ⟨position, known⟩ := List.mem_iff_getElem?.mp reading
      have before := follows.lt_of_mem_inputs distinct found known feeds.mem_inputs
      exact (ih position before reading known).tail ⟨reading, member, feeds.mem_inputs⟩

theorem Follows.side_eq_some_iff {stage : Stage} (member : stage ∈ query.stages) {side : Side} :
    stage.side = some side ↔ ∃ reader ∈ query.stages, ∃ joinType keys other,
      reader.capability = .join joinType keys ∧ reader.inputs = side.inputs stage.node other := by
  constructor
  · intro sided
    obtain ⟨index, found⟩ := List.mem_iff_getElem?.mp member
    rcases follows.exists_feeds distinct found with ⟨-, unsided⟩ | ⟨reader, reading, feeds⟩
    · cases sided.symm.trans unsided
    · cases feeds with
      | alone _ _ unsided => cases sided.symm.trans unsided
      | paired capability inputs known =>
        cases sided.symm.trans known
        exact ⟨reader, reading, _, _, _, capability, inputs⟩
  · rintro ⟨reader, reading, joinType, keys, other, capability, inputs⟩
    have listed : stage.node ∈ reader.inputs := by
      cases side <;> simp [inputs, Side.inputs]
    have unique : reader.inputs.Nodup := by
      have all := (List.nodup_cons.mp (StageTree.nodup_inputs distinct)).2
      exact (List.nodup_flatMap.mp all).1 reader (follows.stages ▸ reading)
    cases follows.feeds distinct member reading listed with
    | alone projection => cases capability.symm.trans projection
    | paired _ again known =>
      rw [known, Side.eq_of_inputs_eq (inputs.symm.trans again) (inputs ▸ unique)]

theorem Follows.side_eq_none_iff {index : Nat} {stage : Stage}
    (found : query.stages[index]? = some stage) :
    stage.side = none ↔ index = 0 ∨ ∃ reader ∈ query.stages, ∃ function,
      reader.capability = .projection function ∧ reader.inputs = [stage.node] := by
  have member := List.mem_of_getElem? found
  constructor
  · intro unsided
    rcases follows.exists_feeds distinct found with ⟨top, -⟩ | ⟨reader, reading, feeds⟩
    · exact Or.inl top
    · cases feeds with
      | alone capability inputs => exact Or.inr ⟨reader, reading, _, capability, inputs⟩
      | paired _ _ sided => cases sided.symm.trans unsided
  · rintro (top | ⟨reader, reading, function, capability, inputs⟩)
    · subst top
      rcases follows.exists_feeds distinct found with ⟨-, unsided⟩ | ⟨reader, reading, feeds⟩
      · exact unsided
      · obtain ⟨position, known⟩ := List.mem_iff_getElem?.mp reading
        have before := follows.lt_of_mem_inputs distinct found known feeds.mem_inputs
        omega
    · cases follows.feeds distinct member reading (inputs ▸ List.mem_singleton_self _) with
      | alone _ _ unsided => exact unsided
      | paired join => cases capability.symm.trans join

theorem Follows.formsTree : query.FormsTree where
  nonempty := by
    intro empty
    have top := plan.node_mem_nodes none
    rw [← follows.stages, empty] at top
    cases top
  distinct := follows.stages ▸ distinct
  once := by
    intro index stage found
    rw [follows.stages] at found ⊢
    rw [StageTree.count_inputs distinct (List.mem_of_getElem? found)]
    simp only [StageTree.node_eq_iff distinct found]
  earlier := fun _ _ _ _ => follows.lt_of_mem_inputs distinct
  sided := fun _ member _ => follows.side_eq_some_iff distinct member
  unsided := fun _ _ => follows.side_eq_none_iff distinct
  arity := follows.stages ▸ plan.length_inputs none
  fed := by
    intro stage member input listed
    rw [follows.stages] at member ⊢
    obtain ⟨feeder, inside, rfl⟩ :=
      List.mem_map.mp (StageTree.mem_nodes_of_mem_inputs member input listed)
    exact ⟨feeder, inside, rfl, follows.known feeder inside⟩
  connected := fun _ top _ => follows.connected distinct top

end Follows

end CompiledQuery

namespace Tree

/-- The stages of a compiled tree form one tree, and their sides agree with their inputs. -/
theorem stages_formTree {σ : Type} {tree : Tree} (built : tree.Built) (source : IdSource σ)
    (initial : σ) {query : CompiledQuery} (compiled : tree.compile source initial = .ok query) :
    query.FormsTree := by
  obtain ⟨algebra, plan, found, plans, follows⟩ := follows_of_compile built.consistent compiled
  obtain ⟨represents, -⟩ := algebra?_eq_some_iff.mp found
  exact follows.formsTree (built.consistent.nodup_nodes represents plans none)

/-- A pattern that is joined with a projection of its equal. Two nodes belong to no stage: a third
equal pattern, which nothing uses, and a rebinding below the projection. -/
def pairedWithItself : Tree :=
  .ofOperators [.pattern ⟨.variable "a", .iri "p", .variable "b"⟩,
    .pattern ⟨.variable "a", .iri "p", .variable "b"⟩,
    .pattern ⟨.variable "a", .iri "p", .variable "b"⟩,
    .unary (.rebinding [⟨.binding "b", "c"⟩]) ⟨0⟩, .unary (.projection ["a", "c"]) ⟨3⟩,
    .binary (.leftOuterJoin false) ⟨4⟩ ⟨1⟩]

def pairedWithItselfQuery : CompiledQuery :=
  (pairedWithItself.compile (.cycle ["x", "y", "z", "w"]) 0).toOption.getD ⟨[], []⟩

theorem stages_formTree_pairedWithItself :
    pairedWithItself.Built ∧
      pairedWithItself.compile (.cycle ["x", "y", "z", "w"]) 0 = .ok pairedWithItselfQuery ∧
      pairedWithItselfQuery.FormsTree ∧
      pairedWithItselfQuery.stages.map (fun stage => (stage.node, stage.side, stage.inputs)) =
        [(⟨5⟩, none, [⟨4⟩, ⟨1⟩]), (⟨4⟩, some .left, [⟨0⟩]), (⟨0⟩, none, []),
          (⟨1⟩, some .right, [])] := by
  have built : pairedWithItself.Built := built_ofOperators _
  have compiled : pairedWithItself.compile (.cycle ["x", "y", "z", "w"]) 0 =
      .ok pairedWithItselfQuery := by
    decide +kernel
  exact ⟨built, compiled, stages_formTree built _ 0 compiled, by decide +kernel⟩

end Tree

end ContinuousQuery
