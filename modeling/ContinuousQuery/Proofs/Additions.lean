import ContinuousQuery.Proofs.LoweredTrees

/-!
Sequences of additions. Additions that succeed and additions that are refused leave a tree in
which the parents are the converse of the operands, the names of each node are those of all
operators below it, and the last node is the root.
-/

namespace ContinuousQuery

namespace Tree

/-- What the nodes of a tree have to do with each other. -/
structure Coherent (tree : Tree) : Prop where
  operands : ∀ id operator, tree.operator? id = some operator →
    ∀ operand ∈ operator.operands, operand.index < id.index
  parents : ∀ child parent, tree.parent? child = some parent ↔
    ∃ operator, tree.operator? parent = some operator ∧ child ∈ operator.operands
  /-- No node is an operand of two nodes. -/
  unshared : ∀ first second one other, tree.operator? first = some one →
    tree.operator? second = some other → ∀ operand ∈ one.operands, operand ∈ other.operands →
      first = second
  /-- No node is an operand of another one twice. -/
  single : ∀ id operator, tree.operator? id = some operator → operator.operands.Nodup
  /-- A node holds the names that its whole subtree gives it. -/
  names : ∀ (index : Nat) (inside : index < tree.nodes.length),
    tree.nodes[index].names = (tree.below index inside).names
  root : tree.root? = if tree.size = 0 then none else some tree.lastId

namespace Consistent

variable {tree : Tree}

theorem parent?_lastId (consistent : tree.Consistent) : tree.parent? tree.lastId = none := by
  cases attached : tree.parent? tree.lastId with
  | none => rfl
  | some parent =>
    obtain ⟨operator, found, uses⟩ := (consistent.parents tree.lastId parent).mp attached
    have above := operand_lt found uses
    have inside := index_lt_of_operator? found
    simp only [lastId] at above
    omega

theorem root?_eq (consistent : tree.Consistent) :
    tree.root? = if tree.size = 0 then none else some tree.lastId := by
  by_cases empty : tree.size = 0
  · have none : tree.nodes = [] := List.eq_nil_of_length_eq_zero empty
    rw [if_pos empty, root?, none]
    rfl
  · rw [if_neg empty]
    exact root?_of_lastId (Nat.pos_of_ne_zero empty) consistent.parent?_lastId

theorem coherent (consistent : tree.Consistent) : tree.Coherent where
  operands := fun _ _ found _ member => operand_lt found member
  parents := consistent.parents
  unshared := by
    intro first second one other found again operand inOne inOther
    have attached := consistent.parent?_of_operand found inOne
    rw [consistent.parent?_of_operand again inOther] at attached
    exact (Option.some.inj attached).symm
  single := consistent.distinct
  names := by
    intro index inside
    have named := consistent.names_label (represents_below tree index inside)
    rw [label_below, Tree.names, node?, List.getElem?_eq_getElem inside] at named
    exact named
  root := consistent.root?_eq

end Consistent

theorem nodes_foldl_add (tree : Tree) (operators : List (Operator NodeId)) :
    (Growing.addAll tree.nodes operators).2 =
      (operators.foldl (fun tree operator => (tree.add operator).toOption.getD tree) tree).nodes := by
  induction operators generalizing tree with
  | nil => rfl
  | cons operator rest ih =>
    rw [Growing.addAll, List.foldl_cons]
    by_cases free : tree.Free operator.operands
    · have done := run_add_of_free free
      rw [add_eq_ok done, done]
      exact ih _
    · obtain ⟨error, failed⟩ := run_add_of_not_free free
      rw [add_eq_error failed, failed]
      exact ih _

theorem not_free_iff {tree : Tree} {operands : List NodeId} :
    ¬tree.Free operands ↔
      (∃ operand ∈ operands, tree.size ≤ operand.index ∨ (tree.parent? operand).isSome) ∨
        ¬operands.Nodup := by
  simp only [Free, not_and_or, not_forall, Nat.not_lt, ← Option.isSome_iff_ne_none, exists_prop]
  exact or_comm

/-- Any additions, refused ones among them, leave a coherent tree. What is added to it next is
refused exactly if an operand does not exist, has a parent or is given twice, and then the nodes
stay as they are. -/
theorem additions_coherent (operators : List (Operator NodeId)) :
    (Growing.addAll [] operators).2 = (ofOperators operators).nodes ∧
      (ofOperators operators).Coherent ∧
        ∀ operator : Operator NodeId,
          (∀ error after, (Growing.add operator).run (ofOperators operators).nodes =
            .error error after → after = (ofOperators operators).nodes) ∧
          ((∃ error after, (Growing.add operator).run (ofOperators operators).nodes =
              .error error after) ↔
            (∃ operand ∈ operator.operands, (ofOperators operators).size ≤ operand.index ∨
                ((ofOperators operators).parent? operand).isSome) ∨
              ¬operator.operands.Nodup) := by
  refine ⟨nodes_foldl_add empty operators, (built_ofOperators operators).consistent.coherent,
    fun operator => ?_⟩
  rw [← not_free_iff]
  by_cases free : (ofOperators operators).Free operator.operands
  · have done := run_add_of_free free
    constructor
    · intro error after failed
      cases done.symm.trans failed
    · constructor
      · rintro ⟨error, after, failed⟩
        cases done.symm.trans failed
      · intro refused
        exact absurd free refused
  · obtain ⟨error, failed⟩ := run_add_of_not_free free
    constructor
    · intro other after again
      cases failed.symm.trans again
      rfl
    · exact ⟨fun _ => free, fun _ => ⟨error, _, failed⟩⟩

/-- Additions, three of which are refused. -/
def disputedOperands : List (Operator NodeId) :=
  [.pattern ⟨.variable "a", .iri "p", .variable "b"⟩,
    .pattern ⟨.variable "b", .iri "p", .blank "c"⟩,
    .binary (.leftOuterJoin false) ⟨0⟩ ⟨1⟩, .unary .filter ⟨1⟩, .binary .union ⟨2⟩ ⟨2⟩,
    .binary .minus ⟨2⟩ ⟨7⟩, .unary (.projection ["a", "d"]) ⟨2⟩]

theorem additions_coherent_disputedOperands :
    (Growing.addAll [] disputedOperands).1 =
      [.ok ⟨0⟩, .ok ⟨1⟩, .ok ⟨2⟩, .error (.operandAlreadyAttached ⟨1⟩),
        .error (.operandAlreadyAttached ⟨2⟩), .error (.unknownNode ⟨7⟩), .ok ⟨3⟩] ∧
      (ofOperators disputedOperands).Coherent ∧
        ∃ after, (Growing.add (.binary .naturalJoin ⟨3⟩ ⟨0⟩)).run
            (ofOperators disputedOperands).nodes =
              .error (.operandAlreadyAttached ⟨0⟩) after ∧
          after = (ofOperators disputedOperands).nodes := by
  have coherent := additions_coherent disputedOperands
  have refused : (Growing.add (.binary .naturalJoin ⟨3⟩ ⟨0⟩)).run
      (Growing.addAll [] disputedOperands).2 =
        .error (.operandAlreadyAttached ⟨0⟩) (Growing.addAll [] disputedOperands).2 := by
    rfl
  rw [coherent.1] at refused
  exact ⟨by rfl, coherent.2.1, _, refused, (coherent.2.2 _).1 _ _ refused⟩

end Tree

end ContinuousQuery
