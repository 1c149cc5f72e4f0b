import ContinuousQuery.Algebra.Growth
import Mathlib.Data.List.Nodup

/-!
Trees that are built operator by operator. A node is the parent of exactly its operands, and
it holds the names that its operator binds. So the operators below a node form an algebra
in which no node occurs twice, and the position of a node can be read off its parent.
-/

namespace ContinuousQuery

theorem Operator.bindingNames_congr {α : Type} {operator : Operator α} {first second : α → NameSet}
    (same : ∀ operand ∈ operator.operands, first operand = second operand) :
    operator.bindingNames first = operator.bindingNames second := by
  cases operator with
  | pattern triple => rfl
  | unary kind operand =>
    rw [Operator.bindingNames, Operator.bindingNames, same operand (by simp [operands])]
  | binary kind left right =>
    rw [Operator.bindingNames, Operator.bindingNames, same left (by simp [operands]),
      same right (by simp [operands])]
  | unsupported name => rfl

def Algebra.names {ι : Type} : Algebra ι → NameSet
  | .pattern _ triple => NameSet.ofNames triple.bindingNames
  | .unary _ kind operand => kind.bindingNames operand.names
  | .binary _ kind left right => kind.bindingNames left.names right.names
  | .unsupported _ _ => OrderedMap.empty

namespace Tree

theorem index_lt_of_node? {tree : Tree} {id : NodeId} {node : Node}
    (found : tree.node? id = some node) : id.index < tree.size :=
  (List.getElem?_eq_some_iff.mp found).1

def operator? (tree : Tree) (id : NodeId) : Option (Operator NodeId) :=
  (tree.node? id).map (·.operator)

theorem index_lt_of_operator? {tree : Tree} {id : NodeId} {operator : Operator NodeId}
    (found : tree.operator? id = some operator) : id.index < tree.size := by
  obtain ⟨node, present, -⟩ := Option.map_eq_some_iff.mp found
  exact index_lt_of_node? present

theorem operand_lt {tree : Tree} {id operand : NodeId} {operator : Operator NodeId}
    (found : tree.operator? id = some operator) (member : operand ∈ operator.operands) :
    operand.index < id.index := by
  obtain ⟨node, present, rfl⟩ := Option.map_eq_some_iff.mp found
  exact tree.operands_before id.index node present operand member

section Push

variable {tree : Tree} {operator : Operator NodeId}
  {present : ∀ operand ∈ operator.operands, operand.index < tree.size}

theorem node?_push_of_lt {id : NodeId} (older : id.index < tree.size) :
    (tree.push operator present).node? id = (tree.node? id).map (fun node =>
      if id ∈ operator.operands then { node with parent := some tree.nextId } else node) := by
  have inside : id.index < (adopt tree.nodes operator.operands tree.nextId).length := by
    rw [length_adopt]
    exact older
  rw [node?, push, List.getElem?_append_left inside, adopt, List.getElem?_mapIdx]
  rfl

theorem node?_push_nextId : (tree.push operator present).node? tree.nextId =
    some ⟨operator, none, operator.bindingNames tree.names⟩ := by
  rw [node?, push, List.getElem?_append_right (by simp [nextId, size])]
  simp [nextId, size]

theorem eq_nextId_of_not_lt {id : NodeId} {node : Node}
    (found : (tree.push operator present).node? id = some node)
    (newer : ¬id.index < tree.size) : id = tree.nextId := by
  have inside := index_lt_of_node? found
  rw [size_push] at inside
  have index : id.index = tree.size := by omega
  cases id
  exact congrArg NodeId.mk index

theorem operator?_push_of_lt {id : NodeId} (older : id.index < tree.size) :
    (tree.push operator present).operator? id = tree.operator? id := by
  rw [operator?, node?_push_of_lt older, Option.map_map, operator?]
  congr 1
  funext node
  simp only [Function.comp_apply]
  split <;> rfl

theorem operator?_push_nextId :
    (tree.push operator present).operator? tree.nextId = some operator := by
  rw [operator?, node?_push_nextId]
  rfl

theorem names_push_of_lt {id : NodeId} (older : id.index < tree.size) :
    (tree.push operator present).names id = tree.names id := by
  rw [names, node?_push_of_lt older, Option.map_map, names]
  congr 2
  funext node
  simp only [Function.comp_apply]
  split <;> rfl

theorem operator?_push_eq_some_iff {id : NodeId} {other : Operator NodeId} :
    (tree.push operator present).operator? id = some other ↔
      tree.operator? id = some other ∨ id = tree.nextId ∧ other = operator := by
  by_cases older : id.index < tree.size
  · have different : id ≠ tree.nextId := by
      intro same
      subst same
      exact Nat.lt_irrefl _ older
    rw [operator?_push_of_lt older]
    simp only [different, false_and, or_false]
  · have absent : tree.operator? id ≠ some other := fun found => older (index_lt_of_operator? found)
    simp only [absent, false_or]
    constructor
    · intro found
      obtain ⟨node, inside, -⟩ := Option.map_eq_some_iff.mp found
      have newest := eq_nextId_of_not_lt inside older
      rw [newest, operator?_push_nextId] at found
      exact ⟨newest, (Option.some.inj found).symm⟩
    · intro newest
      obtain ⟨rfl, rfl⟩ := newest
      exact operator?_push_nextId

theorem parent?_push_of_lt {id : NodeId} (older : id.index < tree.size) :
    (tree.push operator present).parent? id =
      if id ∈ operator.operands then some tree.nextId else tree.parent? id := by
  have found : tree.node? id = some tree.nodes[id.index] := List.getElem?_eq_getElem older
  rw [parent?, node?_push_of_lt older, parent?, found]
  by_cases member : id ∈ operator.operands <;> simp [member]

theorem parent?_push_nextId : (tree.push operator present).parent? tree.nextId = none := by
  rw [parent?, node?_push_nextId]
  rfl

theorem parent?_push_of_not_lt {id : NodeId} (newer : ¬id.index < tree.size) :
    (tree.push operator present).parent? id = none := by
  cases found : (tree.push operator present).parent? id with
  | none => rfl
  | some parent =>
    obtain ⟨node, inside, -⟩ := Option.bind_eq_some_iff.mp found
    rw [eq_nextId_of_not_lt inside newer, parent?_push_nextId] at found
    cases found

end Push

def Free (tree : Tree) (operands : List NodeId) : Prop :=
  operands.Nodup ∧ ∀ operand ∈ operands, operand.index < tree.size ∧ tree.parent? operand = none

theorem refusal?_eq_none_iff {tree : Tree} {earlier operands : List NodeId} :
    tree.refusal? earlier operands = none ↔
      tree.Free operands ∧ ∀ operand ∈ operands, operand ∉ earlier := by
  induction operands generalizing earlier with
  | nil => simp [refusal?, Free]
  | cons head rest ih =>
    unfold refusal?
    cases found : tree.node? head with
    | none =>
      have outside : ¬head.index < tree.size := by
        rw [node?, List.getElem?_eq_none_iff] at found
        exact Nat.not_lt.mpr found
      simp [Free, outside]
    | some node =>
      have inside : head.index < tree.size := index_lt_of_node? found
      have parent : tree.parent? head = node.parent := by rw [parent?, found]; rfl
      by_cases refused : node.parent.isSome ∨ head ∈ earlier
      · simp only [refused, if_true]
        rw [← parent, Option.isSome_iff_ne_none] at refused
        simp only [reduceCtorEq, Free, List.forall_mem_cons, false_iff, not_and]
        rintro ⟨-, ⟨-, free⟩, -⟩ new
        exact absurd new (refused.resolve_left (fun attached => attached free) |> not_not_intro)
      · simp only [refused, if_false]
        rw [ih]
        rw [← parent, Option.isSome_iff_ne_none, not_or, not_not] at refused
        simp only [Free, List.nodup_cons, List.forall_mem_cons, List.mem_append,
          List.mem_singleton, not_or, refused.1, refused.2, inside, not_false_eq_true, true_and]
        constructor
        · intro apart
          obtain ⟨⟨nodup, free⟩, new⟩ := apart
          exact ⟨⟨⟨fun member => (new head member).2 rfl, nodup⟩, free⟩,
            fun operand member => (new operand member).1⟩
        · intro apart
          obtain ⟨⟨⟨notMem, nodup⟩, free⟩, new⟩ := apart
          exact ⟨⟨nodup, free⟩, fun operand member =>
            ⟨new operand member, fun same => notMem (same ▸ member)⟩⟩

section Addition

variable {tree : Tree} {operator : Operator NodeId}

theorem run_add_of_free (free : tree.Free operator.operands) :
    (Growing.add operator).run tree.nodes = .ok tree.nextId
      (tree.push operator (fun operand member => (free.2 operand member).1)).nodes := by
  have accepted : tree.refusal? [] operator.operands = none :=
    refusal?_eq_none_iff.mpr ⟨free, fun _ _ => List.not_mem_nil⟩
  rw [Growing.run_add, accepted]
  exact Growing.run_append _

theorem run_add_of_not_free (refused : ¬tree.Free operator.operands) :
    ∃ error, (Growing.add operator).run tree.nodes = .error error tree.nodes := by
  rw [Growing.run_add]
  cases outcome : tree.refusal? [] operator.operands with
  | none => exact absurd (refusal?_eq_none_iff.mp outcome).1 refused
  | some error => exact ⟨error, rfl⟩

theorem add_eq_ok {id : NodeId} {grown : Tree}
    (done : (Growing.add operator).run tree.nodes = .ok id grown.nodes) :
    tree.add operator = .ok grown := by
  unfold add
  split
  next other nodes same =>
    rw [done] at same
    cases same
    rfl
  next error after failed =>
    rw [done] at failed
    cases failed

theorem add_eq_error {error : TreeError} {after : List Node}
    (failed : (Growing.add operator).run tree.nodes = .error error after) :
    tree.add operator = .error error := by
  unfold add
  split
  next other nodes done =>
    rw [failed] at done
    cases done
  next error after same =>
    rw [failed] at same
    cases same
    rfl

end Addition

theorem add_eq_ok_iff {tree grown : Tree} {operator : Operator NodeId} :
    tree.add operator = .ok grown ↔
      ∃ free : tree.Free operator.operands,
        grown = tree.push operator (fun operand member => (free.2 operand member).1) := by
  by_cases free : tree.Free operator.operands
  · rw [add_eq_ok (run_add_of_free free), Except.ok.injEq, eq_comm]
    constructor
    · intro same
      exact ⟨free, same⟩
    · intro pushed
      obtain ⟨_, same⟩ := pushed
      exact same
  · obtain ⟨error, failed⟩ := run_add_of_not_free free
    rw [add_eq_error failed]
    simp [free]

/-- What the nodes of a tree say of each other is true. -/
structure Consistent (tree : Tree) : Prop where
  parents : ∀ child parent, tree.parent? child = some parent ↔
    ∃ operator, tree.operator? parent = some operator ∧ child ∈ operator.operands
  names : ∀ id node, tree.node? id = some node →
    node.names = node.operator.bindingNames tree.names
  distinct : ∀ id operator, tree.operator? id = some operator → operator.operands.Nodup

theorem consistent_empty : Consistent empty where
  parents := by simp [parent?, operator?, node?, empty]
  names := by simp [node?, empty]
  distinct := by simp [operator?, node?, empty]

theorem Consistent.push {tree : Tree} {operator : Operator NodeId} (consistent : tree.Consistent)
    (free : tree.Free operator.operands) :
    (tree.push operator (fun operand member => (free.2 operand member).1)).Consistent where
  parents := by
    intro child parent
    simp only [operator?_push_eq_some_iff, or_and_right, exists_or, ← consistent.parents, and_assoc,
      exists_and_left, exists_eq_left]
    by_cases recent : child.index < tree.size
    · rw [parent?_push_of_lt recent]
      by_cases member : child ∈ operator.operands
      · -- A new operand has no old parent, so no old operator mentions it.
        simp [member, (free.2 child member).2, eq_comm]
      · simp [member]
    · have unused : child ∉ operator.operands := fun member => recent (free.2 child member).1
      have unattached : tree.parent? child = none := by
        rw [parent?, node?, List.getElem?_eq_none (Nat.not_lt.mp recent)]
        rfl
      rw [parent?_push_of_not_lt recent, unattached]
      simp [unused]
  names := by
    intro id node found
    have unchanged : ∀ other : Operator NodeId, (∀ operand ∈ other.operands, operand.index < tree.size) →
        other.bindingNames (tree.push operator
          (fun operand member => (free.2 operand member).1)).names =
            other.bindingNames tree.names :=
      fun other inside => Operator.bindingNames_congr
        (fun operand member => names_push_of_lt (inside operand member))
    by_cases older : id.index < tree.size
    · rw [node?_push_of_lt older] at found
      obtain ⟨before, present, rfl⟩ := Option.map_eq_some_iff.mp found
      have inside : ∀ operand ∈ before.operator.operands, operand.index < tree.size :=
        fun operand member => Nat.lt_trans
          (tree.operands_before id.index before present operand member) older
      split
      · exact (consistent.names id before present).trans (unchanged _ inside).symm
      · exact (consistent.names id before present).trans (unchanged _ inside).symm
    · have newest := eq_nextId_of_not_lt found older
      rw [newest, node?_push_nextId] at found
      cases found
      exact (unchanged operator (fun operand member => (free.2 operand member).1)).symm
  distinct := by
    intro id other found
    rcases operator?_push_eq_some_iff.mp found with old | ⟨-, rfl⟩
    · exact consistent.distinct id other old
    · exact free.1

inductive Built : Tree → Prop
  | empty : Built empty
  | add {tree grown : Tree} {operator : Operator NodeId} (built : Built tree)
      (added : tree.add operator = .ok grown) : Built grown

/-- The tree after operators have been offered one after the other. A refused one is left out. -/
def ofOperators (operators : List (Operator NodeId)) : Tree :=
  operators.foldl (fun tree operator => (tree.add operator).toOption.getD tree) empty

theorem built_ofOperators (operators : List (Operator NodeId)) : (ofOperators operators).Built := by
  have grown : ∀ tree : Tree, tree.Built →
      (operators.foldl (fun tree operator => (tree.add operator).toOption.getD tree) tree).Built := by
    induction operators with
    | nil => exact fun tree built => built
    | cons operator rest ih =>
      intro tree built
      rw [List.foldl_cons]
      apply ih
      cases added : tree.add operator with
      | error refusal => exact built
      | ok grown => exact .add built added
  exact grown empty .empty

theorem Built.consistent {tree : Tree} (built : tree.Built) : tree.Consistent := by
  induction built with
  | empty => exact consistent_empty
  | add _ added ih =>
    obtain ⟨free, rfl⟩ := add_eq_ok_iff.mp added
    exact ih.push free

end Tree

end ContinuousQuery
