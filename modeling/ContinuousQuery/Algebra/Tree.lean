import ContinuousQuery.Algebra.Operator
import ContinuousQuery.Join

/-!
Operator trees under construction. Nodes are added bottom-up and numbered in the
order of their addition, so operands have smaller numbers than the operator that
uses them and the root of a finished tree comes last. Each node remembers its parent
and the names that its solutions may bind. Two equal subtrees are different nodes.
-/

namespace ContinuousQuery

structure NodeId where
  index : Nat
deriving DecidableEq, Repr

def NodeId.text (id : NodeId) : String := "#" ++ toString id.index

structure Node where
  operator : Operator NodeId
  parent : Option NodeId
  names : NameSet

inductive TreeError where
  | unknownNode (operand : NodeId)
  | operandAlreadyAttached (operand : NodeId)
deriving DecidableEq, Repr

def TreeError.message : TreeError → String
  | .unknownNode operand => "The node " ++ operand.text ++ " does not exist in this algebra tree"
  | .operandAlreadyAttached operand =>
    "The node " ++ operand.text ++ " already is an operand of another node"

structure Tree where
  nodes : List Node
  operands_before : ∀ (index : Nat) (node : Node), nodes[index]? = some node →
    ∀ operand ∈ node.operator.operands, operand.index < index

namespace Tree

def empty : Tree := ⟨[], by simp⟩

instance : Inhabited Tree := ⟨empty⟩

def size (tree : Tree) : Nat := tree.nodes.length

def node? (tree : Tree) (id : NodeId) : Option Node := tree.nodes[id.index]?

def parent? (tree : Tree) (id : NodeId) : Option NodeId := (tree.node? id).bind (·.parent)

def names (tree : Tree) (id : NodeId) : NameSet :=
  ((tree.node? id).map (·.names)).getD OrderedMap.empty

def nextId (tree : Tree) : NodeId := ⟨tree.size⟩

def adopt (nodes : List Node) (operands : List NodeId) (parent : NodeId) : List Node :=
  nodes.mapIdx (fun index node =>
    if ⟨index⟩ ∈ operands then { node with parent := some parent } else node)

@[simp] theorem length_adopt (nodes : List Node) (operands : List NodeId) (parent : NodeId) :
    (adopt nodes operands parent).length = nodes.length := by simp [adopt]

theorem operator_adopt {nodes : List Node} {operands : List NodeId} {parent : NodeId} {index : Nat}
    {node : Node} (found : (adopt nodes operands parent)[index]? = some node) :
    ∃ before, nodes[index]? = some before ∧ before.operator = node.operator := by
  simp only [adopt, List.getElem?_mapIdx, Option.map_eq_some_iff] at found
  obtain ⟨before, present, same⟩ := found
  refine ⟨before, present, ?_⟩
  subst same
  split <;> rfl

def push (tree : Tree) (operator : Operator NodeId)
    (present : ∀ operand ∈ operator.operands, operand.index < tree.size) : Tree where
  nodes := adopt tree.nodes operator.operands tree.nextId ++
    [⟨operator, none, operator.bindingNames tree.names⟩]
  operands_before := by
    intro index node found operand member
    by_cases older : index < tree.nodes.length
    · rw [List.getElem?_append_left (by simpa using older)] at found
      obtain ⟨before, present, same⟩ := operator_adopt found
      exact tree.operands_before index before present operand (same ▸ member)
    · rw [List.getElem?_append_right (by simpa using older), length_adopt] at found
      have newest : index = tree.nodes.length := by
        have inside := (List.getElem?_eq_some_iff.mp found).1
        simp only [List.length_singleton] at inside
        omega
      subst newest
      simp only [Nat.sub_self, List.getElem?_cons_zero, Option.some.injEq] at found
      subst found
      exact present operand member

@[simp] theorem size_push (tree : Tree) (operator : Operator NodeId)
    (present : ∀ operand ∈ operator.operands, operand.index < tree.size) :
    (tree.push operator present).size = tree.size + 1 := by simp [push, size]

theorem size_lt_push (tree : Tree) (operator : Operator NodeId)
    (present : ∀ operand ∈ operator.operands, operand.index < tree.size) :
    tree.size < (tree.push operator present).size := by simp

/-- The first reason, from left to right, why nodes cannot become operands of a new node. -/
def refusal? (tree : Tree) (earlier : List NodeId) : List NodeId → Option TreeError
  | [] => none
  | operand :: rest =>
    match tree.node? operand with
    | none => some (.unknownNode operand)
    | some node =>
      if node.parent.isSome ∨ operand ∈ earlier then some (.operandAlreadyAttached operand)
      else refusal? tree (earlier ++ [operand]) rest

theorem index_lt_of_refusal?_eq_none {tree : Tree} {earlier operands : List NodeId}
    (accepted : tree.refusal? earlier operands = none) :
    ∀ operand ∈ operands, operand.index < tree.size := by
  induction operands generalizing earlier with
  | nil => simp
  | cons head rest ih =>
    simp only [refusal?] at accepted
    split at accepted
    next absent => simp at accepted
    next node found =>
      split at accepted
      next => simp at accepted
      next =>
        intro operand member
        rcases List.mem_cons.mp member with here | later
        · exact here ▸ (List.getElem?_eq_some_iff.mp found).1
        · exact ih accepted operand later

/-- The last node, unless it is an operand of another one. -/
def root? (tree : Tree) : Option NodeId :=
  match tree.nodes.getLast? with
  | some node => if node.parent.isNone then some ⟨tree.size - 1⟩ else none
  | none => none

def below (tree : Tree) (index : Nat) (inside : index < tree.nodes.length) : Algebra NodeId :=
  match shape : tree.nodes[index].operator with
  | .pattern triple => .pattern ⟨index⟩ triple
  | .unary kind operand =>
    have smaller : operand.index < index :=
      tree.operands_before index _ (List.getElem?_eq_getElem inside) operand
        (by simp [shape, Operator.operands])
    .unary ⟨index⟩ kind (tree.below operand.index (Nat.lt_trans smaller inside))
  | .binary kind left right =>
    have leftSmaller : left.index < index :=
      tree.operands_before index _ (List.getElem?_eq_getElem inside) left
        (by simp [shape, Operator.operands])
    have rightSmaller : right.index < index :=
      tree.operands_before index _ (List.getElem?_eq_getElem inside) right
        (by simp [shape, Operator.operands])
    .binary ⟨index⟩ kind (tree.below left.index (Nat.lt_trans leftSmaller inside))
      (tree.below right.index (Nat.lt_trans rightSmaller inside))
  | .unsupported name => .unsupported ⟨index⟩ name
termination_by index

def algebra? (tree : Tree) : Option (Algebra NodeId) :=
  match tree.root? with
  | some root =>
    if inside : root.index < tree.nodes.length then some (tree.below root.index inside) else none
  | none => none

def reachable (tree : Tree) : List NodeId :=
  match tree.algebra? with
  | some algebra => ((List.range tree.size).map NodeId.mk).filter (· ∈ algebra.labels)
  | none => []

def side? (tree : Tree) (id : NodeId) : Option Side := do
  let parent ← tree.parent? id
  let node ← tree.node? parent
  let (left, right) ← node.operator.binaryOperands?
  if left = id then some .left else if right = id then some .right else none

/-- The names of the solutions of a node in the order in which they are shown: that of a
projection's variables, else ascending. -/
def outputNames (tree : Tree) (id : NodeId) : List String :=
  match (tree.node? id).map Node.operator with
  | some (.unary (.projection names) _) => names
  | _ => (tree.names id).names

def columns (tree : Tree) : List String := (tree.root?.map tree.outputNames).getD []

def text (tree : Tree) : String :=
  match tree.algebra? with
  | some algebra => algebra.text
  | none => "<empty>\n"

end Tree

end ContinuousQuery
