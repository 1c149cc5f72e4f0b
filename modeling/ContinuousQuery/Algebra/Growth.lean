import ContinuousQuery.Algebra.Tree

/-!
Trees grow in place. An addition inspects the operands one by one, makes the new node their
parent and appends it. All inspections come before the first change, so an addition that is
refused leaves the nodes as they were.
-/

namespace ContinuousQuery

/-- Work on the nodes of a tree, which stay as the work has left them if there is an error. -/
abbrev Growing := EStateM TreeError (List Node)

namespace Growing

def inspect (earlier : List NodeId) : List NodeId → Growing Unit
  | [] => pure ()
  | operand :: rest => do
    match (← get)[operand.index]? with
    | none => throw (.unknownNode operand)
    | some node =>
      if node.parent.isSome ∨ operand ∈ earlier then throw (.operandAlreadyAttached operand)
      else inspect (earlier ++ [operand]) rest

def attach (parent : NodeId) (operands : List NodeId) : Growing Unit :=
  operands.forM (fun operand => modify (fun nodes =>
    nodes.modify operand.index (fun node => { node with parent := some parent })))

def append (operator : Operator NodeId) : Growing NodeId := do
  let nodes ← get
  let id : NodeId := ⟨nodes.length⟩
  let operandNames (operand : NodeId) : NameSet :=
    (nodes[operand.index]?.map (·.names)).getD OrderedMap.empty
  attach id operator.operands
  modify (fun nodes => nodes ++ [⟨operator, none, operator.bindingNames operandNames⟩])
  return id

def add (operator : Operator NodeId) : Growing NodeId := do
  inspect [] operator.operands
  append operator

def addAll (nodes : List Node) :
    List (Operator NodeId) → List (Except TreeError NodeId) × List Node
  | [] => ([], nodes)
  | operator :: rest =>
    match (add operator).run nodes with
    | .ok id after =>
      let (outcomes, last) := addAll after rest
      (.ok id :: outcomes, last)
    | .error error after =>
      let (outcomes, last) := addAll after rest
      (.error error :: outcomes, last)

theorem run_inspect (tree : Tree) (earlier operands : List NodeId) :
    (inspect earlier operands).run tree.nodes =
      match tree.refusal? earlier operands with
      | some error => .error error tree.nodes
      | none => .ok () tree.nodes := by
  induction operands generalizing earlier with
  | nil => rfl
  | cons operand rest ih =>
    have here : (inspect earlier (operand :: rest)).run tree.nodes =
        (match tree.node? operand with
        | none => throw (.unknownNode operand)
        | some node =>
          if node.parent.isSome ∨ operand ∈ earlier then throw (.operandAlreadyAttached operand)
          else inspect (earlier ++ [operand]) rest : Growing Unit).run tree.nodes := rfl
    rw [here, Tree.refusal?]
    cases tree.node? operand with
    | none => rfl
    | some node =>
      by_cases refused : node.parent.isSome ∨ operand ∈ earlier
      · simp only [if_pos refused]
        rfl
      · simp only [if_neg refused]
        exact ih (earlier ++ [operand])

theorem run_attach (parent : NodeId) (operands : List NodeId) (nodes : List Node) :
    (attach parent operands).run nodes = .ok () (Tree.adopt nodes operands parent) := by
  induction operands generalizing nodes with
  | nil =>
    refine congrArg (EStateM.Result.ok ()) (List.ext_getElem? fun index => ?_)
    simp [Tree.adopt]
  | cons operand rest ih =>
    refine (ih (nodes.modify operand.index
      (fun node => { node with parent := some parent }))).trans ?_
    refine congrArg (EStateM.Result.ok ()) (List.ext_getElem? fun index => ?_)
    have same : operand.index = index ↔ (⟨index⟩ : NodeId) = operand := by
      cases operand
      simp [eq_comm]
    rw [Tree.adopt, Tree.adopt, List.getElem?_mapIdx, List.getElem?_mapIdx, List.getElem?_modify]
    cases nodes[index]? with
    | none => rfl
    | some node =>
      by_cases here : (⟨index⟩ : NodeId) = operand
      · simp [same, here]
      · simp [same, here]

section Addition

variable {tree : Tree} {operator : Operator NodeId}

theorem run_append (present : ∀ operand ∈ operator.operands, operand.index < tree.size) :
    (append operator).run tree.nodes = .ok tree.nextId (tree.push operator present).nodes := by
  rw [append, EStateM.run_bind, EStateM.run_get]
  simp only [EStateM.run_bind, run_attach]
  rfl

theorem run_add (tree : Tree) (operator : Operator NodeId) :
    (add operator).run tree.nodes =
      match tree.refusal? [] operator.operands with
      | some error => .error error tree.nodes
      | none => (append operator).run tree.nodes := by
  rw [add, EStateM.run_bind, run_inspect]
  cases tree.refusal? [] operator.operands <;> rfl

end Addition

end Growing

namespace Tree

theorem exists_of_run_add {tree : Tree} {operator : Operator NodeId} {id : NodeId}
    {nodes : List Node} (done : (Growing.add operator).run tree.nodes = .ok id nodes) :
    ∃ grown : Tree, grown.nodes = nodes := by
  rw [Growing.run_add] at done
  split at done
  next => cases done
  next accepted =>
    rw [Growing.run_append (index_lt_of_refusal?_eq_none accepted)] at done
    cases done
    exact ⟨_, rfl⟩

def add (tree : Tree) (operator : Operator NodeId) : Except TreeError Tree :=
  match done : (Growing.add operator).run tree.nodes with
  | .ok _ nodes => .ok ⟨nodes, by
      obtain ⟨grown, rfl⟩ := exists_of_run_add done
      exact grown.operands_before⟩
  | .error error _ => .error error

end Tree

end ContinuousQuery
