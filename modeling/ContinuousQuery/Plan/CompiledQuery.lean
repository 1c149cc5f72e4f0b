import ContinuousQuery.Algebra.Tree
import ContinuousQuery.Plan.JoinKeys
import ContinuousQuery.Plan.StageId

/-!
Compiled queries. The operator tree is visited from the root, each operator before
its operands and the left operand before the right one, and every visited operator
becomes one stage. A rebinding right below a projection becomes part of it; every
other operator that is not a pattern, an unfiltered join or a projection is refused.
-/

namespace ContinuousQuery

inductive Capability where
  | pattern (triple : TriplePattern)
  | join (joinType : JoinType) (keys : JoinKeys)
  | projection (projection : Projection)
deriving DecidableEq, Repr

namespace Capability

def stageKind : Capability → StageKind
  | .pattern _ => .pattern
  | .join _ _ => .join
  | .projection _ => .projection

def textWith (mark : String) : Capability → String
  | .pattern triple => "StatementPattern" ++ mark ++ ": " ++ triple.text
  | .join joinType keys => "Join" ++ mark ++ " (" ++ joinType.text ++ "): " ++ keys.text
  | .projection function => "Projection" ++ mark ++ ": " ++ function.text

def text (capability : Capability) : String := capability.textWith ""

end Capability

structure Stage where
  node : NodeId
  id : String
  /-- The side on which the results of the stage enter a join. -/
  side : Option Side
  capability : Capability
  /-- The operators whose stages feed this one, that of the left operand first. -/
  inputs : List NodeId
deriving DecidableEq, Repr

inductive CompileError where
  | unsupportedOperator (node : NodeId) (operator : String)
  | emptyAlgebraTree
  | duplicateStageId (id : String)
deriving DecidableEq, Repr

def CompileError.message : CompileError → String
  | .unsupportedOperator node operator =>
    "The operator " ++ operator ++ " (node " ++ node.text ++
      ") is not supported by the streaming engine"
  | .emptyAlgebraTree => "Cannot compile an empty algebra tree"
  | .duplicateStageId id => "The processor id '" ++ id ++ "' has been generated twice"

structure CompiledQuery where
  /-- The stages in the order of the visit; the first one yields the results of the query. -/
  stages : List Stage
  /-- The ids of the stages of nodes. -/
  ids : List (NodeId × String)
deriving DecidableEq, Repr

namespace CompiledQuery

def root? (query : CompiledQuery) : Option Stage := query.stages.head?

def idOf? (query : CompiledQuery) (node : NodeId) : Option String :=
  (query.ids.find? (fun entry => entry.1 = node)).map (·.2)

def idsByNode (query : CompiledQuery) : List (NodeId × String) :=
  query.ids.mergeSort (fun earlier later => earlier.1.index ≤ later.1.index)

/-- The query made of the stages at some positions and the ids of all but some nodes. -/
def select (query : CompiledQuery) (positions : Option (List Nat)) (dropped : List NodeId) :
    CompiledQuery where
  stages := match positions with
    | some positions => positions.filterMap (fun position => query.stages[position]?)
    | none => query.stages
  ids := query.ids.filter (fun entry => entry.1 ∉ dropped)

end CompiledQuery

namespace Compilation

structure Draft (σ : Type) where
  state : σ
  stages : List Stage

/-- The work on a draft, which remains as it is if there is an error. -/
abbrev Drafting (σ : Type) := EStateM CompileError (Draft σ)

variable {σ : Type}

/-- Adds the stage of a node under the next id, which is drawn in any case. -/
def record (tree : Tree) (source : IdSource σ) (node : NodeId) (capability : Capability)
    (inputs : List NodeId) : Drafting σ Unit := do
  let draft ← get
  let (id, state) := source.next capability.stageKind draft.state
  set { draft with state := state }
  if draft.stages.any (fun stage => stage.id = id) then throw (.duplicateStageId id)
  set (⟨state, draft.stages ++ [⟨node, id, tree.side? node, capability, inputs⟩]⟩ : Draft σ)

def joinOf (tree : Tree) (joinType : JoinType) (left right : NodeId) : Capability :=
  .join joinType (JoinKeys.plan (tree.names left) (tree.names right))

def visit (tree : Tree) (source : IdSource σ) : Algebra NodeId → Drafting σ Unit
  | .pattern node triple => record tree source node (.pattern triple) []
  | .unary node (.projection names) (.unary _ (.rebinding elements) operand) => do
    record tree source node
      (.projection (Projection.ofRebindings elements names)) [operand.label]
    visit tree source operand
  | .unary node (.projection names) operand => do
    record tree source node (.projection (Projection.ofRebindings [] names)) [operand.label]
    visit tree source operand
  | .binary node .naturalJoin left right => do
    record tree source node (joinOf tree .natural left.label right.label) [left.label, right.label]
    visit tree source left
    visit tree source right
  | .binary node (.leftOuterJoin false) left right => do
    record tree source node (joinOf tree .leftOuter left.label right.label)
      [left.label, right.label]
    visit tree source left
    visit tree source right
  | refused => throw (.unsupportedOperator refused.label refused.operator.name)

def Draft.query (draft : Draft σ) : CompiledQuery :=
  ⟨draft.stages, draft.stages.map (fun stage => (stage.node, stage.id))⟩

def finish : EStateM.Result CompileError (Draft σ) Unit → Except CompileError CompiledQuery × σ
  | .ok () draft => (.ok draft.query, draft.state)
  | .error error draft => (.error error, draft.state)

end Compilation

namespace Tree

/-- Plans the stages of a query, with ids from a source in the given state. The source goes on
from the state in which it is left, also if there is an error. -/
def compileFrom {σ : Type} (tree : Tree) (source : IdSource σ) (state : σ) :
    Except CompileError CompiledQuery × σ :=
  match tree.algebra? with
  | none => (.error .emptyAlgebraTree, state)
  | some algebra =>
    Compilation.finish ((Compilation.visit tree source algebra).run ⟨state, []⟩)

/-- Plans the stages of a query with an id source that is of no use afterwards. -/
def compile {σ : Type} (tree : Tree) (source : IdSource σ) (state : σ) :
    Except CompileError CompiledQuery := (tree.compileFrom source state).1

end Tree

end ContinuousQuery
