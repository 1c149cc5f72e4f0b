import ContinuousQuery.Solution

/-!
Joins that are evaluated one arrival at a time. A solution that arrives on one side
of a join meets the solutions that arrived on the other side before; partners that
disagree on a name they share are skipped. A left outer join emits a left solution
alone while it has no partner, and never takes a result back.
-/

namespace ContinuousQuery

inductive Side where
  | left
  | right
deriving DecidableEq, Repr

namespace Side

def opposite : Side → Side
  | .left => .right
  | .right => .left

def text : Side → String
  | .left => "LEFT"
  | .right => "RIGHT"

end Side

inductive JoinType where
  | natural
  | leftOuter
deriving DecidableEq, Repr

def JoinType.text : JoinType → String
  | .natural => "natural"
  | .leftOuter => "left outer"

def Bindings.merge (left right : Bindings) : Option Bindings :=
  right.entries.foldlM (fun merged entry => Bindings.bind merged entry.1 entry.2) left

/-- A joined solution may be seen by those who may see both partners. -/
def Solution.join (left right : Solution) : Option Solution :=
  (Bindings.merge left.content right.content).map
    (fun bindings => ⟨bindings, combineVisibilities left.visibility right.visibility⟩)

namespace JoinType

def onLeft (joinType : JoinType) (left : Solution) (partners : List Solution) : List Solution :=
  let joined := partners.filterMap (fun right => Solution.join left right)
  match joinType, joined with
  | .leftOuter, [] => [left]
  | _, joined => joined

def onRight (_joinType : JoinType) (partners : List Solution) (right : Solution) : List Solution :=
  partners.filterMap (fun left => Solution.join left right)

/-- The results of a solution that arrives on a side and meets those of the other side. -/
def onArrival (joinType : JoinType) (side : Side) (arrived : Solution) (partners : List Solution) :
    List Solution :=
  match side with
  | .left => joinType.onLeft arrived partners
  | .right => joinType.onRight partners arrived

end JoinType

end ContinuousQuery
