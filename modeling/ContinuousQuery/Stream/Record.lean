import ContinuousQuery.Join

/-!
The records that flow along the edges of a topology. A result that enters a join
says on which side it arrives, as both operands send to the same stage.
-/

namespace ContinuousQuery

inductive StageResult where
  | unary (solution : Solution)
  | binary (side : Side) (solution : Solution)
deriving DecidableEq, Repr

namespace StageResult

def ofSide (side : Option Side) (solution : Solution) : StageResult :=
  match side with
  | some side => .binary side solution
  | none => .unary solution

def side? : StageResult → Option Side
  | .unary _ => none
  | .binary side _ => some side

def solution : StageResult → Solution
  | .unary solution | .binary _ solution => solution

def text : StageResult → String
  | .unary solution => Solution.text solution
  | .binary side solution => side.text ++ ": " ++ Solution.text solution

end StageResult

inductive Record where
  | statement (statement : Statement)
  | result (result : StageResult)
  | solution (solution : Solution)
deriving DecidableEq, Repr

namespace Record

def kindName : Record → String
  | .statement _ => "statement"
  | .result _ => "processor result"
  | .solution _ => "binding set"

def side? : Record → Option Side
  | .result output => output.side?
  | _ => none

def text : Record → String
  | .statement input => Statement.text input
  | .result output => output.text
  | .solution output => Solution.text output

end Record

end ContinuousQuery
