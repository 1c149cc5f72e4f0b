import ContinuousQuery.Proofs.JoinRun

/-!
Networks of operators, which keep the stores of their joins to themselves. A statement enters
all patterns at once, and a join hears of the results of its right operand before those of
its left one. What a network yields over a run is put together from what its operands yield.
-/

namespace ContinuousQuery

/-- The arrivals at a join of which those on the right come first. -/
def Arrival.rightFirst (lefts rights : List Solution) : List Arrival :=
  rights.map (fun right => (.right, right)) ++ lefts.map (fun left => (.left, left))

theorem Arrival.valuesOn_rightFirst (side : Side) (lefts rights : List Solution) :
    valuesOn side (rightFirst lefts rights) =
      match side with
      | .left => lefts
      | .right => rights := by
  have sent : ∀ (origin : Side) (solutions : List Solution),
      valuesOn side (solutions.map (fun solution => (origin, solution))) =
        if origin = side then solutions else [] := by
    intro origin solutions
    by_cases here : origin = side <;> simp [valuesOn, List.filter_map, Function.comp_def, here]
  rw [rightFirst, valuesOn_append, sent, sent]
  cases side <;> simp

/-- Operators with what they remember. -/
inductive Network where
  | pattern (triple : TriplePattern)
  | projection (function : Projection) (inner : Network)
  | join (joinType : JoinType) (keys : JoinKeys) (store : Store) (left right : Network)

namespace Network

def step (statement : Statement) : Network → List Solution × Network
  | .pattern triple => ((triple.matchStatement statement).toList, .pattern triple)
  | .projection function inner =>
    let (solutions, next) := inner.step statement
    (solutions.map function.project, .projection function next)
  | .join joinType keys store left right =>
    let (lefts, nextLeft) := left.step statement
    let (rights, nextRight) := right.step statement
    let (joined, grown) := Processor.joinAll joinType keys store (Arrival.rightFirst lefts rights)
    (joined, .join joinType keys grown nextLeft nextRight)

def run : Network → List Statement → List Solution × Network
  | network, [] => ([], network)
  | network, statement :: rest =>
    let (solutions, next) := network.step statement
    let (later, last) := next.run rest
    (solutions ++ later, last)

def arrivals : Network → Network → List Statement → List Arrival
  | _, _, [] => []
  | left, right, statement :: rest =>
    Arrival.rightFirst (left.step statement).1 (right.step statement).1 ++
      arrivals (left.step statement).2 (right.step statement).2 rest

theorem run_concat (network : Network) (statements : List Statement) (last : Statement) :
    (network.run (statements ++ [last])).1 =
      (network.run statements).1 ++ ((network.run statements).2.step last).1 := by
  induction statements generalizing network with
  | nil => simp [run]
  | cons statement rest ih => simp only [List.cons_append, run, ih, List.append_assoc]

theorem arrivals_concat (left right : Network) (statements : List Statement) (last : Statement) :
    arrivals left right (statements ++ [last]) = arrivals left right statements ++
      Arrival.rightFirst ((left.run statements).2.step last).1
        ((right.run statements).2.step last).1 := by
  induction statements generalizing left right with
  | nil => simp [arrivals, run]
  | cons statement rest ih => simp only [List.cons_append, arrivals, run, ih, List.append_assoc]

theorem run_pattern (triple : TriplePattern) (statements : List Statement) :
    ((pattern triple).run statements).1 = statements.filterMap triple.matchStatement := by
  induction statements with
  | nil => rfl
  | cons statement rest ih =>
    simp only [run, step, ih]
    cases found : triple.matchStatement statement <;> simp [found]

theorem run_projection (function : Projection) (inner : Network) (statements : List Statement) :
    ((projection function inner).run statements).1 =
      (inner.run statements).1.map function.project := by
  induction statements generalizing inner with
  | nil => rfl
  | cons statement rest ih => simp only [run, step, ih, List.map_append]

theorem run_join (joinType : JoinType) (keys : JoinKeys) (store : Store) (left right : Network)
    (statements : List Statement) :
    ((join joinType keys store left right).run statements).1 =
      (Processor.joinAll joinType keys store (arrivals left right statements)).1 := by
  induction statements generalizing store left right with
  | nil => rfl
  | cons statement rest ih =>
    simp only [run, step, ih]
    rw [arrivals, Processor.joinAll_append]

theorem next_pattern (triple : TriplePattern) (statements : List Statement) :
    ((pattern triple).run statements).2 = pattern triple := by
  induction statements with
  | nil => rfl
  | cons statement rest ih => exact ih

theorem next_projection (function : Projection) (inner : Network) (statements : List Statement) :
    ((projection function inner).run statements).2 =
      projection function (inner.run statements).2 := by
  induction statements generalizing inner with
  | nil => rfl
  | cons statement rest ih => exact ih _

theorem next_join (joinType : JoinType) (keys : JoinKeys) (store : Store) (left right : Network)
    (statements : List Statement) :
    ((join joinType keys store left right).run statements).2 =
      join joinType keys (Processor.joinAll joinType keys store (arrivals left right statements)).2
        (left.run statements).2 (right.run statements).2 := by
  induction statements generalizing store left right with
  | nil => rfl
  | cons statement rest ih =>
    simp only [run, step, ih]
    rw [arrivals, Processor.joinAll_append]

theorem valuesOn_arrivals (side : Side) (left right : Network) (statements : List Statement) :
    Arrival.valuesOn side (arrivals left right statements) =
      match side with
      | .left => (left.run statements).1
      | .right => (right.run statements).1 := by
  induction statements generalizing left right with
  | nil => cases side <;> rfl
  | cons statement rest ih =>
    rw [arrivals, Arrival.valuesOn_append, Arrival.valuesOn_rightFirst, ih]
    cases side <;> rfl

theorem mem_arrivals_iff {side : Side} {solution : Solution} {left right : Network}
    {statements : List Statement} :
    (side, solution) ∈ arrivals left right statements ↔
      match side with
      | .left => solution ∈ (left.run statements).1
      | .right => solution ∈ (right.run statements).1 := by
  rw [← Arrival.mem_valuesOn, valuesOn_arrivals]
  cases side <;> rfl

end Network

end ContinuousQuery
