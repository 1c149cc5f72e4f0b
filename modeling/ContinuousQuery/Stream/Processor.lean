import ContinuousQuery.Plan.CompiledQuery
import ContinuousQuery.Stream.JoinState
import ContinuousQuery.Stream.Record

/-!
Processors, which do the work of stages. A processor handles one record at a time; it
yields the records that it forwards and the stores as they are afterwards. A join
stores an arrival before it looks for partners and drops what it has seen before, so
each compatible pair is emitted once, whichever partner comes first.
-/

namespace ContinuousQuery

inductive ProcessorKind where
  /-- Does the work of a stage; a join keeps its state in the named store. -/
  | stage (capability : Capability) (side : Option Side) (store : String)
  /-- Unwraps the results of the query. -/
  | formatter
deriving DecidableEq, Repr

structure Processor where
  id : String
  kind : ProcessorKind
deriving DecidableEq, Repr

inductive ProcessorError where
  | missingStateStore (processor store : String)
  | unexpectedRecord (processor record : String)
deriving DecidableEq, Repr

def ProcessorError.message : ProcessorError → String
  | .missingStateStore processor store =>
    "The processor '" ++ processor ++ "' requires the state store '" ++ store ++
      "', which is not available"
  | .unexpectedRecord processor record =>
    "The processor '" ++ processor ++ "' cannot handle a " ++ record ++ " record"

namespace Processor

/-- The processor of a compiled stage. A join uses a store with the name of the stage. -/
def ofStage (stage : Stage) : Processor :=
  ⟨stage.id, .stage stage.capability stage.side stage.id⟩

def join (joinType : JoinType) (keys : JoinKeys) (store : Store) (side : Side)
    (arrived : Solution) : List Solution × Store :=
  match keys.insert? store side arrived with
  | none => ([], store)
  | some grown => (joinType.onArrival side arrived (keys.candidates grown side arrived), grown)

def process (processor : Processor) (attached : List String) (stores : Stores) (record : Record) :
    Except ProcessorError (List Record × Stores) :=
  match processor.kind, record with
  | .stage (.pattern triple) side _, .statement statement =>
    .ok ((triple.matchStatement statement).toList.map
      (fun solution => .result (.ofSide side solution)), stores)
  | .stage (.projection function) side _, .result result =>
    .ok ([.result (.ofSide side (function.project result.solution))], stores)
  | .stage (.join joinType keys) side name, .result (.binary arrival solution) =>
    match Stores.open? stores attached name with
    | none => .error (.missingStateStore processor.id name)
    | some store =>
      let (joined, store) := join joinType keys store arrival solution
      .ok (joined.map (fun solution => .result (.ofSide side solution)),
        OrderedMap.insert stores name store)
  | .formatter, .result result => .ok ([.solution result.solution], stores)
  | _, record => .error (.unexpectedRecord processor.id record.kindName)

def text (processor : Processor) : String :=
  match processor.kind with
  | .stage capability side _ =>
    capability.textWith ((side.map (fun side => "[" ++ side.text ++ "]")).getD "")
  | .formatter => "OutputFormatter"

end Processor

end ContinuousQuery
