import ContinuousQuery.Topology.Basic

/-!
Assembly of compiled queries. The stages are added from the last one to the first,
as each stage comes before those that feed it. Pattern stages read from the one
source; the results of the first stage pass through the formatter to the one sink.
-/

namespace ContinuousQuery

namespace Topology

def sourceName : String := "SOURCE"

def formatterName : String := "OUTPUT_FORMATTER"

def sinkName : String := "SINK"

end Topology

namespace CompiledQuery

open ContinuousQuery.Topology

def parentsOf (query : CompiledQuery) (stage : Stage) : Except BuildError (List String) :=
  match stage.capability with
  | .pattern _ => .ok [sourceName]
  | _ => stage.inputs.mapM (fun node =>
    match query.idOf? node with
    | some id => .ok id
    | none => .error (.unknownInput stage.id node))

/-- Adds a stage and, for a join, its store. -/
def addStage (query : CompiledQuery) (topology : Topology) (stage : Stage) :
    Except BuildError Topology := do
  let parents ← query.parentsOf stage
  let topology ← topology.addProcessor stage.id (Processor.ofStage stage) parents
  match stage.capability with
  | .join _ _ => topology.addStore (StoreSpec.joinState stage.id) [stage.id]
  | _ => .ok topology

/-- The topology that reads statements from one topic and writes results to another. -/
def assemble (query : CompiledQuery) (statementTopic resultTopic : String) :
    Except BuildError Topology :=
  match query.root? with
  | none => .error .emptyQuery
  | some root => do
    let topology ← Topology.empty.addSource sourceName ⟨statementTopic, .string, .statement⟩
    let topology ← query.stages.reverse.foldlM query.addStage topology
    let topology ← topology.addProcessor formatterName ⟨formatterName, .formatter⟩ [root.id]
    topology.addSink sinkName ⟨resultTopic, .string, .solution⟩ [formatterName]

end CompiledQuery

end ContinuousQuery
