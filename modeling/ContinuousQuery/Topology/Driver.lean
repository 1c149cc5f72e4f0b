import ContinuousQuery.Topology.Builder

/-!
Runs a topology one statement at a time. A driver sets up a processor for each processor node
and finds it by the name of the node. A record that a processor forwards reaches all nodes
below before the next record of that processor is sent. An error ends the delivery at hand,
and all that happened before it remains.
-/

namespace ContinuousQuery

inductive DriverError where
  | processor (error : ProcessorError)
  | unknownNode (name : String)
  | unexpectedRecord (node record : String)
deriving DecidableEq, Repr

def DriverError.message : DriverError → String
  | .processor error => error.message
  | .unknownNode name => "The topology does not contain a node with the name '" ++ name ++ "'"
  | .unexpectedRecord node record =>
    "The node '" ++ node ++ "' cannot receive a " ++ record ++ " record"

/-- What a topology remembers between statements. -/
structure RunState where
  stores : Stores
  /-- The results that nobody has read yet, the oldest first. -/
  results : List Solution
deriving DecidableEq, Repr

def RunState.read (state : RunState) : List Solution × RunState :=
  (state.results, { state with results := [] })

/-- A delivery changes the state, also if it fails. -/
abbrev Delivery := EStateM DriverError RunState

/-- Processors under the names of their nodes. -/
abbrev Processors := OrderedMap Processor

namespace Topology

def Node.processor? (node : Node) : Option Processor :=
  match node.kind with
  | .processor processor => some processor
  | _ => none

def processors (topology : Topology) : Processors :=
  OrderedMap.ofList (topology.nodes.filterMap (fun node =>
    node.processor?.map (fun processor => (node.name, processor))))

def Node.accept (node : Node) (processors : Processors) (send : String → Record → Delivery Unit)
    (record : Record) : Delivery Unit :=
  match node.kind, record with
  | .processor _, record =>
    match OrderedMap.get? processors node.name with
    | none => throw (.unknownNode node.name)
    | some processor => do
      let state ← get
      match processor.process node.stores state.stores record with
      | .error error => throw (.processor error)
      | .ok (forwarded, stores) =>
        set { state with stores := stores }
        forwarded.forM (fun output => node.children.forM (fun child => send child output))
  | .sink _, .solution solution =>
    modify (fun state => { state with results := state.results ++ [solution] })
  | _, record => throw (.unexpectedRecord node.name record.kindName)

-- The node is looked for behind the sender only, which is why the recursion ends. A driver that
-- looks it up by its name among all nodes makes the same deliveries: `Builder.leads_pipe`.
def deliver (processors : Processors) : List Node → String → Record → Delivery Unit
  | [], name, _ => throw (.unknownNode name)
  | node :: later, name, record =>
    if node.name = name then node.accept processors (deliver processors later) record
    else deliver processors later name record

def sendStatement (processors : Processors) : List Node → Statement → Delivery Unit
  | [], _ => pure ()
  | node :: later, statement => do
    if node.isSource then
      node.children.forM (fun child => deliver processors later child (.statement statement))
    sendStatement processors later statement

def start (topology : Topology) : RunState :=
  ⟨Stores.ofNames (topology.stores.map (·.name)), []⟩

-- No processor keeps a state of its own, so the same ones serve all statements.
def pipe (topology : Topology) (statement : Statement) (state : RunState) :
    Except DriverError Unit × RunState :=
  match (sendStatement topology.processors topology.nodes statement).run state with
  | .ok _ after => (.ok (), after)
  | .error error after => (.error error, after)

/-- Pushes a statement through the topology and reads what it yields after the results so far,
the latest of which come first. -/
def collect (topology : Topology) (progress : RunState × List (List Solution))
    (statement : Statement) : Except DriverError (RunState × List (List Solution)) :=
  match topology.pipe statement progress.1 with
  | (.error error, _) => .error error
  | (.ok (), after) =>
    let (results, later) := after.read
    .ok (later, results :: progress.2)

/-- All results that statements yield, in their order, up to an error. -/
def evaluate (topology : Topology) (statements : List Statement) :
    Except DriverError (List Solution) :=
  (statements.foldlM topology.collect (topology.start, [])).map (fun progress =>
    progress.2.reverse.flatten)

end Topology

end ContinuousQuery
