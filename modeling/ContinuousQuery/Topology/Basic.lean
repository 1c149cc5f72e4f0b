import ContinuousQuery.Stream.Processor

/-!
Topologies: sources, processors and sinks in the order of their addition, with the
state stores of the processors. A node can only name nodes before it as its parents,
so records flow forward. A step that is refused leaves the topology as it was.
-/

namespace ContinuousQuery

inductive RecordFormat where
  | string
  | statement
  | solution
deriving DecidableEq, Repr

namespace RecordFormat

def text : RecordFormat → String
  | .string => "String"
  | .statement => "VisibilityStatement"
  | .solution => "VisibilityBindingSet"

def all : List RecordFormat := [.string, .statement, .solution]

end RecordFormat

structure Topic where
  name : String
  key : RecordFormat
  value : RecordFormat
deriving DecidableEq, Repr

structure StoreSpec where
  name : String
  persistent : Bool
  key : RecordFormat
  value : RecordFormat
deriving DecidableEq, Repr

def StoreSpec.joinState (name : String) : StoreSpec := ⟨name, true, .string, .solution⟩

namespace Topology

inductive NodeKind where
  | source (topic : Topic)
  | processor (processor : Processor)
  | sink (topic : Topic)
deriving DecidableEq, Repr

structure Node where
  name : String
  kind : NodeKind
  /-- The nodes that send records to this one. -/
  parents : List String
  /-- The nodes that receive the records of this one, in the order of their addition. -/
  children : List String
  /-- The state stores that the node has access to. -/
  stores : List String
deriving DecidableEq, Repr

namespace Node

def isSource (node : Node) : Bool := node.kind matches .source _

def isProcessor (node : Node) : Bool := node.kind matches .processor _

def addChild (child : String) (node : Node) : Node :=
  { node with children := node.children ++ [child] }

def addStore (store : String) (node : Node) : Node := { node with stores := node.stores ++ [store] }

end Node

inductive BuildError where
  | duplicateNode (name : String)
  | unknownParent (node parent : String)
  | unknownProcessor (store processor : String)
  | duplicateStore (name : String)
  | unknownInput (stage : String) (node : NodeId)
  | emptyQuery
deriving DecidableEq, Repr

def BuildError.message : BuildError → String
  | .duplicateNode name =>
    "A node with the name '" ++ name ++ "' has already been added to the topology"
  | .unknownParent node parent =>
    "The node '" ++ node ++ "' refers to the unknown parent '" ++ parent ++ "'"
  | .unknownProcessor store processor =>
    "The state store '" ++ store ++ "' is attached to '" ++ processor ++
      "', which is not a processor of the topology"
  | .duplicateStore name =>
    "A state store with the name '" ++ name ++ "' has already been added to the topology"
  | .unknownInput stage node =>
    "The stage '" ++ stage ++ "' depends on the node " ++ node.text ++ ", which has no stage"
  | .emptyQuery => "The compiled query does not contain any stage"

end Topology

structure Topology where
  nodes : List Topology.Node
  stores : List StoreSpec
deriving DecidableEq, Repr

namespace Topology

def empty : Topology := ⟨[], []⟩

instance : Inhabited Topology := ⟨empty⟩

def node? (topology : Topology) (name : String) : Option Node :=
  topology.nodes.find? (fun node => node.name = name)

def sources (topology : Topology) : List Node := topology.nodes.filter Node.isSource

/-- Adds a node below parents that have been added before. A parent that is given twice gets
the node as a child twice. -/
def addNode (topology : Topology) (name : String) (kind : NodeKind) (parents : List String) :
    Except BuildError Topology :=
  if (topology.node? name).isSome then .error (.duplicateNode name)
  else match parents.find? (fun parent => (topology.node? parent).isNone) with
  | some parent => .error (.unknownParent name parent)
  | none =>
    let linked := topology.nodes.map (fun node =>
      { node with children := node.children ++ List.replicate (parents.count node.name) name })
    .ok { topology with nodes := linked ++ [⟨name, kind, parents, [], []⟩] }

def addSource (topology : Topology) (name : String) (topic : Topic) : Except BuildError Topology :=
  topology.addNode name (.source topic) []

def addProcessor (topology : Topology) (name : String) (processor : Processor)
    (parents : List String) : Except BuildError Topology :=
  topology.addNode name (.processor processor) parents

def addSink (topology : Topology) (name : String) (topic : Topic) (parents : List String) :
    Except BuildError Topology :=
  topology.addNode name (.sink topic) parents

def addStore (topology : Topology) (spec : StoreSpec) (processors : List String) :
    Except BuildError Topology :=
  if topology.stores.any (fun store => store.name = spec.name) then
    .error (.duplicateStore spec.name)
  else match processors.find? (fun name => !((topology.node? name).any Node.isProcessor)) with
  | some processor => .error (.unknownProcessor spec.name processor)
  | none =>
    let attached := topology.nodes.map (fun node =>
      { node with stores := node.stores ++ List.replicate (processors.count node.name) spec.name })
    .ok ⟨attached, topology.stores ++ [spec]⟩

inductive Step where
  | source (name : String) (topic : Topic)
  | processor (name : String) (processor : Processor) (parents : List String)
  | sink (name : String) (topic : Topic) (parents : List String)
  | store (spec : StoreSpec) (processors : List String)
deriving DecidableEq, Repr

def perform (topology : Topology) : Step → Except BuildError Topology
  | .source name topic => topology.addSource name topic
  | .processor name processor parents => topology.addProcessor name processor parents
  | .sink name topic parents => topology.addSink name topic parents
  | .store spec processors => topology.addStore spec processors

def Node.lines (node : Node) : List String :=
  let list (mark : String) (names : List String) : List String :=
    if names.isEmpty then [] else ["    " ++ mark ++ " " ++ ", ".intercalate names]
  let topicText (topic : Topic) : String :=
    "(topic: " ++ topic.name ++ ", key: " ++ topic.key.text ++ ", value: " ++
      topic.value.text ++ ")"
  let head : String := match node.kind with
    | .source topic => "  Source: " ++ node.name ++ " " ++ topicText topic
    | .processor processor => "  Processor: " ++ node.name ++ " (" ++ processor.text ++ ")"
    | .sink topic => "  Sink: " ++ node.name ++ " " ++ topicText topic
  head :: (list "stores:" node.stores ++ list "-->" node.children ++ list "<--" node.parents)

end Topology

def StoreSpec.line (spec : StoreSpec) : String :=
  let kind : String := if spec.persistent then "persistent" else "in-memory"
  "  State store: " ++ spec.name ++ " (" ++ kind ++ ", key: " ++ spec.key.text ++
    ", value: " ++ spec.value.text ++ ")"

namespace Topology

def lines (topology : Topology) : List String :=
  "Topology:" :: (topology.nodes.flatMap Node.lines ++ topology.stores.map StoreSpec.line)

def text (topology : Topology) : String := String.join (topology.lines.map (· ++ "\n"))

end Topology

end ContinuousQuery
