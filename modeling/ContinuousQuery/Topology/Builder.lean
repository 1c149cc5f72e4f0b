import ContinuousQuery.Topology.Basic

/-!
Builders of topologies. A builder changes its nodes in place and finds them by an index of
their names. All that a step refers to is looked up before anything is changed, so a step that
is refused leaves the builder as it was.
-/

namespace ContinuousQuery

namespace Topology

structure Builder where
  nodes : List Node
  /-- The position of each node by its name. -/
  index : OrderedMap Nat
  stores : List StoreSpec
deriving DecidableEq, Repr

/-- Work on a builder, which stays as the work has left it if there is an error. -/
abbrev Building := EStateM BuildError Builder

namespace Builder

def empty : Builder := ⟨[], OrderedMap.empty, []⟩

instance : Inhabited Builder := ⟨empty⟩

def ofTopology (topology : Topology) : Builder where
  nodes := topology.nodes
  index := OrderedMap.ofList (topology.nodes.mapIdx (fun position node => (node.name, position)))
  stores := topology.stores

def build (builder : Builder) : Topology := ⟨builder.nodes, builder.stores⟩

def position? (builder : Builder) (name : String) : Option Nat :=
  OrderedMap.get? builder.index name

def processorPosition? (builder : Builder) (name : String) : Option Nat :=
  (builder.position? name).filter (fun position =>
    builder.nodes[position]?.any Node.isProcessor)

def edit (builder : Builder) (change : Node → Node) (position : Nat) : Builder :=
  { builder with nodes := builder.nodes.modify position change }

def append (builder : Builder) (node : Node) : Builder :=
  { builder with
    nodes := builder.nodes ++ [node]
    index := OrderedMap.insert builder.index node.name builder.nodes.length }

/-- The positions of names, up to the first name that has none. -/
def locate (position? : Builder → String → Option Nat) (missing : String → BuildError)
    (names : List String) : Building (List Nat) :=
  names.mapM (fun name => do
    match position? (← get) name with
    | some position => pure position
    | none => throw (missing name))

def editAll (change : Node → Node) (positions : List Nat) : Building Unit :=
  positions.forM (fun position => modify (fun builder => builder.edit change position))

def addNode (name : String) (kind : NodeKind) (parents : List String) : Building Unit := do
  if ((← get).position? name).isSome then throw (.duplicateNode name)
  else
    let positions ← locate position? (.unknownParent name) parents
    editAll (Node.addChild name) positions
    modify (fun builder => builder.append ⟨name, kind, parents, [], []⟩)

def addStore (spec : StoreSpec) (processors : List String) : Building Unit := do
  if (← get).stores.any (fun store => store.name = spec.name) then
    throw (.duplicateStore spec.name)
  else
    let positions ← locate processorPosition? (.unknownProcessor spec.name) processors
    editAll (Node.addStore spec.name) positions
    modify (fun builder => { builder with stores := builder.stores ++ [spec] })

def perform : Step → Building Unit
  | .source name topic => addNode name (.source topic) []
  | .processor name processor parents => addNode name (.processor processor) parents
  | .sink name topic parents => addNode name (.sink topic) parents
  | .store spec processors => addStore spec processors

def performAll (builder : Builder) : List Step → List (Option BuildError) × Builder
  | [] => ([], builder)
  | step :: rest =>
    match (perform step).run builder with
    | .ok _ after =>
      let (outcomes, last) := after.performAll rest
      (none :: outcomes, last)
    | .error error after =>
      let (outcomes, last) := after.performAll rest
      (some error :: outcomes, last)

end Builder

def performAll (topology : Topology) (steps : List Step) : List (Option BuildError) × Topology :=
  let (outcomes, builder) := (Builder.ofTopology topology).performAll steps
  (outcomes, builder.build)

def ofSteps (steps : List Step) : Topology := (empty.performAll steps).2

end Topology

end ContinuousQuery
