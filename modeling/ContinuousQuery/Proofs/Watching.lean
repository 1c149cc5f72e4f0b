import ContinuousQuery.Proofs.Safety

/-!
Runs of a topology with a record of all that its nodes forward. The record changes nothing, so
every state of a run is the state of a watched run. A contract says which records a node takes,
which it forwards, and what holds of stores and results; if every node keeps to it, so does the
whole run.
-/

namespace ContinuousQuery

namespace Topology

structure Emission where
  node : String
  record : Record
deriving DecidableEq, Repr

structure Watched where
  state : RunState
  emissions : List Emission
deriving DecidableEq, Repr

abbrev Watching := EStateM DriverError Watched

def Node.acceptWatched (node : Node) (processors : Processors)
    (send : String → Record → Watching Unit) (record : Record) : Watching Unit :=
  match node.kind, record with
  | .processor _, record =>
    match OrderedMap.get? processors node.name with
    | none => throw (.unknownNode node.name)
    | some processor => do
      let watched ← get
      match processor.process node.stores watched.state.stores record with
      | .error error => throw (.processor error)
      | .ok (forwarded, stores) =>
        set (⟨{ watched.state with stores := stores },
          watched.emissions ++ forwarded.map (fun output => ⟨node.name, output⟩)⟩ : Watched)
        forwarded.forM (fun output => node.children.forM (fun child => send child output))
  | .sink _, .solution solution =>
    modify (fun watched => { watched with
      state := { watched.state with results := watched.state.results ++ [solution] } })
  | _, record => throw (.unexpectedRecord node.name record.kindName)

def deliverWatched (processors : Processors) : List Node → String → Record → Watching Unit
  | [], name, _ => throw (.unknownNode name)
  | node :: later, name, record =>
    if node.name = name then node.acceptWatched processors (deliverWatched processors later) record
    else deliverWatched processors later name record

def sendWatched (processors : Processors) : List Node → Statement → Watching Unit
  | [], _ => pure ()
  | node :: later, statement => do
    if node.isSource then
      node.children.forM (fun child => deliverWatched processors later child (.statement statement))
    sendWatched processors later statement

def final {α : Type} : EStateM.Result DriverError Watched α → Watched
  | .ok _ watched | .error _ watched => watched

def watch (topology : Topology) (statement : Statement) (watched : Watched) : Watched :=
  final ((sendWatched topology.processors topology.nodes statement).run watched)

/-- The states of runs, each with all that has been forwarded before. -/
inductive Observed (topology : Topology) : Watched → Prop
  | start : Observed topology ⟨topology.start, []⟩
  | pipe {watched : Watched} (before : Observed topology watched) (statement : Statement) :
      Observed topology (topology.watch statement watched)
  | read {watched : Watched} (before : Observed topology watched) :
      Observed topology { watched with state := watched.state.read.2 }

namespace Watching

variable {α β : Type} {processors : Processors}

theorem shows_accept (node : Node) {watching : String → Record → Watching Unit}
    {send : String → Record → Delivery Unit}
    (sends : ∀ name record, Shows Watched.state (watching name record) (send name record))
    (record : Record) :
    Shows Watched.state (node.acceptWatched processors watching record)
      (node.accept processors send record) := by
  intro watched
  unfold Node.acceptWatched Node.accept
  cases node.kind with
  | source topic => rfl
  | sink topic => cases record <;> rfl
  | processor own =>
    cases OrderedMap.get? processors node.name with
    | none => rfl
    | some processor =>
      simp only [run_get_bind]
      cases processor.process node.stores watched.state.stores record with
      | error error => rfl
      | ok outcome =>
        exact shows_forM (fun output _ => shows_forM fun child _ => sends child output) _

theorem shows_deliver (nodes : List Node) (name : String) (record : Record) :
    Shows Watched.state (deliverWatched processors nodes name record)
      (deliver processors nodes name record) := by
  induction nodes generalizing name record with
  | nil => exact shows_throw _
  | cons node later ih =>
    rw [deliverWatched, deliver]
    split
    next => exact shows_accept node ih record
    next => exact ih name record

theorem shows_sendStatement (nodes : List Node) (statement : Statement) :
    Shows Watched.state (sendWatched processors nodes statement)
      (sendStatement processors nodes statement) := by
  induction nodes with
  | nil => exact shows_pure _
  | cons node later ih =>
    rw [sendWatched, sendStatement]
    cases node.isSource with
    | true => exact (shows_forM fun child _ => shows_deliver later child _).bind fun _ => ih
    | false => exact ih

def Keeps {α : Type} (invariant : Watched → Prop) (watching : Watching α) : Prop :=
  ∀ watched, invariant watched → invariant (final (watching.run watched))

variable {invariant : Watched → Prop}

theorem keeps_pure (value : α) : Keeps invariant (pure value) := fun _ holds => holds

theorem keeps_throw (error : DriverError) : Keeps invariant (throw error : Watching α) :=
  fun _ holds => holds

theorem Keeps.bind {watching : Watching α} (first : Keeps invariant watching)
    {later : α → Watching β} (second : ∀ value, Keeps invariant (later value)) :
    Keeps invariant (watching >>= later) := by
  intro watched holds
  have here := first watched holds
  rw [EStateM.run_bind]
  cases done : watching.run watched with
  | ok value after =>
    rw [done] at here
    exact second value after here
  | error error after =>
    rw [done] at here
    exact here

theorem keeps_forM {values : List β} {watching : β → Watching Unit}
    (keeps : ∀ value ∈ values, Keeps invariant (watching value)) :
    Keeps invariant (values.forM watching) := by
  induction values with
  | nil => exact keeps_pure _
  | cons value rest ih =>
    obtain ⟨here, later⟩ := List.forall_mem_cons.mp keeps
    exact here.bind fun _ => ih later

end Watching

open Watching

variable {topology : Topology}

theorem state_watch (statement : Statement) (watched : Watched) :
    (topology.watch statement watched).state = (topology.pipe statement watched.state).2 := by
  rw [watch, pipe, ← shows_sendStatement]
  cases (sendWatched topology.processors topology.nodes statement).run watched <;> rfl

theorem Observed.reachable {watched : Watched} (observed : topology.Observed watched) :
    topology.Reachable watched.state := by
  induction observed with
  | start => exact .start
  | pipe _ statement ih =>
    rw [state_watch]
    exact ih.pipe statement
  | read _ ih => exact ih.read

theorem reachable_iff_observed {state : RunState} :
    topology.Reachable state ↔ ∃ emissions, topology.Observed ⟨state, emissions⟩ := by
  refine ⟨fun reachable => ?_, fun ⟨_, observed⟩ => observed.reachable⟩
  induction reachable with
  | start => exact ⟨[], .start⟩
  | pipe _ statement ih =>
    obtain ⟨emissions, observed⟩ := ih
    have next := observed.pipe statement
    rw [← state_watch statement ⟨_, emissions⟩]
    exact ⟨_, next⟩
  | read _ ih =>
    obtain ⟨emissions, observed⟩ := ih
    exact ⟨emissions, observed.read⟩

/-- What the nodes of a topology rely on and what they guarantee. -/
structure Contract where
  /-- The records that a node is sent. -/
  takes : String → Record → Prop
  /-- The records that a node forwards. -/
  forwards : String → Record → Prop
  stores : Stores → Prop
  results : Solution → Prop

namespace Contract

variable {contract : Contract} {processors : Processors}

structure Holds (contract : Contract) (watched : Watched) : Prop where
  stores : contract.stores watched.state.stores
  results : ∀ solution ∈ watched.state.results, contract.results solution
  emissions : ∀ emission ∈ watched.emissions, contract.forwards emission.node emission.record

/-- The node keeps to the contract as long as it is sent what the contract says. -/
def Binds (contract : Contract) (node : Node) : Prop :=
  match node.kind with
  | .source _ => ∀ statement, ∀ child ∈ node.children, contract.takes child (.statement statement)
  | .processor processor => ∀ stores record forwarded after, contract.stores stores →
      contract.takes node.name record →
      processor.process node.stores stores record = .ok (forwarded, after) →
        contract.stores after ∧ ∀ output ∈ forwarded, contract.forwards node.name output ∧
          ∀ child ∈ node.children, contract.takes child output
  | .sink _ => ∀ solution, contract.takes node.name (.solution solution) → contract.results solution

theorem Binds.keeps_accept {node : Node} (binds : contract.Binds node)
    (provided : ∀ own, node.kind = .processor own →
      OrderedMap.get? processors node.name = some own)
    {send : String → Record → Watching Unit}
    (sends : ∀ child record, contract.takes child record → Keeps contract.Holds (send child record))
    {record : Record} (taken : contract.takes node.name record) :
    Keeps contract.Holds (node.acceptWatched processors send record) := by
  intro watched holds
  unfold Binds at binds
  unfold Node.acceptWatched
  cases kind : node.kind with
  | source topic => exact holds
  | sink topic =>
    rw [kind] at binds
    cases record with
    | solution solution =>
      refine ⟨holds.stores, List.forall_mem_append.mpr ⟨holds.results, ?_⟩, holds.emissions⟩
      exact List.forall_mem_singleton.mpr (binds solution taken)
    | _ => exact holds
  | processor processor =>
    rw [kind] at binds
    simp only [provided processor kind, run_get_bind]
    cases processed : processor.process node.stores watched.state.stores record with
    | error error => exact holds
    | ok outcome =>
      obtain ⟨stores, outputs⟩ := binds _ _ _ _ holds.stores taken processed
      -- The new stores and the record are in place before the first child is sent anything.
      refine keeps_forM (fun output member => keeps_forM fun child listed =>
        sends child output ((outputs output member).2 child listed)) _ ⟨stores, holds.results, ?_⟩
      refine List.forall_mem_append.mpr ⟨holds.emissions, List.forall_mem_map.mpr ?_⟩
      exact fun output member => (outputs output member).1

theorem keeps_deliver {nodes : List Node} (binds : ∀ node ∈ nodes, contract.Binds node)
    (provides : Provides processors nodes) {name : String} {record : Record}
    (taken : contract.takes name record) :
    Keeps contract.Holds (deliverWatched processors nodes name record) := by
  induction nodes generalizing name record with
  | nil => exact keeps_throw _
  | cons node later ih =>
    obtain ⟨here, below⟩ := List.forall_mem_cons.mp binds
    obtain ⟨own, others⟩ := provides_cons.mp provides
    rw [deliverWatched]
    split
    next same =>
      subst same
      exact here.keeps_accept own (fun _ _ => ih below others) taken
    next => exact ih below others taken

theorem keeps_sendStatement {nodes : List Node} (binds : ∀ node ∈ nodes, contract.Binds node)
    (provides : Provides processors nodes) (statement : Statement) :
    Keeps contract.Holds (sendWatched processors nodes statement) := by
  induction nodes with
  | nil => exact keeps_pure _
  | cons node later ih =>
    obtain ⟨here, below⟩ := List.forall_mem_cons.mp binds
    obtain ⟨-, others⟩ := provides_cons.mp provides
    rw [sendWatched]
    unfold Binds at here
    cases kind : node.kind with
    | source topic =>
      have isSource : node.isSource = true := by rw [Node.isSource, kind]
      rw [kind] at here
      rw [if_pos isSource]
      refine Keeps.bind ?_ fun _ => ih below others
      exact keeps_forM fun child listed => keeps_deliver below others (here statement child listed)
    | _ =>
      have other : node.isSource = false := by rw [Node.isSource, kind]
      rw [other]
      exact ih below others

/-- A run keeps to a contract if all nodes do. -/
theorem holds_of_observed (binds : ∀ node ∈ topology.nodes, contract.Binds node)
    (distinct : (nodeNames topology.nodes).Nodup)
    (atStart : contract.stores topology.start.stores) {watched : Watched}
    (observed : topology.Observed watched) : contract.Holds watched := by
  induction observed with
  | start => exact ⟨atStart, List.forall_mem_nil _, List.forall_mem_nil _⟩
  | pipe _ statement ih =>
    exact keeps_sendStatement binds (provides_processors distinct) statement _ ih
  | read _ ih => exact ⟨ih.stores, List.forall_mem_nil _, ih.emissions⟩

end Contract

end Topology

end ContinuousQuery
