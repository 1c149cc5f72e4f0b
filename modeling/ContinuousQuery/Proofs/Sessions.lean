import ContinuousQuery.Proofs.Delivery

/-!
Sessions with a topology. A client pushes statements and reads results in any order, and an
error does not end the session. For the topology of a plan no session meets an error, and
what is read and what remains to be read are together what the network of the plan yields.
-/

namespace ContinuousQuery

namespace Topology

inductive Action where
  | pipe (statement : Statement)
  | read
deriving DecidableEq, Repr

inductive Answer where
  | piped (outcome : Except DriverError Unit)
  | results (read : List Solution)

namespace Answer

def Succeeded : Answer → Prop
  | .piped (.error _) => False
  | _ => True

def read : Answer → List Solution
  | .piped _ => []
  | .results read => read

end Answer

def Action.statement? : Action → Option Statement
  | .pipe statement => some statement
  | .read => none

def act (topology : Topology) (action : Action) (state : RunState) : Answer × RunState :=
  match action with
  | .pipe statement =>
    let (outcome, after) := topology.pipe statement state
    (.piped outcome, after)
  | .read =>
    let (results, after) := state.read
    (.results results, after)

def converse (topology : Topology) : List Action → RunState → List Answer × RunState
  | [], state => ([], state)
  | action :: rest, state =>
    let (answer, after) := topology.act action state
    let (later, last) := topology.converse rest after
    (answer :: later, last)

def Action.statements (actions : List Action) : List Statement :=
  actions.filterMap Action.statement?

/-- What a session reads, and then what it leaves unread. -/
def sessionResults (topology : Topology) (actions : List Action) : List Solution :=
  (topology.converse actions topology.start).1.flatMap Answer.read ++
    (topology.converse actions topology.start).2.results

end Topology

theorem Stores.get?_ofNames (names : List String) (name : String) :
    OrderedMap.get? (Stores.ofNames names) name =
      if name ∈ names then some OrderedMap.empty else none := by
  rw [Stores.ofNames, OrderedMap.get?_ofList, OrderedMap.latest?_map]

namespace StageTree

open ContinuousQuery.Topology

def initial (plan : StageTree) : Network := plan.network OrderedMap.empty

variable {plan : StageTree} {statementTopic resultTopic : String}

theorem declared_start : ∀ id ∈ plan.joinIds,
    OrderedMap.get? (plan.topology statementTopic resultTopic).start.stores id =
      some OrderedMap.empty := by
  intro id member
  have declared : id ∈ (plan.topology statementTopic resultTopic).stores.map (·.name) := by
    rw [topology, List.map_map]
    exact List.mem_map.mpr ⟨id, member, rfl⟩
  rw [start, Stores.get?_ofNames, if_pos declared]

theorem network_start (statementTopic resultTopic : String) :
    plan.network (plan.topology statementTopic resultTopic).start.stores = plan.initial := by
  have missing : ∀ (stores : Stores) (inner : StageTree),
      (∀ id ∈ inner.joinIds, OrderedMap.get? stores id = some OrderedMap.empty) →
        inner.network stores = inner.initial := by
    intro stores inner declared
    induction inner with
    | pattern => rfl
    | projection _ _ _ _ ih => rw [network, ih declared, initial, initial, network]
    | join _ id _ _ left right leftIh rightIh =>
      rw [network, leftIh (fun id member => declared id (by simp [joinIds, member])),
        rightIh (fun id member => declared id (by simp [joinIds, member])),
        declared id (by simp [joinIds])]
      rfl
  exact missing _ plan declared_start

def Equipped (plan : StageTree) (state : RunState) : Prop :=
  ∀ id ∈ plan.joinIds, (OrderedMap.get? state.stores id).isSome

theorem converse_topology (distinct : (sourceName :: formatterName :: sinkName :: plan.ids).Nodup)
    (actions : List Action) (state : RunState) (equipped : plan.Equipped state) :
    let session := (plan.topology statementTopic resultTopic).converse actions state
    let yielded := (plan.network state.stores).run (Action.statements actions)
    (∀ answer ∈ session.1, answer.Succeeded) ∧
      session.1.flatMap Answer.read ++ session.2.results = state.results ++ yielded.1 ∧
      plan.network session.2.stores = yielded.2 ∧ plan.Equipped session.2 := by
  induction actions generalizing state with
  | nil => simp [converse, Action.statements, Network.run, equipped]
  | cons action rest ih =>
    cases action with
    | pipe statement =>
      obtain ⟨after, piped, results, network, kept⟩ :=
        plan.pipe_topology distinct statementTopic resultTopic statement state equipped
      obtain ⟨succeeded, yielded, last⟩ := ih after kept
      simp only [converse, act, piped, List.forall_mem_cons, List.flatMap_cons]
      rw [network] at yielded last
      refine ⟨⟨trivial, succeeded⟩, ?_, last⟩
      rw [results, List.append_assoc] at yielded
      exact yielded
    | read =>
      obtain ⟨succeeded, yielded, last⟩ := ih { state with results := [] } equipped
      simp only [converse, act, RunState.read, List.forall_mem_cons, List.flatMap_cons]
      refine ⟨⟨trivial, succeeded⟩, ?_, last⟩
      rw [List.append_assoc]
      exact congrArg (state.results ++ ·) yielded

theorem equipped_start : plan.Equipped (plan.topology statementTopic resultTopic).start := by
  intro id member
  rw [declared_start id member]
  rfl

/-- A session from the start meets no error and yields what the network of the plan does. -/
theorem session_topology (distinct : (sourceName :: formatterName :: sinkName :: plan.ids).Nodup)
    (actions : List Action) :
    let topology := plan.topology statementTopic resultTopic
    (∀ answer ∈ (topology.converse actions topology.start).1, answer.Succeeded) ∧
      topology.sessionResults actions = (plan.initial.run (Action.statements actions)).1 := by
  intro topology
  obtain ⟨succeeded, yielded, -⟩ :=
    converse_topology distinct actions topology.start equipped_start
  rw [network_start] at yielded
  exact ⟨succeeded, yielded⟩

end StageTree

namespace Tree

variable {σ : Type} {tree : Tree} {source : IdSource σ} {initial : σ} {query : CompiledQuery}
  {statementTopic resultTopic : String} {topology : Topology}

theorem exists_plan (built : tree.Built) (compiled : tree.compile source initial = .ok query)
    (assembled : query.assemble statementTopic resultTopic = .ok topology) :
    ∃ algebra plan, tree.algebra? = some algebra ∧ StageTree.Plans algebra plan ∧
      topology = plan.topology statementTopic resultTopic ∧
      (Topology.sourceName :: Topology.formatterName :: Topology.sinkName :: plan.ids).Nodup := by
  obtain ⟨algebra, plan, found, plans, follows⟩ := follows_of_compile built.consistent compiled
  exact ⟨algebra, plan, found, plans, CompiledQuery.topology_of_assemble follows assembled⟩

/-- A session with a compiled and assembled tree meets no error, and its results are what the
network of a plan of the tree yields. -/
theorem converse_assembled (built : tree.Built)
    (compiled : tree.compile source initial = .ok query)
    (assembled : query.assemble statementTopic resultTopic = .ok topology)
    (actions : List Topology.Action) :
    ∃ algebra plan, tree.algebra? = some algebra ∧ StageTree.Plans algebra plan ∧
      (∀ answer ∈ (topology.converse actions topology.start).1, answer.Succeeded) ∧
      topology.sessionResults actions =
        (plan.initial.run (Topology.Action.statements actions)).1 := by
  obtain ⟨algebra, plan, found, plans, rfl, distinct⟩ := exists_plan built compiled assembled
  exact ⟨algebra, plan, found, plans, StageTree.session_topology distinct actions⟩

end Tree

end ContinuousQuery
