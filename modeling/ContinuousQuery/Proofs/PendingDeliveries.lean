import ContinuousQuery.Proofs.Handling
import ContinuousQuery.Proofs.OrderedTopologies

/-!
Deliveries one at a time. A driver that looks its nodes up by name anywhere in the topology, and
that keeps a list of the deliveries it still has to make, has no order of nodes to go by. Every
delivery goes behind the nodes that make it all the same. So the list runs out, no delivery goes
astray, and what remains is what the topology says.
-/

namespace ContinuousQuery

namespace Topology

def Node.work (node : Node) (processors : Processors) (record : Record) : Delivery (List Record) :=
  match node.kind, record with
  | .processor _, record =>
    match OrderedMap.get? processors node.name with
    | none => throw (.unknownNode node.name)
    | some processor => fun state =>
      match (processor.handle node.stores record).run ⟨state.stores, []⟩ with
      | .ok _ around => .ok around.forwarded { state with stores := around.stores }
      | .error error around => .error (.processor error) { state with stores := around.stores }
  | .sink _, .solution solution => do
    modify (fun state => { state with results := state.results ++ [solution] })
    return []
  | _, record => throw (.unexpectedRecord node.name record.kindName)

variable {processors : Processors}

theorem Node.run_work (node : Node) (record : Record) (state : RunState) :
    (node.work processors record).run state =
      match node.kind, record with
      | .processor _, record =>
        match OrderedMap.get? processors node.name with
        | none => .error (.unknownNode node.name) state
        | some processor =>
          match processor.process node.stores state.stores record with
          | .ok (forwarded, stores) => .ok forwarded { state with stores := stores }
          | .error error => .error (.processor error) state
      | .sink _, .solution solution =>
        .ok [] { state with results := state.results ++ [solution] }
      | _, record => .error (.unexpectedRecord node.name record.kindName) state := by
  unfold work
  cases node.kind with
  | source topic => rfl
  | sink topic => cases record <;> rfl
  | processor own =>
    cases OrderedMap.get? processors node.name with
    | none => rfl
    | some processor =>
      have handled := processor.run_handle node.stores record ⟨state.stores, []⟩
      simp only [EStateM.run] at handled ⊢
      rw [handled]
      cases processor.process node.stores state.stores record <;> rfl

theorem Node.run_accept (node : Node) (send : String → Record → Delivery Unit)
    (record : Record) (state : RunState) : (node.accept processors send record).run state =
      match (node.work processors record).run state with
      | .ok forwarded after => (forwarded.forM (fun output =>
          node.children.forM (fun child => send child output))).run after
      | .error error after => .error error after := by
  rw [run_work]
  unfold accept
  cases node.kind with
  | source topic => rfl
  | sink topic => cases record <;> rfl
  | processor own =>
    cases OrderedMap.get? processors node.name with
    | none => rfl
    | some processor =>
      simp only [run_get_bind]
      cases processor.process node.stores state.stores record <;> rfl

section Failed

variable {node : Node} {record : Record} {state after : RunState} {error : DriverError}
  (failed : (node.work processors record).run state = .error error after)
include failed

theorem Node.eq_of_work_eq_error : after = state := by
  rw [run_work] at failed
  split at failed
  next =>
    split at failed
    next =>
      cases failed
      rfl
    next =>
      split at failed
      next => cases failed
      next =>
        cases failed
        rfl
  next => cases failed
  next =>
    cases failed
    rfl

theorem Node.known_of_work_eq_error (provided : ∀ own, node.kind = .processor own →
    OrderedMap.get? processors node.name = some own) (name : String) :
    error ≠ .unknownNode name := by
  rw [run_work] at failed
  split at failed
  next own kind =>
    rw [provided own kind] at failed
    dsimp only at failed
    split at failed
    next => cases failed
    next =>
      cases failed
      exact DriverError.noConfusion
  next => cases failed
  next =>
    cases failed
    exact DriverError.noConfusion

end Failed

structure Pending where
  /-- The positions of the nodes that make it, each of which has been called by the next one. -/
  callers : List Nat
  name : String
  record : Record
deriving DecidableEq, Repr

/-- How far a driver has come: the deliveries it has to make, unless it has failed. -/
structure Progress where
  pending : Except DriverError (List Pending)
  state : RunState

namespace Progress

def ofOutcome (outcome : Except DriverError Unit × RunState) : Progress :=
  ⟨outcome.1.map (fun _ => []), outcome.2⟩

def after (result : EStateM.Result DriverError RunState Unit) (rest : List Pending) : Progress :=
  match result with
  | .ok _ state => ⟨.ok rest, state⟩
  | .error error state => ⟨.error error, state⟩

end Progress

namespace Builder

/-- The deliveries of records to children, all of one record before those of the next one. -/
def calls (callers : List Nat) (children : List String) (records : List Record) : List Pending :=
  records.flatMap (fun record => children.map (fun child => ⟨callers, child, record⟩))

def begin (builder : Builder) (statement : Statement) (state : RunState) : Progress :=
  ⟨.ok (builder.build.sources.flatMap (fun source =>
    calls [] source.children [.statement statement])), state⟩

/-- Makes the first delivery. Those to the children of the node come before all others. -/
def next (builder : Builder) (progress : Progress) : Progress :=
  match progress.pending with
  | .ok (delivery :: rest) =>
    match builder.position? delivery.name with
    | none => { progress with pending := .error (.unknownNode delivery.name) }
    | some position =>
      match builder.nodes[position]? with
      | none => { progress with pending := .error (.unknownNode delivery.name) }
      | some node =>
        match (node.work builder.build.processors delivery.record).run progress.state with
        | .ok forwarded state =>
          ⟨.ok (calls (position :: delivery.callers) node.children forwarded ++ rest), state⟩
        | .error error state => ⟨.error error, state⟩
  | _ => progress

def Leads (builder : Builder) (first last : Progress) : Prop :=
  ∃ count, builder.next^[count] first = last

variable {builder : Builder}

namespace Leads

variable {first second third : Progress}

theorem refl (builder : Builder) (progress : Progress) : builder.Leads progress progress :=
  ⟨0, rfl⟩

theorem trans (left : builder.Leads first second) (right : builder.Leads second third) :
    builder.Leads first third := by
  obtain ⟨before, rfl⟩ := left
  obtain ⟨behind, rfl⟩ := right
  exact ⟨behind + before, Function.iterate_add_apply _ _ _ _⟩

theorem head (later : builder.Leads (builder.next first) second) : builder.Leads first second :=
  trans ⟨1, rfl⟩ later

end Leads

/-- Deliveries that come first end as the work says, whatever has to be delivered after them. -/
def Performs (builder : Builder) (deliveries : List Pending) (work : Delivery Unit) : Prop :=
  ∀ rest state, builder.Leads ⟨.ok (deliveries ++ rest), state⟩ (.after (work.run state) rest)

theorem performs_nil : builder.Performs [] (pure ()) := fun _ _ => .refl builder _

theorem Performs.bind {first second : List Pending} {work later : Delivery Unit}
    (performs : builder.Performs first work) (next : builder.Performs second later) :
    builder.Performs (first ++ second) (work >>= fun _ => later) := by
  intro rest state
  have begun := performs (second ++ rest) state
  rw [List.append_assoc]
  rw [EStateM.run_bind]
  cases done : work.run state with
  | ok _ middle =>
    rw [done] at begun
    exact begun.trans (next rest middle)
  | error error middle =>
    rw [done] at begun
    exact begun

theorem performs_forM {α : Type} {items : List α} {deliveries : α → List Pending}
    {work : α → Delivery Unit}
    (performs : ∀ item ∈ items, builder.Performs (deliveries item) (work item)) :
    builder.Performs (items.flatMap deliveries) (items.forM work) := by
  induction items with
  | nil => exact performs_nil
  | cons item rest ih =>
    obtain ⟨here, later⟩ := List.forall_mem_cons.mp performs
    exact here.bind (ih later)

theorem performs_calls {callers : List Nat} {children : List String} {records : List Record}
    {send : String → Record → Delivery Unit} (performs : ∀ child ∈ children, ∀ record,
      builder.Performs [⟨callers, child, record⟩] (send child record)) :
    builder.Performs (calls callers children records)
      (records.forM (fun record => children.forM (fun child => send child record))) := by
  refine performs_forM fun record _ => ?_
  rw [List.map_eq_flatMap]
  exact performs_forM fun child member => performs child member record

end Builder

theorem WellFormed.children_subset {topology : Topology} (wellFormed : topology.WellFormed)
    {earlier later : List Node} {node : Node} (split : topology.nodes = earlier ++ node :: later) :
    ∀ child ∈ node.children, child ∈ nodeNames later := by
  intro child listed
  have found : topology.nodes[earlier.length]? = some node := by simp [split]
  obtain ⟨position, behind, named⟩ := wellFormed.exists_later found listed
  obtain ⟨distance, rfl⟩ := Nat.exists_eq_add_of_lt behind
  have length : (nodeNames earlier).length = earlier.length := List.length_map _
  rw [split, nodeNames_append, nodeNames_cons, List.getElem?_append_right (by omega), length,
    show earlier.length + distance + 1 - earlier.length = distance + 1 by omega,
    List.getElem?_cons_succ] at named
  exact List.mem_of_getElem? named

namespace Builder

theorem next_of_position? {builder : Builder} {delivery : Pending} {position : Nat} {node : Node}
    (located : builder.position? delivery.name = some position)
    (found : builder.nodes[position]? = some node) (rest : List Pending) (state : RunState) :
    builder.next ⟨.ok (delivery :: rest), state⟩ =
      match (node.work builder.build.processors delivery.record).run state with
      | .ok forwarded after =>
        ⟨.ok (calls (position :: delivery.callers) node.children forwarded ++ rest), after⟩
      | .error error after => ⟨.error error, after⟩ := by
  simp only [next, located, found]

section Built

variable {builder : Builder} (indexed : builder.Indexed) (wellFormed : builder.build.WellFormed)
include indexed wellFormed

/-- A look-up in the whole builder finds what a look-up behind the sender finds. -/
theorem performs_deliver {earlier later : List Node} (split : builder.nodes = earlier ++ later)
    {name : String} (known : name ∈ nodeNames later) (callers : List Nat) (record : Record) :
    builder.Performs [⟨callers, name, record⟩]
      (deliver builder.build.processors later name record) := by
  induction later generalizing earlier name callers record with
  | nil => cases known
  | cons node later ih =>
    have behind : builder.nodes = (earlier ++ [node]) ++ later := by
      rw [split, List.append_assoc, List.singleton_append]
    rw [deliver]
    split
    next same =>
      intro rest state
      subst same
      have found : builder.nodes[earlier.length]? = some node := by simp [split]
      have located : builder.position? node.name = some earlier.length :=
        indexed.position?_eq_some_iff.mpr ⟨node, found, rfl⟩
      refine Leads.head ?_
      rw [List.singleton_append, next_of_position? located found, node.run_accept]
      cases (node.work builder.build.processors record).run state with
      | error error after => exact .refl builder _
      | ok forwarded after =>
        refine performs_calls (fun child listed output => ih behind ?_ _ output) rest after
        exact wellFormed.children_subset split child listed
    next other =>
      refine ih behind ?_ callers record
      rw [nodeNames_cons, List.mem_cons] at known
      exact known.resolve_left (Ne.symm other)

theorem performs_sendStatement {earlier later : List Node}
    (split : builder.nodes = earlier ++ later) (statement : Statement) :
    builder.Performs
      ((later.filter Node.isSource).flatMap (fun source =>
        calls [] source.children [.statement statement]))
      (sendStatement builder.build.processors later statement) := by
  induction later generalizing earlier with
  | nil => exact performs_nil
  | cons node later ih =>
    have behind : builder.nodes = (earlier ++ [node]) ++ later := by
      rw [split, List.append_assoc, List.singleton_append]
    rw [sendStatement]
    by_cases source : node.isSource
    · rw [List.filter_cons_of_pos source, List.flatMap_cons, if_pos source]
      refine Performs.bind ?_ (ih behind)
      rw [calls, List.flatMap_singleton, List.map_eq_flatMap]
      exact performs_forM fun child listed =>
        performs_deliver indexed wellFormed behind
          (wellFormed.children_subset split child listed) [] _
    · rw [List.filter_cons_of_neg source, if_neg source]
      exact ih behind

theorem leads_pipe (statement : Statement) (state : RunState) :
    builder.Leads (builder.begin statement state)
      (.ofOutcome (builder.build.pipe statement state)) := by
  have sent := performs_sendStatement indexed wellFormed (List.nil_append _).symm statement [] state
  rw [List.append_nil] at sent
  rw [pipe, show builder.build.nodes = builder.nodes from rfl]
  cases done : (sendStatement builder.build.processors builder.nodes statement).run state with
  | ok _ after =>
    rw [done] at sent
    exact sent
  | error error after =>
    rw [done] at sent
    exact sent

end Built

/-- The delivery goes to a node, which comes after all nodes that have led to it, each of which
comes after the node that has called it. -/
def Descends (builder : Builder) (delivery : Pending) : Prop :=
  ∃ position, builder.position? delivery.name = some position ∧
    (position :: delivery.callers).Pairwise (· > ·)

/-- All deliveries that have to be made descend, and none has gone astray. -/
def Sound (builder : Builder) (progress : Progress) : Prop :=
  match progress.pending with
  | .ok pending => ∀ delivery ∈ pending, builder.Descends delivery
  | .error error => ∀ name, error ≠ .unknownNode name

theorem length_le_of_pairwise {position : Nat} {callers : List Nat}
    (descends : (position :: callers).Pairwise (· > ·)) : callers.length ≤ position := by
  induction callers generalizing position with
  | nil => exact Nat.zero_le _
  | cons caller rest ih =>
    obtain ⟨less, others⟩ := List.pairwise_cons.mp descends
    have below := ih others
    have here : caller < position := less caller List.mem_cons_self
    rw [List.length_cons]
    omega

section Sound

variable {builder : Builder} (indexed : builder.Indexed) (wellFormed : builder.build.WellFormed)
include indexed

theorem Descends.length_lt {delivery : Pending} (descends : builder.Descends delivery) :
    delivery.callers.length < builder.nodes.length := by
  obtain ⟨position, located, sorted⟩ := descends
  obtain ⟨node, found, -⟩ := indexed.position?_eq_some_iff.mp located
  exact Nat.lt_of_le_of_lt (length_le_of_pairwise sorted) (List.getElem?_eq_some_iff.mp found).1

include wellFormed

theorem descends_of_mem_calls {position : Nat} {node : Node} {callers : List Nat}
    (found : builder.nodes[position]? = some node)
    (sorted : (position :: callers).Pairwise (· > ·)) {records : List Record} :
    ∀ call ∈ calls (position :: callers) node.children records, builder.Descends call := by
  intro call member
  obtain ⟨record, -, sent⟩ := List.mem_flatMap.mp member
  obtain ⟨child, listed, rfl⟩ := List.mem_map.mp sent
  obtain ⟨later, behind, named⟩ := wellFormed.exists_later found listed
  refine ⟨later, (indexed.index child later).mpr named, List.pairwise_cons.mpr ⟨?_, sorted⟩⟩
  intro caller earlier
  rcases List.mem_cons.mp earlier with rfl | before
  · exact behind
  · exact Nat.lt_trans ((List.pairwise_cons.mp sorted).1 caller before) behind

theorem sound_begin (statement : Statement) (state : RunState) :
    builder.Sound (builder.begin statement state) := by
  intro delivery member
  obtain ⟨source, inside, called⟩ := List.mem_flatMap.mp member
  obtain ⟨record, -, sent⟩ := List.mem_flatMap.mp called
  obtain ⟨child, listed, rfl⟩ := List.mem_map.mp sent
  obtain ⟨position, found⟩ := List.mem_iff_getElem?.mp (List.mem_filter.mp inside).1
  obtain ⟨later, -, named⟩ := wellFormed.exists_later found listed
  exact ⟨later, (indexed.index child later).mpr named, List.pairwise_singleton _ _⟩

theorem Sound.next {progress : Progress} (sound : builder.Sound progress) :
    builder.Sound (builder.next progress) := by
  obtain ⟨pending, state⟩ := progress
  cases pending with
  | error error => exact sound
  | ok deliveries =>
    cases deliveries with
    | nil => exact sound
    | cons delivery rest =>
      obtain ⟨⟨position, located, sorted⟩, others⟩ := List.forall_mem_cons.mp sound
      obtain ⟨node, found, -⟩ := indexed.position?_eq_some_iff.mp located
      rw [next_of_position? located found]
      cases worked : (node.work builder.build.processors delivery.record).run state with
      | error error after =>
        exact Node.known_of_work_eq_error worked
          (provides_processors indexed.distinct node (List.mem_of_getElem? found))
      | ok forwarded after =>
        refine List.forall_mem_append.mpr ⟨?_, others⟩
        exact descends_of_mem_calls indexed wellFormed found sorted

theorem Sound.leads {first last : Progress} (sound : builder.Sound first)
    (leads : builder.Leads first last) : builder.Sound last := by
  obtain ⟨count, rfl⟩ := leads
  induction count with
  | zero => exact sound
  | succ count ih =>
    rw [Function.iterate_succ_apply']
    exact ih.next indexed wellFormed

end Sound

def ofSteps (steps : List Step) : Builder := ((ofTopology Topology.empty).performAll steps).2

theorem indexed_ofSteps (steps : List Step) :
    (ofSteps steps).Indexed ∧ (ofSteps steps).build.WellFormed :=
  indexed_empty.performAll (fun _ _ _ holds taken => WellFormed.perform holds taken)
    wellFormed_empty steps

end Builder

/-- A driver that looks for its nodes by name comes to an end with every statement, and the end is
what the topology says. On the way, each delivery goes to a node after the nodes that have led to
it, so there are never as many of them as nodes, and no delivery goes to a node that is unknown. -/
theorem leads_to_pipe (steps : List Step) (statement : Statement) (state : RunState) :
    let builder := Builder.ofSteps steps
    let topology := ofSteps steps
    builder.Leads (builder.begin statement state) (.ofOutcome (topology.pipe statement state)) ∧
      (∀ progress, builder.Leads (builder.begin statement state) progress →
        ∀ pending, progress.pending = .ok pending → ∀ delivery ∈ pending,
          builder.Descends delivery ∧ delivery.callers.length < topology.nodes.length) ∧
      ∀ name, (topology.pipe statement state).1 ≠ .error (.unknownNode name) := by
  intro builder topology
  obtain ⟨indexed, wellFormed⟩ := Builder.indexed_ofSteps steps
  have leads : builder.Leads (builder.begin statement state)
      (.ofOutcome (topology.pipe statement state)) :=
    Builder.leads_pipe indexed wellFormed statement state
  have sound : ∀ progress, builder.Leads (builder.begin statement state) progress →
      builder.Sound progress := fun progress reached =>
    (Builder.sound_begin indexed wellFormed statement state).leads indexed wellFormed reached
  refine ⟨leads, ?_, ?_⟩
  · intro progress reached pending waiting delivery member
    have descends := sound progress reached
    rw [Builder.Sound, waiting] at descends
    exact ⟨descends delivery member, (descends delivery member).length_lt indexed⟩
  · intro name failed
    have known := sound _ leads
    rw [Builder.Sound, Progress.ofOutcome, failed] at known
    exact known name rfl

/-- A join that is fed twice from the left and sends twice, a sink above another one, and a
formatter that cannot handle what it gets. The step without a parent is refused. -/
def fanningSteps : List Step :=
  let pairs (side : Side) : ProcessorKind :=
    .stage (.pattern ⟨.variable "a", .iri "p", .variable "b"⟩) (some side) "pairs"
  [.source "in" ⟨"statements", .string, .statement⟩,
    .processor "left" ⟨"left", pairs .left⟩ ["in", "in"],
    .processor "right" ⟨"right", pairs .right⟩ ["in"],
    .processor "join" ⟨"join", .stage (.join .natural ⟨["a", "b"], ["a", "b"]⟩) none "join"⟩
      ["right", "left"],
    .store (.joinState "join") ["join"],
    .processor "lost" ⟨"lost", .formatter⟩ ["nowhere"],
    .processor "formatter" ⟨"formatter", .formatter⟩ ["join", "join"],
    .sink "out" ⟨"results", .string, .solution⟩ ["formatter"],
    .sink "below" ⟨"results", .string, .solution⟩ ["out"],
    .processor "strict" ⟨"strict", .formatter⟩ ["in"]]

def pairOfSelf : Statement := ⟨⟨.iri "x", "p", .iri "x"⟩, "v"⟩

theorem leads_to_pipe_fanningSteps :
    ∃ after : RunState, after.results.length = 2 ∧
      (Builder.ofSteps fanningSteps).Leads
        ((Builder.ofSteps fanningSteps).begin pairOfSelf (ofSteps fanningSteps).start)
        ⟨.error (.processor (.unexpectedRecord "strict" "statement")), after⟩ := by
  obtain ⟨leads, -, -⟩ := leads_to_pipe fanningSteps pairOfSelf (ofSteps fanningSteps).start
  have failed : ((ofSteps fanningSteps).pipe pairOfSelf (ofSteps fanningSteps).start).1.map
      (fun _ => ([] : List Pending)) =
        .error (.processor (.unexpectedRecord "strict" "statement")) := by
    decide +kernel
  rw [Progress.ofOutcome, failed] at leads
  exact ⟨_, by decide +kernel, leads⟩

end Topology

end ContinuousQuery
