import ContinuousQuery.Proofs.PendingDeliveries
import ContinuousQuery.Proofs.Sessions

/-!
What a driver never takes back. Any nodes may be wired in any way: joins may share a store or lack
one, and records may come to nodes that cannot handle them, so that a delivery ends halfway. All
the same, a store only ever gains entries, and only from the joins that keep their state in it,
and results wait in their order until they are read.
-/

namespace ContinuousQuery

theorem JoinKeys.get?_of_insert? {keys : JoinKeys} {store grown : Store} {side : Side}
    {solution held : Solution} (inserted : keys.insert? store side solution = some grown)
    {key : String} (found : OrderedMap.get? store key = some held) :
    OrderedMap.get? grown key = some held := by
  rw [insert?] at inserted
  split at inserted
  next => cases inserted
  next absent =>
    cases inserted
    rw [Store.put, OrderedMap.get?_insert_of_ne _ _ ?_, found]
    rintro rfl
    rw [OrderedMap.contains, found] at absent
    exact absent rfl

/-- There are the same stores with all entries that they had. Only stores of the given names have
changed. -/
structure Stores.Retains (filled : String → Prop) (before after : Stores) : Prop where
  entries : ∀ name store, OrderedMap.get? before name = some store →
    ∃ grown, OrderedMap.get? after name = some grown ∧
      ∀ key solution, OrderedMap.get? store key = some solution →
        OrderedMap.get? grown key = some solution
  names : ∀ name, (OrderedMap.get? after name).isSome = (OrderedMap.get? before name).isSome
  others : ∀ name, ¬filled name → OrderedMap.get? after name = OrderedMap.get? before name

namespace Stores.Retains

variable {filled : String → Prop} {first second third : Stores}

theorem refl (filled : String → Prop) (stores : Stores) : Retains filled stores stores :=
  ⟨fun _ store found => ⟨store, found, fun _ _ held => held⟩, fun _ => rfl, fun _ _ => rfl⟩

theorem trans (left : Retains filled first second) (right : Retains filled second third) :
    Retains filled first third where
  entries := by
    intro name store found
    obtain ⟨middle, there, kept⟩ := left.entries name store found
    obtain ⟨last, here, keptLater⟩ := right.entries name middle there
    exact ⟨last, here, fun key solution held => keptLater key solution (kept key solution held)⟩
  names := fun name => (right.names name).trans (left.names name)
  others := fun name other => (right.others name other).trans (left.others name other)

theorem mono {more : String → Prop} (retains : Retains filled first second)
    (implies : ∀ name, filled name → more name) : Retains more first second :=
  ⟨retains.entries, retains.names,
    fun name other => retains.others name (mt (implies name) other)⟩

theorem insert {stores : Stores} {name : String} {store grown : Store} (allowed : filled name)
    (found : OrderedMap.get? stores name = some store)
    (kept : ∀ key solution, OrderedMap.get? store key = some solution →
      OrderedMap.get? grown key = some solution) :
    Retains filled stores (OrderedMap.insert stores name grown) where
  entries := by
    intro other held there
    by_cases same : other = name
    · subst same
      cases found.symm.trans there
      exact ⟨grown, OrderedMap.get?_insert_self _ _ _, kept⟩
    · refine ⟨held, ?_, fun _ _ here => here⟩
      rw [OrderedMap.get?_insert_of_ne _ _ same, there]
  names := by
    intro other
    rw [OrderedMap.get?_insert]
    split
    next same => rw [same, found]; rfl
    next => rfl
  others := fun other outside =>
    OrderedMap.get?_insert_of_ne _ _ (fun same => outside (same ▸ allowed))

end Stores.Retains

def Processor.Fills (processor : Processor) (name : String) : Prop :=
  ∃ joinType keys side, processor.kind = .stage (.join joinType keys) side name

theorem Processor.retains_process {processor : Processor} {attached : List String}
    {stores after : Stores} {record : Record} {forwarded : List Record}
    (processed : processor.process attached stores record = .ok (forwarded, after)) :
    Stores.Retains (fun name => name ∈ attached ∧ processor.Fills name) stores after := by
  obtain ⟨id, kind⟩ := processor
  -- Only a join that is given a result for one of its sides reaches for its store.
  unfold process at processed
  split at processed
  next => cases processed; exact .refl _ _
  next => cases processed; exact .refl _ _
  next joinType keys side name arrival solution own =>
    split at processed
    next => cases processed
    next store opened =>
      cases processed
      obtain ⟨access, found⟩ := Stores.open?_eq_some_iff.mp opened
      refine .insert ⟨access, joinType, keys, side, own⟩ found fun key held there => ?_
      cases inserted : keys.insert? store arrival solution with
      | none => simpa only [join, inserted] using there
      | some grown => simpa only [join, inserted] using JoinKeys.get?_of_insert? inserted there
  next => cases processed; exact .refl _ _
  next => cases processed

/-- Nothing has been lost from the stores, of which only those of the given names have changed,
nor from the results, which wait in the order in which they have come. -/
structure RunState.Grows (filled : String → Prop) (before after : RunState) : Prop where
  stores : Stores.Retains filled before.stores after.stores
  results : before.results <+: after.results

namespace RunState.Grows

variable {filled : String → Prop} {first second third : RunState}

theorem refl (filled : String → Prop) (state : RunState) : Grows filled state state :=
  ⟨.refl filled state.stores, List.prefix_refl state.results⟩

theorem trans (left : Grows filled first second) (right : Grows filled second third) :
    Grows filled first third :=
  ⟨left.stores.trans right.stores, left.results.trans right.results⟩

end RunState.Grows

namespace Topology

def Node.Fills (node : Node) (name : String) : Prop :=
  name ∈ node.stores ∧ ∃ processor, node.kind = .processor processor ∧ processor.Fills name

def Filled (nodes : List Node) (name : String) : Prop := ∃ node ∈ nodes, node.Fills name

theorem Node.grows_of_work_eq_ok {node : Node} {processors : Processors}
    (provided : ∀ own, node.kind = .processor own →
      OrderedMap.get? processors node.name = some own)
    {record : Record} {state after : RunState} {forwarded : List Record}
    (worked : (node.work processors record).run state = .ok forwarded after) :
    RunState.Grows node.Fills state after := by
  rw [run_work] at worked
  split at worked
  next processor kind =>
    rw [provided processor kind] at worked
    dsimp only at worked
    split at worked
    next _ stores processed =>
      cases worked
      refine ⟨(Processor.retains_process processed).mono ?_, List.prefix_refl _⟩
      exact fun name filled => ⟨filled.1, processor, kind, filled.2⟩
    next => cases worked
  next =>
    cases worked
    exact ⟨.refl _ _, List.prefix_append _ _⟩
  next => cases worked

def Progress.Idle (progress : Progress) : Prop :=
  ∀ delivery rest, progress.pending ≠ .ok (delivery :: rest)

theorem Progress.idle_ofOutcome (outcome : Except DriverError Unit × RunState) :
    (ofOutcome outcome).Idle := by
  obtain ⟨result, state⟩ := outcome
  cases result <;> exact fun _ _ => nofun

namespace Builder

variable {builder : Builder}

/-- What happens while nobody reads results: a delivery, or a statement after the last one. -/
inductive Works (builder : Builder) : Progress → Progress → Prop
  | deliver (progress : Progress) : Works builder progress (builder.next progress)
  | pipe {progress : Progress} (idle : progress.Idle) (statement : Statement) :
      Works builder progress (builder.begin statement progress.state)

inductive Moves (builder : Builder) : Progress → Progress → Prop
  | work {first last : Progress} (works : builder.Works first last) : Moves builder first last
  | read {progress : Progress} (idle : progress.Idle) :
      Moves builder progress { progress with state := progress.state.read.2 }

theorem moves_of_works {first last : Progress}
    (works : Relation.ReflTransGen builder.Works first last) :
    Relation.ReflTransGen builder.Moves first last :=
  Relation.ReflTransGen.mono (fun _ _ => .work) _ _ works

section Indexed

variable (indexed : builder.Indexed)
include indexed

theorem grows_next (progress : Progress) :
    RunState.Grows (Filled builder.nodes) progress.state (builder.next progress).state := by
  unfold next
  split
  next delivery rest _ =>
    split
    next => exact .refl _ _
    next position _ =>
      split
      next => exact .refl _ _
      next node found =>
        have member := List.mem_of_getElem? found
        split
        next forwarded after worked =>
          obtain ⟨stores, results⟩ :=
            Node.grows_of_work_eq_ok (provides_processors indexed.distinct node member) worked
          exact ⟨stores.mono fun name filled => ⟨node, member, filled⟩, results⟩
        next error after worked =>
          rw [Node.eq_of_work_eq_error worked]
          exact .refl _ _
  next => exact .refl _ _

theorem Works.grows {first last : Progress} (works : builder.Works first last) :
    RunState.Grows (Filled builder.nodes) first.state last.state := by
  cases works with
  | deliver => exact grows_next indexed first
  | pipe => exact .refl _ _

theorem Moves.retains {first last : Progress} (moves : builder.Moves first last) :
    Stores.Retains (Filled builder.nodes) first.state.stores last.state.stores := by
  cases moves with
  | work works => exact (works.grows indexed).stores
  | read => exact .refl _ _

theorem grows_of_works {first last : Progress}
    (works : Relation.ReflTransGen builder.Works first last) :
    RunState.Grows (Filled builder.nodes) first.state last.state := by
  induction works with
  | refl => exact .refl _ _
  | tail _ step ih => exact ih.trans (step.grows indexed)

theorem retains_of_moves {first last : Progress}
    (moves : Relation.ReflTransGen builder.Moves first last) :
    Stores.Retains (Filled builder.nodes) first.state.stores last.state.stores := by
  induction moves with
  | refl => exact .refl _ _
  | tail _ step ih => exact ih.trans (step.retains indexed)

end Indexed

theorem Leads.works {first last : Progress} (leads : builder.Leads first last) :
    Relation.ReflTransGen builder.Works first last := by
  obtain ⟨count, rfl⟩ := leads
  induction count with
  | zero => exact .refl
  | succ count ih =>
    rw [Function.iterate_succ_apply']
    exact ih.tail (.deliver _)

end Builder

theorem isSome_get?_start (topology : Topology) (name : String) :
    (OrderedMap.get? topology.start.stores name).isSome ↔
      ∃ spec ∈ topology.stores, spec.name = name := by
  rw [start, Stores.get?_ofNames]
  split
  next declared => exact ⟨fun _ => List.mem_map.mp declared, fun _ => rfl⟩
  next undeclared =>
    exact iff_of_false Bool.false_ne_true fun declared => undeclared (List.mem_map.mpr declared)

/-- From any point of a driver to any later one, through deliveries, failures and further
statements, all stores remain with all entries that they have had. Only stores of joins with
access to them change, and results wait until they are read. A processor that fails has neither
changed a store nor forwarded anything, and what a statement does is part of all this. -/
theorem grows_of_moves (steps : List Step) {first last : Progress}
    (reached : Relation.ReflTransGen (Builder.ofSteps steps).Moves
      ⟨.ok [], (ofSteps steps).start⟩ first)
    (later : Relation.ReflTransGen (Builder.ofSteps steps).Moves first last) :
    Stores.Retains (Filled (ofSteps steps).nodes) first.state.stores last.state.stores ∧
      (∀ name, (OrderedMap.get? last.state.stores name).isSome ↔
        ∃ spec ∈ (ofSteps steps).stores, spec.name = name) ∧
      (Relation.ReflTransGen (Builder.ofSteps steps).Works first last →
        first.state.results <+: last.state.results) ∧
      (∀ (processor : Processor) (attached : List String) (record : Record)
        (around after : Surroundings) (error : ProcessorError),
        (processor.handle attached record).run around = .error error after → after = around) ∧
      (first.Idle → ∀ statement, Relation.ReflTransGen (Builder.ofSteps steps).Works first
        (.ofOutcome ((ofSteps steps).pipe statement first.state))) := by
  obtain ⟨indexed, wellFormed⟩ := Builder.indexed_ofSteps steps
  refine ⟨Builder.retains_of_moves indexed later, fun name => ?_, fun works => ?_, ?_, ?_⟩
  · rw [(Builder.retains_of_moves indexed (reached.trans later)).names name]
    exact isSome_get?_start (ofSteps steps) name
  · exact (Builder.grows_of_works indexed works).results
  · exact fun _ _ _ _ _ _ failed => Processor.eq_of_handle_eq_error failed
  · intro idle statement
    have leads := Builder.leads_pipe indexed wellFormed statement first.state
    exact leads.works.head (.pipe idle statement)

/-- Two joins with different keys share a store, one has no access to it, and one is sent the
statements themselves. -/
def sharedSteps : List Step :=
  let pattern (predicate : String) (side : Side) : ProcessorKind :=
    .stage (.pattern ⟨.variable "a", .iri predicate, .variable "b"⟩) (some side) "none"
  let join (names : List String) : ProcessorKind :=
    .stage (.join .natural ⟨names, ["a", "b"]⟩) none "state"
  [.source "in" ⟨"statements", .string, .statement⟩,
    .processor "left" ⟨"left", pattern "p" .left⟩ ["in"],
    .processor "right" ⟨"right", pattern "p" .right⟩ ["in"],
    .processor "other" ⟨"other", pattern "q" .left⟩ ["in"],
    .processor "wide" ⟨"wide", join ["a", "b"]⟩ ["left", "right"],
    .processor "narrow" ⟨"narrow", join ["a"]⟩ ["left", "right", "other"],
    .store (.joinState "state") ["wide", "narrow"],
    .processor "bare" ⟨"bare", join ["a"]⟩ ["other"],
    .processor "formatter" ⟨"formatter", .formatter⟩ ["wide", "narrow"],
    .sink "out" ⟨"results", .string, .solution⟩ ["formatter"],
    .processor "odd" ⟨"odd", join ["a"]⟩ ["in"]]

def sharedFirst : Except DriverError Unit × RunState :=
  (ofSteps sharedSteps).pipe ⟨⟨.iri "x", "p", .iri "y"⟩, "v"⟩ (ofSteps sharedSteps).start

def sharedLast : Except DriverError Unit × RunState :=
  (ofSteps sharedSteps).pipe ⟨⟨.iri "x", "q", .iri "y"⟩, "w"⟩ sharedFirst.2

theorem grows_of_moves_sharedSteps :
    (sharedFirst.1 = .error (.processor (.unexpectedRecord "odd" "statement")) ∧
      sharedFirst.2.results.length = 3 ∧
      sharedLast.1 = .error (.processor (.missingStateStore "bare" "state")) ∧
      sharedLast.2.results.length = 5) ∧
      Stores.Retains (Filled (ofSteps sharedSteps).nodes)
        sharedFirst.2.stores sharedLast.2.stores ∧
      sharedFirst.2.results <+: sharedLast.2.results := by
  have started : (⟨.ok [], (ofSteps sharedSteps).start⟩ : Progress).Idle := fun _ _ => nofun
  obtain ⟨-, -, -, -, pipes⟩ := grows_of_moves sharedSteps .refl .refl
  have worked : Relation.ReflTransGen (Builder.ofSteps sharedSteps).Works
      ⟨.ok [], (ofSteps sharedSteps).start⟩ (.ofOutcome sharedFirst) :=
    pipes started ⟨⟨.iri "x", "p", .iri "y"⟩, "v"⟩
  have moved := Builder.moves_of_works worked
  obtain ⟨-, -, -, -, again⟩ := grows_of_moves sharedSteps moved .refl
  have later : Relation.ReflTransGen (Builder.ofSteps sharedSteps).Works
      (.ofOutcome sharedFirst) (.ofOutcome sharedLast) :=
    again (Progress.idle_ofOutcome sharedFirst) ⟨⟨.iri "x", "q", .iri "y"⟩, "w"⟩
  obtain ⟨retains, -, results, -⟩ :=
    grows_of_moves sharedSteps moved (Builder.moves_of_works later)
  exact ⟨by decide +kernel, retains, results later⟩

end Topology

end ContinuousQuery
