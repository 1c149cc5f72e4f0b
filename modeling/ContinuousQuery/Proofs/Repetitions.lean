import ContinuousQuery.Proofs.Duplicates
import ContinuousQuery.Proofs.StageNames

/-!
Repeated statements. After an arrival a join knows its key, whether the arrival itself lies under
it or another one that came first, and a key that is known is refused. So a network yields for a
statement that it has met before only what it has yielded before, which the joins above refuse,
and remembers what it did.
-/

namespace ContinuousQuery

namespace Processor

variable {joinType : JoinType} {keys : JoinKeys} {store : Store}

theorem store_joinAll (joinType : JoinType) (keys : JoinKeys) (store : Store)
    (arrivals : List Arrival) :
    (joinAll joinType keys store arrivals).2 = keys.insertAll store arrivals := by
  induction arrivals generalizing store with
  | nil => rfl
  | cons arrival rest ih =>
    obtain ⟨side, arrived⟩ := arrival
    have one : (join joinType keys store side arrived).2 =
        (keys.insert? store side arrived).getD store := by
      unfold join
      split
      next refused => rw [refused, Option.getD_none]
      next grown stored => rw [stored, Option.getD_some]
    simp only [joinAll, ih, one]
    rfl

theorem joinAll_of_known {arrivals : List Arrival}
    (known : ∀ arrival ∈ arrivals,
      OrderedMap.contains store (keys.key arrival.1 arrival.2) = true) :
    joinAll joinType keys store arrivals = ([], store) := by
  induction arrivals with
  | nil => rfl
  | cons arrival rest ih =>
    obtain ⟨side, arrived⟩ := arrival
    obtain ⟨here, later⟩ := List.forall_mem_cons.mp known
    have refused : join joinType keys store side arrived = ([], store) := by
      rw [join, JoinKeys.insert?_eq_none_iff.mpr here]
    simp only [joinAll, refused, ih later, List.nil_append]

theorem joinAll_again {arrivals again : List Arrival}
    (heard : ∀ arrival ∈ again, arrival ∈ arrivals) :
    joinAll joinType keys (joinAll joinType keys store arrivals).2 again =
      ([], (joinAll joinType keys store arrivals).2) := by
  apply joinAll_of_known
  intro arrival member
  rw [store_joinAll, JoinKeys.contains_insertAll]
  exact .inl ⟨arrival, heard arrival member, rfl⟩

end Processor

namespace Network

variable {statements : List Statement} {statement : Statement}

def Joins : Network → Prop
  | .pattern _ => False
  | .projection _ inner => inner.Joins
  | .join _ _ _ _ _ => True

/-- What a statement does to a network that has met some statements. -/
structure Repeats (network : Network) (statements : List Statement) (statement : Statement) :
    Prop where
  next : ((network.run statements).2.step statement).2 = (network.run statements).2
  known : ∀ solution ∈ ((network.run statements).2.step statement).1,
    solution ∈ (network.run statements).1
  silent : network.Joins → ((network.run statements).2.step statement).1 = []

theorem heard_of_repeats {left right : Network} (onLeft : left.Repeats statements statement)
    (onRight : right.Repeats statements statement) :
    ∀ arrival ∈ Arrival.rightFirst ((left.run statements).2.step statement).1
        ((right.run statements).2.step statement).1,
      arrival ∈ arrivals left right statements := by
  rintro ⟨side, solution⟩ arrived
  rw [← Arrival.mem_valuesOn, Arrival.valuesOn_rightFirst] at arrived
  rw [mem_arrivals_iff]
  cases side with
  | left => exact onLeft.known solution arrived
  | right => exact onRight.known solution arrived

/-- A network that has met a statement remembers it. Below the first joins its solutions come up
again, and these joins refuse them. -/
theorem repeats_of_mem (network : Network) (member : statement ∈ statements) :
    network.Repeats statements statement := by
  induction network with
  | pattern triple =>
    refine ⟨?_, ?_, fun joins => joins.elim⟩
    · rw [next_pattern, step]
    · rw [next_pattern, run_pattern, step]
      intro solution matched
      exact List.mem_filterMap.mpr ⟨statement, member, Option.mem_toList.mp matched⟩
  | projection function inner ih =>
    refine ⟨?_, ?_, fun joins => ?_⟩
    · rw [next_projection]
      exact congrArg (projection function) ih.next
    · rw [next_projection, run_projection, step]
      intro solution yielded
      obtain ⟨below, inside, rfl⟩ := List.mem_map.mp yielded
      exact List.mem_map_of_mem (ih.known below inside)
    · rw [next_projection]
      exact congrArg (List.map function.project) (ih.silent joins)
  | join joinType keys store left right leftIh rightIh =>
    have again : ((join joinType keys store left right).run statements).2.step statement =
        ([], ((join joinType keys store left right).run statements).2) := by
      simp only [next_join, step]
      rw [Processor.joinAll_again (heard_of_repeats leftIh rightIh), leftIh.next, rightIh.next]
    refine ⟨?_, ?_, fun _ => ?_⟩
    · rw [again]
    · rw [again]
      exact fun solution none => absurd none List.not_mem_nil
    · rw [again]

end Network

namespace StageTree

variable {plan : StageTree}

theorem joins_initial {side : Option Side}
    (joining : ∃ stage ∈ plan.stages side, stage.capability.stageKind = .join) :
    plan.initial.Joins := by
  unfold initial
  induction plan generalizing side with
  | pattern =>
    obtain ⟨stage, member, join⟩ := joining
    cases List.mem_singleton.mp member
    cases join
  | projection _ _ _ _ ih =>
    obtain ⟨stage, member, join⟩ := joining
    rcases List.mem_cons.mp member with rfl | below
    · cases join
    · exact ih ⟨stage, below, join⟩
  | join => trivial

theorem Indistinct.eq_of_keeps {before after : RunState}
    (indistinct : Indistinct plan plan before after)
    (keeps : RunState.Keeps plan.joinIds before after) : after = before := by
  have related := List.forall₂_same.mp ((Renamed.refl plan).corresponds indistinct.network none)
  have stores : after.stores = before.stores := by
    apply OrderedMap.ext_get?
    intro name
    by_cases own : name ∈ plan.joinIds
    · obtain ⟨stage, member, join, rfl⟩ := (plan.mem_joinIds_iff none).mp own
      obtain ⟨store, found, same⟩ :=
        indistinct.exists_store (related stage member) member member join
      rw [found, same]
    · exact keeps.others name own
  have results := indistinct.results
  cases before
  cases after
  cases stores
  cases results
  rfl

open ContinuousQuery.Topology

theorem pipe_repeated (distinct : (sourceName :: formatterName :: sinkName :: plan.ids).Nodup)
    (statementTopic resultTopic : String) (joins : plan.initial.Joins) (actions : List Action)
    {statement : Statement} (member : statement ∈ Action.statements actions) :
    let topology := plan.topology statementTopic resultTopic
    topology.pipe statement (topology.converse actions topology.start).2 =
      (.ok (), (topology.converse actions topology.start).2) := by
  intro topology
  have session : plan.network (topology.converse actions topology.start).2.stores =
      (plan.initial.run (Action.statements actions)).2 ∧
        plan.Equipped (topology.converse actions topology.start).2 := by
    rw [← network_start statementTopic resultTopic]
    exact (converse_topology distinct actions topology.start equipped_start).2.2
  generalize (topology.converse actions topology.start).2 = state at session ⊢
  obtain ⟨met, equipped⟩ := session
  obtain ⟨after, piped, handled⟩ :=
    plan.pipe_handled distinct statementTopic resultTopic statement state equipped
  have repeats := plan.initial.repeats_of_mem member
  have network : plan.network after.stores = plan.network state.stores := by
    rw [handled.network, met, repeats.next]
  have results : after.results = state.results := by
    rw [handled.shown, met, repeats.silent joins, List.foldl_nil]
  have keeps : RunState.Keeps plan.joinIds state after := by
    simpa using handled.keeps
  have indistinct : Indistinct plan plan state after :=
    ⟨results.symm, network.symm, equipped, fun id own => keeps.present id (equipped id own)⟩
  rw [piped, indistinct.eq_of_keeps keeps]

end StageTree

namespace Tree

open ContinuousQuery.Topology

/-- A query with a join ignores a statement that has been pushed before in the same session. -/
theorem pipe_again {σ : Type} {tree : Tree} (built : tree.Built) {source : IdSource σ} {start : σ}
    {query : CompiledQuery} (compiled : tree.compile source start = .ok query)
    (joining : ∃ stage ∈ query.stages, stage.capability.stageKind = .join)
    {statementTopic resultTopic : String} {topology : Topology}
    (assembled : query.assemble statementTopic resultTopic = .ok topology) (actions : List Action)
    {statement : Statement} (pushed : .pipe statement ∈ actions) :
    topology.pipe statement (topology.converse actions topology.start).2 =
      (.ok (), (topology.converse actions topology.start).2) := by
  obtain ⟨-, plan, -, -, follows⟩ := follows_of_compile built.consistent compiled
  obtain ⟨rfl, distinct⟩ := CompiledQuery.topology_of_assemble follows assembled
  rw [follows.stages] at joining
  have member : statement ∈ Action.statements actions :=
    List.mem_filterMap.mpr ⟨.pipe statement, pushed, rfl⟩
  exact plan.pipe_repeated distinct statementTopic resultTopic
    (StageTree.joins_initial joining) actions member

theorem pipe_again_optionalThirds :
    let actions := [Action.pipe pairOfX, .read, .pipe thirdOfX]
    let state := (optionalThirdsTopology.converse actions optionalThirdsTopology.start).2
    optionalThirds.Built ∧ (∃ stage ∈ optionalThirdsQuery.stages,
        stage.capability.stageKind = .join) ∧
      state.results.length = 1 ∧ optionalThirdsTopology.pipe pairOfX state = (.ok (), state) := by
  intro actions state
  have built : optionalThirds.Built := built_ofOperators _
  have joining : ∃ stage ∈ optionalThirdsQuery.stages, stage.capability.stageKind = .join := by
    decide +kernel
  have again := pipe_again built compile_optionalThirds joining assemble_optionalThirds actions
    (show Action.pipe pairOfX ∈ actions from List.mem_cons_self)
  exact ⟨built, joining, by decide +kernel, again⟩

end Tree

end ContinuousQuery
