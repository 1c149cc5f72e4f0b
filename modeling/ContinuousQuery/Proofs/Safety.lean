import ContinuousQuery.Proofs.LoweredTrees
import ContinuousQuery.Proofs.Sessions

/-!
Safety of running topologies. Every edge of the topology of a plan carries records that its
receiver takes, and every join finds its store, in all states that clients can bring about. So
no statement ever fails, whatever it says and whatever happened before.
-/

namespace ContinuousQuery

namespace Topology

/-- States that clients can bring about. A statement that fails leaves a state behind as well. -/
inductive Reachable (topology : Topology) : RunState → Prop
  | start : Reachable topology topology.start
  | pipe {state : RunState} (before : Reachable topology state) (statement : Statement) :
      Reachable topology (topology.pipe statement state).2
  | read {state : RunState} (before : Reachable topology state) : Reachable topology state.read.2

theorem exists_evaluate {topology : Topology}
    (safe : ∀ state, topology.Reachable state → ∀ statement, ∃ after,
      topology.pipe statement state = (.ok (), after)) (statements : List Statement) :
    ∃ results, topology.evaluate statements = .ok results := by
  have collected : ∀ state read, topology.Reachable state → ∃ last,
      statements.foldlM topology.collect (state, read) = .ok last := by
    induction statements with
    | nil => exact fun state read _ => ⟨(state, read), rfl⟩
    | cons statement rest ih =>
      intro state read reachable
      obtain ⟨after, piped⟩ := safe state reachable statement
      have next : topology.collect (state, read) statement =
          .ok (after.read.2, after.read.1 :: read) := by
        simp only [collect, piped]
      have later := (reachable.pipe statement).read
      rw [piped] at later
      obtain ⟨last, done⟩ := ih _ (after.read.1 :: read) later
      exact ⟨last, bind_eq_ok_iff.mpr ⟨_, next, done⟩⟩
  obtain ⟨last, done⟩ := collected topology.start [] .start
  exact ⟨_, by rw [evaluate, done]; rfl⟩

theorem exists_reachable_of_mem_evaluate {topology : Topology} {statements : List Statement}
    {results : List Solution} (evaluated : topology.evaluate statements = .ok results) :
    ∀ solution ∈ results, ∃ state, topology.Reachable state ∧ solution ∈ state.results := by
  have collected : ∀ (progress last : RunState × List (List Solution)),
      topology.Reachable progress.1 →
      statements.foldlM topology.collect progress = .ok last → ∀ solution ∈ last.2.flatten,
        solution ∈ progress.2.flatten ∨
          ∃ state, topology.Reachable state ∧ solution ∈ state.results := by
    clear evaluated
    induction statements with
    | nil =>
      rintro progress last - folded solution member
      cases folded
      exact Or.inl member
    | cons statement rest ih =>
      intro progress last reachable folded solution member
      rw [List.foldlM_cons] at folded
      obtain ⟨next, first, later⟩ := bind_eq_ok_iff.mp folded
      have piped := reachable.pipe statement
      simp only [collect] at first
      split at first
      next => cases first
      next _ after done =>
        cases first
        rw [done] at piped
        rcases ih _ last piped.read later solution member with earlier | found
        · rcases List.mem_append.mp earlier with here | before
          · exact Or.inr ⟨after, piped, here⟩
          · exact Or.inl before
        · exact Or.inr found
  obtain ⟨last, folded, rfl⟩ := map_eq_ok_iff.mp evaluated
  intro solution member
  have listed : solution ∈ last.2.flatten := by simpa using member
  rcases collected _ last .start folded solution listed with nothing | found
  · cases nothing
  · exact found

end Topology

namespace StageTree

variable {plan : StageTree} {statementTopic resultTopic : String}

theorem equipped_of_reachable
    (distinct : (Topology.sourceName :: Topology.formatterName :: Topology.sinkName ::
      plan.ids).Nodup)
    {state : RunState} (reachable : (plan.topology statementTopic resultTopic).Reachable state) :
    plan.Equipped state := by
  induction reachable with
  | start => exact equipped_start
  | pipe _ statement ih =>
    obtain ⟨after, piped, -, -, kept⟩ :=
      plan.pipe_topology distinct statementTopic resultTopic statement _ ih
    rw [piped]
    exact kept
  | read _ ih => exact ih

end StageTree

namespace Tree

open ContinuousQuery.Topology

/-- No statement fails in any state of the topology of a query, and so no run over statements. -/
theorem pipe_succeeds {σ : Type} {tree : Tree}
    (origin : tree.Built ∨ ∃ pattern, tree = .ofGraphPattern pattern) (source : IdSource σ)
    (initial : σ) {query : CompiledQuery} (compiled : tree.compile source initial = .ok query)
    (statementTopic resultTopic : String) {topology : Topology}
    (assembled : query.assemble statementTopic resultTopic = .ok topology) :
    (∀ state, topology.Reachable state → ∀ statement, ∃ after,
      topology.pipe statement state = (.ok (), after)) ∧
      ∀ statements, ∃ results, topology.evaluate statements = .ok results := by
  have built : tree.Built := by
    rcases origin with built | ⟨pattern, rfl⟩
    · exact built
    · exact built_ofGraphPattern pattern
  obtain ⟨-, plan, -, -, rfl, distinct⟩ := exists_plan built compiled assembled
  have safe : ∀ state, (plan.topology statementTopic resultTopic).Reachable state →
      ∀ statement, ∃ after,
        (plan.topology statementTopic resultTopic).pipe statement state = (.ok (), after) := by
    intro state reachable statement
    obtain ⟨after, piped, -⟩ := plan.pipe_topology distinct statementTopic resultTopic statement
      state (StageTree.equipped_of_reachable distinct reachable)
    exact ⟨after, piped⟩
  exact ⟨safe, exists_evaluate safe⟩

/-- Pairs with a third thing that some of them have. The second join is refused, because its
operand belongs to the first one. -/
def optionalThirds : Tree :=
  .ofOperators [.pattern ⟨.variable "a", .iri "p", .blank "b"⟩,
    .pattern ⟨.variable "a", .iri "q", .variable "c"⟩, .binary (.leftOuterJoin false) ⟨0⟩ ⟨1⟩,
    .binary .naturalJoin ⟨0⟩ ⟨2⟩, .unary (.rebinding [⟨.binding "c", "d"⟩]) ⟨2⟩,
    .unary (.projection ["a", "d"]) ⟨3⟩]

def optionalThirdsQuery : CompiledQuery :=
  (optionalThirds.compile .sequential 0).toOption.getD ⟨[], []⟩

def optionalThirdsTopology : Topology :=
  (optionalThirdsQuery.assemble "statements" "results").toOption.getD Topology.empty

theorem compile_optionalThirds :
    optionalThirds.compile .sequential 0 = .ok optionalThirdsQuery := by
  decide +kernel

theorem assemble_optionalThirds :
    optionalThirdsQuery.assemble "statements" "results" = .ok optionalThirdsTopology := by
  decide +kernel

def pairOfX : Statement := ⟨⟨.iri "x\x1f", "p", .literal (.plain "y")⟩, "v"⟩

def thirdOfX : Statement := ⟨⟨.iri "x\x1f", "q", .blank "z\x1f"⟩, ""⟩

theorem pipe_succeeds_optionalThirds :
    optionalThirds.Built ∧ (∃ after, optionalThirdsTopology.pipe thirdOfX
      (optionalThirdsTopology.pipe pairOfX optionalThirdsTopology.start).2.read.2 =
        (.ok (), after)) ∧
      ∃ results, optionalThirdsTopology.evaluate [pairOfX, thirdOfX] = .ok results := by
  have built : optionalThirds.Built := built_ofOperators _
  obtain ⟨safe, evaluates⟩ := pipe_succeeds (.inl built) .sequential 0 compile_optionalThirds
    "statements" "results" assemble_optionalThirds
  exact ⟨built, safe _ (.read (.pipe .start pairOfX)) thirdOfX, evaluates [pairOfX, thirdOfX]⟩

end Tree

end ContinuousQuery
