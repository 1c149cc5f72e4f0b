import ContinuousQuery.Proofs.Evaluation
import ContinuousQuery.Proofs.LoweredTrees
import Mathlib.Data.Set.Function

/-!
Trees whose joins are all natural joins. A session with such a tree reads exactly the bag of
its solutions, in whatever order the statements arrive and whenever the client reads. Constants
of rebindings may contain the separator of store keys: at each name, the solutions of a tree
either bind terms of statements, or all bind the same term, so keys still tell them apart.
-/

namespace ContinuousQuery

def Algebra.InnerJoins {ι : Type} : Algebra ι → Prop
  | .pattern _ _ | .unsupported _ _ => True
  | .unary _ _ operand => operand.InnerJoins
  | .binary _ kind left right => kind = .naturalJoin ∧ left.InnerJoins ∧ right.InnerJoins

theorem Algebra.InnerJoins.mandatory {ι : Type} {algebra : Algebra ι} (inner : algebra.InnerJoins) :
    algebra.Mandatory := by
  induction algebra with
  | pattern => trivial
  | unary _ _ _ ih => exact ih inner
  | binary _ _ _ _ leftIh rightIh =>
    obtain ⟨rfl, left, right⟩ := inner
    exact ⟨leftIh left, rightIh right⟩
  | unsupported => trivial

namespace Solution

/-- The terms read from solutions are free of the separator, or they are all the same. -/
def UniformBy (value : Solution → Option Term) (solutions : Set Solution) : Prop :=
  (∀ solution ∈ solutions, ∀ term, value solution = some term → term.SeparatorFree) ∨
    ∀ first ∈ solutions, ∀ second ∈ solutions, value first = value second

def Uniform (solutions : Set Solution) : Prop :=
  ∀ name, UniformBy (fun solution => OrderedMap.get? solution.content name) solutions

theorem UniformBy.congr {value other : Solution → Option Term} {solutions : Set Solution}
    (uniform : UniformBy value solutions)
    (same : ∀ solution ∈ solutions, value solution = other solution) :
    UniformBy other solutions := by
  rcases uniform with free | equal
  · exact Or.inl fun solution member term found =>
      free solution member term ((same solution member).trans found)
  · exact Or.inr fun first firstMember second secondMember =>
      (same first firstMember).symm.trans
        ((equal first firstMember second secondMember).trans (same second secondMember))

theorem Uniform.unmistakable {solutions : Set Solution} (uniform : Uniform solutions)
    {first second : Solution} (firstMember : first ∈ solutions) (secondMember : second ∈ solutions)
    (name : String) :
    JoinState.Unmistakable (JoinState.valueText first name) (JoinState.valueText second name) := by
  rcases uniform name with free | same
  · exact Or.inr ⟨JoinState.separator_notMem_valueText (free first firstMember),
      JoinState.separator_notMem_valueText (free second secondMember)⟩
  · exact Or.inl (JoinState.valueText_inj.mpr (same first firstMember second secondMember))

theorem uniform_of_separatorFree {solutions : Set Solution}
    (free : ∀ solution ∈ solutions, Bindings.SeparatorFree solution.content) : Uniform solutions :=
  fun name => Or.inl fun solution member =>
    Bindings.separatorFree_iff.mp (free solution member) name

theorem separatorFree_of_matchStatement {triple : TriplePattern} {statement : Statement}
    {solution : Solution} (matched : triple.matchStatement statement = some solution)
    (free : statement.content.SeparatorFree) : Bindings.SeparatorFree solution.content := by
  obtain ⟨bindings, found, rfl⟩ := Option.map_eq_some_iff.mp matched
  exact TriplePattern.separatorFree_of_matchTriple found free

/-- A projected name has a source that all solutions read, so it stays uniform. -/
theorem Uniform.project {solutions : Set Solution} (uniform : Uniform solutions)
    (elements : List Projection.Element) (names : List String) :
    Uniform (Set.image (fun solution => restrict names (rebind elements solution)) solutions) := by
  intro name
  have source : UniformBy (fun solution =>
      (Projection.resolve elements.reverse name).value? solution.content) solutions := by
    cases Projection.resolve elements.reverse name with
    | binding source => exact uniform source
    | constant term => exact Or.inr fun _ _ _ _ => rfl
  have projected : UniformBy (fun solution =>
      OrderedMap.get? (restrict names (rebind elements solution)).content name) solutions := by
    by_cases kept : name ∈ names
    · apply source.congr
      intro solution _
      have look := Bindings.get?_restrict names (rebind elements solution).content name
      rw [if_pos kept] at look
      exact (Projection.value?_resolve elements solution.content name).trans look.symm
    · have unbound : ∀ solution,
          OrderedMap.get? (restrict names (rebind elements solution)).content name = none := by
        intro solution
        have look := Bindings.get?_restrict names (rebind elements solution).content name
        rwa [if_neg kept] at look
      exact Or.inr fun first _ second _ => (unbound first).trans (unbound second).symm
  rcases projected with free | same
  · exact Or.inl (Set.forall_mem_image.mpr free)
  · exact Or.inr (Set.forall_mem_image.mpr fun first firstMember =>
      Set.forall_mem_image.mpr (same first firstMember))

theorem UniformBy.free_or_constant {value : Solution → Option Term} {solutions : Set Solution}
    (uniform : UniformBy value solutions) :
    (∀ solution ∈ solutions, ∀ term, value solution = some term → term.SeparatorFree) ∨
      ∃ term, ∀ solution ∈ solutions, value solution = some term := by
  rcases uniform with free | same
  · exact Or.inl free
  · by_cases bound : ∃ solution ∈ solutions, ∃ term, value solution = some term
    · obtain ⟨witness, known, term, found⟩ := bound
      exact Or.inr ⟨term, fun solution member => (same solution member witness known).trans found⟩
    · exact Or.inl fun solution member term found =>
        absurd ⟨solution, member, term, found⟩ bound

/-- The term of a joined solution is that of its left partner, or else that of the right one. -/
theorem Uniform.joins {lefts rights : Set Solution} (left : Uniform lefts)
    (right : Uniform rights) : Uniform (joins lefts rights) := by
  intro name
  have value : ∀ solution ∈ Solution.joins lefts rights,
      ∃ first ∈ lefts, ∃ second ∈ rights, Compatible first second ∧
        OrderedMap.get? solution.content name = (OrderedMap.get? first.content name).or
          (OrderedMap.get? second.content name) := by
    intro solution member
    obtain ⟨first, firstMember, second, secondMember, same⟩ := mem_joins.mp member
    obtain ⟨compatible, look, -⟩ := join_eq_some_iff.mp same
    exact ⟨first, firstMember, second, secondMember, compatible, look name⟩
  have constant : ∀ term, (∀ solution ∈ Solution.joins lefts rights,
      OrderedMap.get? solution.content name = some term) →
        UniformBy (fun solution => OrderedMap.get? solution.content name)
          (Solution.joins lefts rights) :=
    fun term all => Or.inr fun first firstMember second secondMember =>
      (all first firstMember).trans (all second secondMember).symm
  rcases (left name).free_or_constant with leftFree | ⟨term, onLeft⟩
  · rcases (right name).free_or_constant with rightFree | ⟨term, onRight⟩
    · apply Or.inl
      intro solution member term found
      obtain ⟨first, firstMember, second, secondMember, -, look⟩ := value solution member
      rcases Option.or_eq_some_iff.mp (look.symm.trans found) with here | ⟨-, there⟩
      · exact leftFree first firstMember term here
      · exact rightFree second secondMember term there
    · apply constant term
      intro solution member
      obtain ⟨first, -, second, secondMember, compatible, look⟩ := value solution member
      have there := onRight second secondMember
      rw [look, there]
      cases here : OrderedMap.get? first.content name with
      | none => rfl
      | some other => rw [compatible name other term here there, Option.some_or]
  · apply constant term
    intro solution member
    obtain ⟨first, firstMember, second, -, -, look⟩ := value solution member
    rw [look, onLeft first firstMember, Option.some_or]

end Solution

namespace StageTree

/-- A plan without left outer joins has uniform solutions, whatever its constants are. -/
theorem Plans.uniform_evaluate {algebra : Algebra NodeId} {plan : StageTree}
    (plans : Plans algebra plan) (mandatory : algebra.Mandatory) {statements : Set Statement}
    (free : ∀ statement ∈ statements, statement.content.SeparatorFree) :
    Solution.Uniform (algebra.evaluate Solution.hastyLeftJoin statements) := by
  induction plans with
  | pattern =>
    apply Solution.uniform_of_separatorFree
    rintro solution ⟨statement, known, matched⟩
    exact Solution.separatorFree_of_matchStatement matched (free statement known)
  | projection _ ih => exact (ih mandatory).project [] _
  | rebinding _ ih =>
    rw [Algebra.evaluate, Algebra.evaluate, ← Set.image_comp]
    exact (ih mandatory).project _ _
  | join joins _ _ leftIh rightIh =>
    rcases BinaryKind.joinType?_eq_some_iff.mp joins with ⟨rfl, -⟩ | ⟨rfl, -⟩
    · exact (leftIh mandatory.1).joins (rightIh mandatory.2)
    · exact mandatory.elim

theorem Plans.injOn_key {algebra : Algebra NodeId} {plan : StageTree} (plans : Plans algebra plan)
    {statements : Set Statement}
    (uniform : Solution.Uniform (algebra.evaluate Solution.hastyLeftJoin statements))
    {keys : JoinKeys} (known : ∀ name ∈ algebra.names.names, name ∈ keys.allNames) (side : Side) :
    Set.InjOn (keys.key side) (algebra.evaluate Solution.hastyLeftJoin statements) := by
  have listed : ∀ solution ∈ algebra.evaluate Solution.hastyLeftJoin statements,
      keys.Lists solution := fun solution member name bound =>
    known name (plans.names_of_mem_evaluate solution member name bound)
  intro first firstMember second secondMember same
  exact (JoinKeys.key_inj (uniform.unmistakable firstMember secondMember) same).eq
    (listed first firstMember) (listed second secondMember)

section Operands

variable {left right : Algebra NodeId} {first second : StageTree} {statements : List Statement}
  (onLeft : Plans left first) (onRight : Plans right second)
include onLeft onRight

theorem Plans.separates_of_injOn {keys : JoinKeys}
    (leftDiffer : Set.InjOn (keys.key .left)
      (left.evaluate Solution.hastyLeftJoin {statement | statement ∈ statements}))
    (rightDiffer : Set.InjOn (keys.key .right)
      (right.evaluate Solution.hastyLeftJoin {statement | statement ∈ statements})) :
    keys.Separates (Network.arrivals first.initial second.initial statements) := by
  intro side arrived other arrivedMember otherMember
  rw [Network.mem_arrivals_iff] at arrivedMember otherMember
  cases side with
  | left =>
    exact leftDiffer (onLeft.mem_evaluate_of_mem_run _ arrivedMember)
      (onLeft.mem_evaluate_of_mem_run _ otherMember)
  | right =>
    exact rightDiffer (onRight.mem_evaluate_of_mem_run _ arrivedMember)
      (onRight.mem_evaluate_of_mem_run _ otherMember)

theorem Plans.separates_of_mandatory (leftMandatory : left.Mandatory)
    (rightMandatory : right.Mandatory)
    (free : ∀ statement ∈ statements, statement.content.SeparatorFree) :
    (JoinKeys.plan left.names right.names).Separates
      (Network.arrivals first.initial second.initial statements) :=
  onLeft.separates_of_injOn onRight
    (onLeft.injOn_key (onLeft.uniform_evaluate leftMandatory free)
      (fun _ member => JoinKeys.mem_allNames_plan.mpr (Or.inl member)) .left)
    (onRight.injOn_key (onRight.uniform_evaluate rightMandatory free)
      (fun _ member => JoinKeys.mem_allNames_plan.mpr (Or.inr member)) .right)

end Operands

theorem Plans.run_perm_solutions {algebra : Algebra NodeId} {plan : StageTree}
    (plans : Plans algebra plan) (inner : algebra.InnerJoins) {statements : List Statement}
    (free : ∀ statement ∈ statements, statement.content.SeparatorFree) :
    (plan.initial.run statements).1.Perm (algebra.solutions statements) := by
  induction plans with
  | pattern =>
    rw [run_initial_pattern]
    exact List.Perm.refl _
  | projection _ ih =>
    rw [run_initial_projection]
    exact (ih inner).map _
  | rebinding _ ih =>
    rw [run_initial_projection, Algebra.solutions, Algebra.solutions, List.map_map]
    exact (ih inner).map _
  | @join node id kind joinType left right first second joins onLeft onRight leftIh rightIh =>
    obtain ⟨rfl, innerLeft, innerRight⟩ := inner
    cases joins
    have separates :=
      onLeft.separates_of_mandatory onRight innerLeft.mandatory innerRight.mandatory free
    have emitted := (Processor.joinAll_remembers .natural separates).2
    rw [JoinType.results, Network.valuesOn_arrivals, Network.valuesOn_arrivals] at emitted
    rw [run_initial_join]
    exact emitted.trans (Solution.joinDistinct_perm (leftIh innerLeft) (rightIh innerRight))

end StageTree

namespace Tree

open ContinuousQuery.Topology

theorem session_perm_solutions {σ : Type} {tree : Tree} (built : tree.Built)
    (source : IdSource σ) (state : σ) {query : CompiledQuery}
    (compiled : tree.compile source state = .ok query) (statementTopic resultTopic : String)
    {topology : Topology} (assembled : query.assemble statementTopic resultTopic = .ok topology)
    {algebra : Algebra NodeId} (whole : tree.algebra? = some algebra) (inner : algebra.InnerJoins)
    (actions : List Action)
    (free : ∀ statement ∈ Action.statements actions, statement.content.SeparatorFree) :
    (∀ answer ∈ (topology.converse actions topology.start).1, answer.Succeeded) ∧
      (topology.sessionResults actions).Perm (algebra.solutions (Action.statements actions)) ∧
      ∀ others : List Action, (Action.statements others).Perm (Action.statements actions) →
        (topology.sessionResults others).Perm (topology.sessionResults actions) := by
  have session : ∀ others : List Action,
      (∀ statement ∈ Action.statements others, statement.content.SeparatorFree) →
        (∀ answer ∈ (topology.converse others topology.start).1, answer.Succeeded) ∧
          (topology.sessionResults others).Perm
            (algebra.solutions (Action.statements others)) := by
    intro others clean
    obtain ⟨found, plan, same, plans, succeeded, results⟩ :=
      converse_assembled built compiled assembled others
    cases whole.symm.trans same
    refine ⟨succeeded, ?_⟩
    rw [results]
    exact plans.run_perm_solutions inner clean
  obtain ⟨succeeded, permuted⟩ := session actions free
  refine ⟨succeeded, permuted, fun others reordered => ?_⟩
  have clean : ∀ statement ∈ Action.statements others, statement.content.SeparatorFree :=
    fun statement member => free statement (reordered.mem_iff.mp member)
  exact (session others clean).2.trans
    ((algebra.solutions_perm reordered).trans permuted.symm)

/-- Paths of two steps, with a constant that contains the separator of store keys. -/
def twoSteps : Tree :=
  .ofGraphPattern (.project (.extend (.basic [⟨.variable "a", .iri "p", .variable "b"⟩,
    ⟨.variable "b", .iri "p", .variable "c"⟩]) "tag" (some (.constant (.iri "t\x1f"))))
      ["a", "c", "tag"])

def twoStepsQuery : CompiledQuery := (twoSteps.compile .sequential 0).toOption.getD ⟨[], []⟩

def twoStepsTopology : Topology :=
  (twoStepsQuery.assemble "statements" "results").toOption.getD Topology.empty

def twoStepsActions : List Action :=
  [.pipe ⟨⟨.iri "x", "p", .iri "x"⟩, "v"⟩, .read, .pipe ⟨⟨.blank "y", "p", .iri "x"⟩, "w"⟩,
    .pipe ⟨⟨.iri "x", "p", .iri "x"⟩, "v"⟩, .read]

theorem session_perm_solutions_twoSteps :
    ∃ algebra, twoSteps.algebra? = some algebra ∧
      (∀ answer ∈ (twoStepsTopology.converse twoStepsActions twoStepsTopology.start).1,
        answer.Succeeded) ∧
      (twoStepsTopology.sessionResults twoStepsActions).Perm
        (algebra.solutions (Action.statements twoStepsActions)) ∧
      algebra.solutions (Action.statements twoStepsActions) =
        [⟨.ofList [("a", .blank "y"), ("c", .iri "x"), ("tag", .iri "t\x1f")], "(w)&(v)"⟩,
          ⟨.ofList [("a", .iri "x"), ("c", .iri "x"), ("tag", .iri "t\x1f")], "v"⟩] ∧
      ∀ others : List Action, (Action.statements others).Perm (Action.statements twoStepsActions) →
        (twoStepsTopology.sessionResults others).Perm
          (twoStepsTopology.sessionResults twoStepsActions) := by
  have whole : twoSteps.algebra? = some (.unary ⟨4⟩ (.projection ["a", "c", "tag"])
      (.unary ⟨3⟩ (.rebinding [⟨.constant (.iri "t\x1f"), "tag"⟩])
        (.binary ⟨2⟩ .naturalJoin
          (.pattern ⟨0⟩ ⟨.variable "a", .iri "p", .variable "b"⟩)
          (.pattern ⟨1⟩ ⟨.variable "b", .iri "p", .variable "c"⟩)))) := by
    decide +kernel
  have compiled : twoSteps.compile .sequential 0 = .ok twoStepsQuery := by decide +kernel
  have assembled : twoStepsQuery.assemble "statements" "results" = .ok twoStepsTopology := by
    decide +kernel
  obtain ⟨succeeded, permuted, reordered⟩ := session_perm_solutions (built_ofGraphPattern _)
    .sequential 0 compiled "statements" "results" assembled whole ⟨rfl, trivial, trivial⟩
    twoStepsActions (by decide)
  exact ⟨_, whole, succeeded, permuted, by decide +kernel, reordered⟩

end Tree

end ContinuousQuery
