import ContinuousQuery.Proofs.PatternMatch
import ContinuousQuery.Proofs.Rebinding
import ContinuousQuery.Proofs.Sessions
import Mathlib.Data.Set.Basic

/-!
What operator trees evaluate to. The solutions of a tree over a list of statements form a bag:
patterns and projections keep repetitions, and a natural join takes each pair of distinct
solutions of its operands once. With left outer joins, which have more than one reading, they
form a set. All that a plan yields is explained by keeping every left solution bare, and no
solution binds a name that its operator does not bind.
-/

namespace ContinuousQuery

namespace Solution

def joins (lefts rights : Set Solution) : Set Solution :=
  {joined | ∃ left ∈ lefts, ∃ right ∈ rights,
    Compatible left right ∧ joined = combined left right}

/-- The left join of a query, where a left solution stays bare if it has no partner at all. -/
def leftJoin (lefts rights : Set Solution) : Set Solution :=
  joins lefts rights ∪ {left | left ∈ lefts ∧ ∀ right ∈ rights, ¬Compatible left right}

/-- A left join that keeps all left solutions bare. -/
def hastyLeftJoin (lefts rights : Set Solution) : Set Solution :=
  lefts ∪ joins lefts rights

theorem mem_joins {lefts rights : Set Solution} {joined : Solution} :
    joined ∈ joins lefts rights ↔
      ∃ left ∈ lefts, ∃ right ∈ rights, join left right = some joined := by
  simp only [join_eq_some_iff_eq_combined]
  exact Iff.rfl

theorem joins_mono {lefts rights moreLefts moreRights : Set Solution} (left : lefts ⊆ moreLefts)
    (right : rights ⊆ moreRights) : joins lefts rights ⊆ joins moreLefts moreRights := by
  intro joined member
  obtain ⟨first, onLeft, second, onRight, same⟩ := member
  exact ⟨first, left onLeft, second, right onRight, same⟩

theorem leftJoin_mono {lefts moreLefts : Set Solution} (left : lefts ⊆ moreLefts)
    (rights : Set Solution) : leftJoin lefts rights ⊆ leftJoin moreLefts rights := by
  apply Set.union_subset_union (joins_mono left subset_rfl)
  exact fun solution bare => ⟨left bare.1, bare.2⟩

end Solution

namespace Algebra

variable {ι : Type}

/-- The bag of solutions of a tree of patterns, natural joins, projections and rebindings. -/
def solutions (statements : List Statement) : Algebra ι → List Solution
  | .pattern _ triple => statements.filterMap triple.matchStatement
  | .unary _ (.projection names) operand => (operand.solutions statements).map (.restrict names)
  | .unary _ (.rebinding elements) operand => (operand.solutions statements).map (.rebind elements)
  | .binary _ .naturalJoin left right =>
    Solution.joinDistinct (left.solutions statements) (right.solutions statements)
  | _ => []

theorem solutions_perm {statements others : List Statement} (permuted : statements.Perm others)
    (algebra : Algebra ι) :
    (algebra.solutions statements).Perm (algebra.solutions others) := by
  induction algebra with
  | pattern label triple => exact permuted.filterMap _
  | unary label kind operand ih =>
    cases kind with
    | projection names => exact ih.map _
    | rebinding elements => exact ih.map _
    | filter => exact List.Perm.refl _
  | binary label kind left right leftIh rightIh =>
    cases kind with
    | naturalJoin => exact Solution.joinDistinct_perm leftIh rightIh
    | leftOuterJoin filtered => exact List.Perm.refl _
    | union => exact List.Perm.refl _
    | minus => exact List.Perm.refl _
  | unsupported label name => exact List.Perm.refl _

/-- The set of solutions of a tree over a set of statements, for a reading of left outer joins. -/
def evaluate (outer : Set Solution → Set Solution → Set Solution) (statements : Set Statement) :
    Algebra ι → Set Solution
  | .pattern _ triple =>
    {solution | ∃ statement ∈ statements, triple.matchStatement statement = some solution}
  | .unary _ (.projection names) operand =>
    Set.image (Solution.restrict names) (operand.evaluate outer statements)
  | .unary _ (.rebinding elements) operand =>
    Set.image (Solution.rebind elements) (operand.evaluate outer statements)
  | .binary _ .naturalJoin left right =>
    Solution.joins (left.evaluate outer statements) (right.evaluate outer statements)
  | .binary _ (.leftOuterJoin false) left right =>
    outer (left.evaluate outer statements) (right.evaluate outer statements)
  | _ => ∅

theorem evaluate_binary_subset (label : ι) (kind : BinaryKind) (left right : Algebra ι)
    (statements : Set Statement) :
    (binary label kind left right).evaluate Solution.hastyLeftJoin statements ⊆
      Solution.hastyLeftJoin (left.evaluate Solution.hastyLeftJoin statements)
        (right.evaluate Solution.hastyLeftJoin statements) := by
  cases kind with
  | naturalJoin => exact Set.subset_union_right
  | leftOuterJoin filtered =>
    cases filtered with
    | false => exact subset_rfl
    | true => exact Set.empty_subset _
  | union => exact Set.empty_subset _
  | minus => exact Set.empty_subset _

def Mandatory : Algebra ι → Prop
  | .pattern _ _ | .unsupported _ _ => True
  | .unary _ _ operand => operand.Mandatory
  | .binary _ (.leftOuterJoin _) _ _ => False
  | .binary _ _ left right => left.Mandatory ∧ right.Mandatory

theorem Mandatory.evaluate_eq {algebra : Algebra ι} (mandatory : algebra.Mandatory)
    (outer other : Set Solution → Set Solution → Set Solution) (statements : Set Statement) :
    algebra.evaluate outer statements = algebra.evaluate other statements := by
  induction algebra with
  | pattern => rfl
  | unary label kind operand ih =>
    cases kind with
    | projection names => rw [evaluate, evaluate, ih mandatory]
    | rebinding elements => rw [evaluate, evaluate, ih mandatory]
    | filter => rfl
  | binary label kind left right leftIh rightIh =>
    cases kind with
    | naturalJoin => rw [evaluate, evaluate, leftIh mandatory.1, rightIh mandatory.2]
    | leftOuterJoin filtered => exact mandatory.elim
    | union => rfl
    | minus => rfl
  | unsupported => rfl

end Algebra

namespace Solution

theorem mem_names_restrict {names : List String} {solution : Solution} {name : String}
    (bound : name ∈ OrderedMap.names (restrict names solution).content) : name ∈ names := by
  by_contra outside
  rw [OrderedMap.mem_names_iff, restrict, Bindings.get?_restrict, if_neg outside] at bound
  cases bound

theorem mem_names_matchStatement {triple : TriplePattern} {statement : Statement}
    {solution : Solution} (matched : triple.matchStatement statement = some solution)
    {name : String} :
    name ∈ OrderedMap.names solution.content ↔ name ∈ triple.bindingNames := by
  obtain ⟨bindings, found, rfl⟩ := Option.map_eq_some_iff.mp matched
  exact (TriplePattern.matchTriple_eq_some_iff.mp found).2 name

end Solution

namespace StageTree

variable {algebra : Algebra NodeId} {plan : StageTree} {statements : List Statement}

theorem run_initial_pattern (node : NodeId) (id : String) (triple : TriplePattern) :
    ((pattern node id triple).initial.run statements).1 =
      statements.filterMap triple.matchStatement :=
  Network.run_pattern triple statements

theorem run_initial_projection (node : NodeId) (id : String) (elements : List Projection.Element)
    (names : List String) (inner : StageTree) :
    ((projection node id (Projection.ofRebindings elements names) inner).initial.run statements).1 =
      (inner.initial.run statements).1.map
        (fun solution => Solution.restrict names (Solution.rebind elements solution)) := by
  apply (Network.run_projection ..).trans
  exact List.map_congr_left fun solution _ => Solution.project_ofRebindings elements names solution

theorem run_initial_join (node : NodeId) (id : String) (joinType : JoinType) (keys : JoinKeys)
    (left right : StageTree) :
    ((join node id joinType keys left right).initial.run statements).1 =
      (Processor.joinAll joinType keys OrderedMap.empty
        (Network.arrivals left.initial right.initial statements)).1 :=
  Network.run_join ..

theorem Plans.names_of_mem_evaluate (plans : Plans algebra plan) {known : Set Statement} :
    ∀ solution ∈ algebra.evaluate Solution.hastyLeftJoin known,
      ∀ name ∈ OrderedMap.names solution.content, name ∈ algebra.names.names := by
  induction plans with
  | pattern =>
    rintro solution ⟨statement, -, matched⟩ name bound
    exact NameSet.mem_names_ofNames.mpr ((Solution.mem_names_matchStatement matched).mp bound)
  | projection _ _ =>
    rintro _ ⟨input, -, rfl⟩ name bound
    exact NameSet.mem_names_ofNames.mpr (Solution.mem_names_restrict bound)
  | rebinding _ _ =>
    rintro _ ⟨input, -, rfl⟩ name bound
    exact NameSet.mem_names_ofNames.mpr (Solution.mem_names_restrict bound)
  | @join node id kind joinType left right first second joins _ _ leftIh rightIh =>
    intro solution member name bound
    have union : (Algebra.binary node kind left right).names =
        NameSet.union left.names right.names := by
      rcases BinaryKind.joinType?_eq_some_iff.mp joins with ⟨rfl, -⟩ | ⟨rfl, -⟩ <;> rfl
    rw [union, NameSet.mem_names_union]
    rcases Algebra.evaluate_binary_subset _ _ _ _ _ member with bare | pair
    · exact Or.inl (leftIh solution bare name bound)
    · obtain ⟨one, onLeft, other, onRight, same⟩ := Solution.mem_joins.mp pair
      exact ((Solution.mem_names_join same).mp bound).imp (leftIh one onLeft name)
        (rightIh other onRight name)

/-- All that a plan yields is explained by keeping every left solution bare. -/
theorem Plans.mem_evaluate_of_mem_run (plans : Plans algebra plan) :
    ∀ solution ∈ (plan.initial.run statements).1, solution ∈
      algebra.evaluate Solution.hastyLeftJoin {statement | statement ∈ statements} := by
  induction plans with
  | pattern =>
    intro solution member
    rw [run_initial_pattern] at member
    exact List.mem_filterMap.mp member
  | projection _ ih =>
    intro solution member
    rw [run_initial_projection] at member
    obtain ⟨input, known, rfl⟩ := List.mem_map.mp member
    exact Set.mem_image_of_mem _ (ih input known)
  | rebinding _ ih =>
    intro solution member
    rw [run_initial_projection] at member
    obtain ⟨input, known, rfl⟩ := List.mem_map.mp member
    exact Set.mem_image_of_mem _ (Set.mem_image_of_mem _ (ih input known))
  | @join node id kind joinType left right first second joins onLeft onRight leftIh rightIh =>
    intro solution member
    rw [run_initial_join] at member
    have joined : ∀ left right,
        (Side.left, left) ∈ Network.arrivals first.initial second.initial statements →
        (Side.right, right) ∈ Network.arrivals first.initial second.initial statements →
        Solution.join left right = some solution → solution ∈ Solution.joins _ _ :=
      fun left right onLeft onRight same => Solution.mem_joins.mpr
        ⟨left, leftIh left (Network.mem_arrivals_iff.mp onLeft),
          right, rightIh right (Network.mem_arrivals_iff.mp onRight), same⟩
    rcases BinaryKind.joinType?_eq_some_iff.mp joins with ⟨rfl, rfl⟩ | ⟨rfl, rfl⟩
    · rcases (Processor.joinAll_within .natural _ _).2 solution member with
        ⟨left, right, onLeft, onRight, same⟩ | ⟨outer, -⟩
      · exact joined left right onLeft onRight same
      · cases outer
    · rcases (Processor.joinAll_within .leftOuter _ _).2 solution member with
        ⟨left, right, onLeft, onRight, same⟩ | ⟨-, bare⟩
      · exact Or.inr (joined left right onLeft onRight same)
      · exact Or.inl (leftIh solution (Network.mem_arrivals_iff.mp bare))

end StageTree

end ContinuousQuery
