import ContinuousQuery.Proofs.Rebinding
import ContinuousQuery.Proofs.StageTrees

/-!
The stages of projections. Rebindings right below a projection have no stage of their own; the
projection resolves them beforehand and reads all its sources from what the rebindings read.
Whatever the targets shadow or repeat, it yields what they would yield one after the other.
-/

namespace ContinuousQuery

def Tree.rebindings (tree : Tree) (operand : NodeId) : List Projection.Element × NodeId :=
  match tree.operator? operand with
  | some (.unary (.rebinding elements) inner) => (elements, inner)
  | _ => ([], operand)

theorem Tree.rebindings_of_operator? {tree : Tree} {operand inner : NodeId}
    {elements : List Projection.Element}
    (found : tree.operator? operand = some (.unary (.rebinding elements) inner)) :
    tree.rebindings operand = (elements, inner) := by rw [rebindings, found]

/-- The stage reads results of one node. Its processor runs elements on each of them, one after
the other, keeps some names, and forwards the result with the visibility that it came with. -/
structure Stage.Projects (stage : Stage) (elements : List Projection.Element)
    (names : List String) (input : NodeId) : Prop where
  inputs : stage.inputs = [input]
  process : ∀ attached stores result,
    (Processor.ofStage stage).process attached stores (.result result) =
      .ok ([.result (.ofSide stage.side
        (Solution.restrict names (Solution.rebind elements result.solution)))], stores)

theorem Stage.projects_ofRebindings {stage : Stage} {elements : List Projection.Element}
    {names : List String} {input : NodeId}
    (capability : stage.capability = .projection (Projection.ofRebindings elements names))
    (inputs : stage.inputs = [input]) : stage.Projects elements names input where
  inputs := inputs
  process := by
    intro attached stores result
    simp only [Processor.process, Processor.ofStage, capability, Solution.project_ofRebindings]

theorem StageTree.Plans.rebindings_label {tree : Tree} {algebra : Algebra NodeId}
    {plan : StageTree} (plans : Plans algebra plan) (represents : tree.Represents algebra) :
    tree.rebindings algebra.label = ([], algebra.label) := by
  cases plans with
  | pattern =>
    cases represents with
    | pattern found => simp only [Tree.rebindings, Algebra.label, found]
  | projection =>
    cases represents with
    | unary found => simp only [Tree.rebindings, Algebra.label, found]
  | rebinding =>
    cases represents with
    | unary found => simp only [Tree.rebindings, Algebra.label, found]
  | join =>
    cases represents with
    | binary found => simp only [Tree.rebindings, Algebra.label, found]

theorem StageTree.Plans.projects {tree : Tree} {algebra : Algebra NodeId} {plan : StageTree}
    (plans : Plans algebra plan) (represents : tree.Represents algebra) (side : Option Side) :
    ∀ stage ∈ plan.stages side, ∀ names operand,
      tree.operator? stage.node = some (.unary (.projection names) operand) →
        stage.Projects (tree.rebindings operand).1 names (tree.rebindings operand).2 := by
  induction plans generalizing side with
  | pattern =>
    cases represents with
    | pattern found =>
      refine List.forall_mem_singleton.mpr fun names operand projection => ?_
      cases found.symm.trans projection
  | projection below ih =>
    cases represents with
    | unary found inner =>
      refine List.forall_mem_cons.mpr ⟨fun names operand projection => ?_, ih inner none⟩
      cases found.symm.trans projection
      rw [below.rebindings_label inner]
      exact Stage.projects_ofRebindings rfl (by rw [below.node_eq])
  | rebinding below ih =>
    cases represents with
    | unary found chain =>
      cases chain with
      | unary elements inner =>
        refine List.forall_mem_cons.mpr ⟨fun names operand projection => ?_, ih inner none⟩
        cases found.symm.trans projection
        rw [Algebra.label, Tree.rebindings_of_operator? elements]
        exact Stage.projects_ofRebindings rfl (by rw [below.node_eq])
  | join joins onLeft onRight leftIh rightIh =>
    cases represents with
    | binary found first second =>
      refine List.forall_mem_cons.mpr ⟨fun names operand projection => ?_,
        List.forall_mem_append.mpr ⟨leftIh first _, rightIh second _⟩⟩
      cases found.symm.trans projection

namespace Tree

/-- A projection over rebindings is a projection of what they make of its input, one after the
other, whatever they are. So are the stages of all projections in compiled trees. -/
theorem projections_after_rebindings :
    (∀ (elements : List Projection.Element) (names : List String) (solution : Solution),
      (Projection.ofRebindings elements names).project solution =
        Solution.restrict names (Solution.rebind elements solution)) ∧
      ∀ {σ : Type} {tree : Tree}, tree.Built → ∀ (source : IdSource σ) (initial : σ)
        {query : CompiledQuery}, tree.compile source initial = .ok query →
          ∀ stage ∈ query.stages, ∀ names operand,
            tree.operator? stage.node = some (.unary (.projection names) operand) →
              stage.Projects (tree.rebindings operand).1 names (tree.rebindings operand).2 := by
  refine ⟨Solution.project_ofRebindings, ?_⟩
  intro σ tree built source initial query compiled
  obtain ⟨algebra, plan, whole, plans, follows⟩ := follows_of_compile built.consistent compiled
  obtain ⟨represents, -⟩ := algebra?_eq_some_iff.mp whole
  rw [follows.stages]
  exact plans.projects represents none

/-- Exchanges two names by way of a third one, which is unbound afterwards. Then a name is set
twice, and copied to another one in between. -/
def exchange : List Projection.Element :=
  [⟨.binding "a", "c"⟩, ⟨.binding "b", "a"⟩, ⟨.binding "c", "b"⟩, ⟨.binding "b", "b"⟩,
    ⟨.binding "z", "c"⟩, ⟨.constant (.iri "k"), "d"⟩, ⟨.binding "d", "e"⟩, ⟨.binding "a", "d"⟩]

def exchangedNames : List String := ["e", "a", "c", "b", "a", "d"]

def exchangedEnds : Tree :=
  .ofOperators [.pattern ⟨.variable "a", .iri "p", .variable "b"⟩,
    .unary (.rebinding exchange) ⟨0⟩, .unary (.projection exchangedNames) ⟨1⟩]

def exchangedEndsQuery : CompiledQuery :=
  (exchangedEnds.compile .sequential 0).toOption.getD ⟨[], []⟩

def exchangedEndsStage : Stage :=
  ⟨⟨2⟩, "PROJECTION_0", none, .projection (.ofRebindings exchange exchangedNames), [⟨0⟩]⟩

theorem projections_after_rebindings_exchangedEnds :
    exchangedEnds.Built ∧ exchangedEndsStage ∈ exchangedEndsQuery.stages ∧
      exchangedEndsStage.Projects exchange exchangedNames ⟨0⟩ ∧
      Solution.text ((Projection.ofRebindings exchange exchangedNames).project
          ⟨.ofList [("a", .iri "s"), ("b", .iri "t"), ("c", .iri "u")], "v"⟩) =
        "\x7b?a=<t>, ?b=<s>, ?d=<t>, ?e=<k>\x7d [v]" := by
  have built : exchangedEnds.Built := built_ofOperators _
  have compiled : exchangedEnds.compile .sequential 0 = .ok exchangedEndsQuery := by
    decide +kernel
  have member : exchangedEndsStage ∈ exchangedEndsQuery.stages := by decide +kernel
  have taken : exchangedEnds.rebindings ⟨1⟩ = (exchange, ⟨0⟩) := by decide +kernel
  obtain ⟨runs, stages⟩ := projections_after_rebindings
  have projects :=
    stages built .sequential 0 compiled _ member exchangedNames ⟨1⟩ (by decide +kernel)
  rw [taken] at projects
  refine ⟨built, member, projects, ?_⟩
  rw [runs]
  decide +kernel

end Tree

end ContinuousQuery
