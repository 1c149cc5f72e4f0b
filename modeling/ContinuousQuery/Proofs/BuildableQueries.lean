import ContinuousQuery.Proofs.Compilation
import ContinuousQuery.Proofs.MirroredPlans

/-!
Assembly of queries that nobody has checked. Stages are added from the last one to the first, so
a stage can only read from the source and from stages behind it. That and names of their own are
all that stages need; the stores of joins are never in the way.
-/

namespace ContinuousQuery

open ContinuousQuery.Topology

theorem bind_eq_error_iff {ε α β : Type} {first : Except ε α} {second : α → Except ε β}
    {error : ε} : first >>= second = .error error ↔
      first = .error error ∨ ∃ middle, first = .ok middle ∧ second middle = .error error := by
  cases first <;> simp [bind, Except.bind]

theorem exists_of_mapM_eq_error {ε α β : Type} {step : α → Except ε β} {values : List α}
    {error : ε} (failed : values.mapM step = .error error) :
    ∃ value ∈ values, step value = .error error := by
  induction values with
  | nil => cases failed
  | cons value rest ih =>
    rw [List.mapM_cons] at failed
    cases first : step value with
    | error refusal =>
      rw [first] at failed
      cases failed
      exact ⟨value, List.mem_cons_self, first⟩
    | ok result =>
      cases later : rest.mapM step with
      | error refusal =>
        rw [first, later] at failed
        cases failed
        obtain ⟨other, member, refused⟩ := ih later
        exact ⟨other, List.mem_cons_of_mem _ member, refused⟩
      | ok results =>
        rw [first, later] at failed
        cases failed

theorem forall₂_of_mapM_eq_ok {ε α β : Type} {step : α → Except ε β} {values : List α}
    {results : List β} (done : values.mapM step = .ok results) :
    List.Forall₂ (fun value result => step value = .ok result) values results := by
  induction values generalizing results with
  | nil =>
    cases done
    exact .nil
  | cons value rest ih =>
    rw [List.mapM_cons] at done
    obtain ⟨result, first, later⟩ := bind_eq_ok_iff.mp done
    obtain ⟨others, behind, yielded⟩ := bind_eq_ok_iff.mp later
    cases yielded
    exact .cons first (ih behind)

theorem Capability.stageKind_eq_pattern_iff {capability : Capability} :
    capability.stageKind = .pattern ↔ ∃ triple, capability = .pattern triple := by
  cases capability <;> simp [stageKind]

namespace Topology

theorem addNode_eq_error {topology : Topology} {name : String} {kind : NodeKind}
    {parents : List String} {error : BuildError}
    (refused : topology.addNode name kind parents = .error error) :
    name ∈ nodeNames topology.nodes ∧ error = .duplicateNode name ∨
      ∃ parent ∈ parents, parent ∉ nodeNames topology.nodes ∧
        error = .unknownParent name parent := by
  unfold addNode at refused
  split at refused
  next known =>
    cases refused
    exact .inl ⟨isSome_node?_iff.mp known, rfl⟩
  next =>
    split at refused
    next parent missing =>
      cases refused
      have unknown := List.find?_some missing
      rw [Option.isNone_iff_eq_none, ← Option.not_isSome_iff_eq_none, isSome_node?_iff] at unknown
      exact .inr ⟨parent, List.mem_of_find?_eq_some missing, unknown, rfl⟩
    next => cases refused

end Topology

namespace CompiledQuery

/-- What a stage of a query needs to be added once the stages behind it have been added. -/
structure Addable (query : CompiledQuery) (behind : List Stage) (stage : Stage) : Prop where
  new : stage.id ∉ sourceName :: behind.map Stage.id
  inputs : stage.capability.stageKind ≠ .pattern → ∀ node ∈ stage.inputs,
    ∃ id, query.idOf? node = some id ∧ id ∈ sourceName :: behind.map Stage.id

/-- Every stage has a name of its own and reads from the source or from stages behind it. Patterns
read from the source, whatever their inputs are. -/
structure Buildable (query : CompiledQuery) : Prop where
  nonempty : query.stages ≠ []
  distinct : (query.stages.map Stage.id).Nodup
  unreserved : ∀ stage ∈ query.stages, stage.id ∉ [sourceName, formatterName, sinkName]
  inputs : ∀ ahead stage behind, query.stages = ahead ++ stage :: behind →
    stage.capability.stageKind ≠ .pattern → ∀ node ∈ stage.inputs,
      ∃ id, query.idOf? node = some id ∧ id ∈ sourceName :: behind.map Stage.id

inductive Defect (query : CompiledQuery) : BuildError → Prop
  | empty (none : query.stages = []) : Defect query .emptyQuery
  | reserved {stage : Stage} (member : stage ∈ query.stages)
      (taken : stage.id ∈ [sourceName, formatterName, sinkName]) :
      Defect query (.duplicateNode stage.id)
  | repeated {ahead behind : List Stage} {stage : Stage}
      (parts : query.stages = ahead ++ stage :: behind) (again : stage.id ∈ behind.map Stage.id) :
      Defect query (.duplicateNode stage.id)
  | unplanned {stage : Stage} {node : NodeId} (member : stage ∈ query.stages)
      (reads : stage.capability.stageKind ≠ .pattern) (input : node ∈ stage.inputs)
      (unknown : query.idOf? node = none) : Defect query (.unknownInput stage.id node)
  | unfed {ahead behind : List Stage} {stage : Stage} {node : NodeId} {id : String}
      (parts : query.stages = ahead ++ stage :: behind)
      (reads : stage.capability.stageKind ≠ .pattern) (input : node ∈ stage.inputs)
      (known : query.idOf? node = some id) (absent : id ∉ sourceName :: behind.map Stage.id) :
      Defect query (.unknownParent stage.id id)

/-- The topology has the source and the nodes of some stages, and no stores but theirs. -/
structure Stands (behind : List Stage) (topology : Topology) : Prop where
  names : nodeNames topology.nodes = sourceName :: behind.reverse.map Stage.id
  stores : ∀ spec ∈ topology.stores, spec.name ∈ behind.map Stage.id

variable {query : CompiledQuery} {topology grown : Topology} {stage : Stage}
  {behind : List Stage}

theorem Stands.mem_nodeNames_iff (stands : Stands behind topology) {name : String} :
    name ∈ nodeNames topology.nodes ↔ name ∈ sourceName :: behind.map Stage.id := by
  rw [stands.names, List.map_reverse, List.mem_cons, List.mem_reverse, List.mem_cons]

theorem parentsOf_eq_error {error : BuildError} (refused : query.parentsOf stage = .error error) :
    stage.capability.stageKind ≠ .pattern ∧
      ∃ node ∈ stage.inputs, query.idOf? node = none ∧ error = .unknownInput stage.id node := by
  unfold parentsOf at refused
  split at refused
  next => cases refused
  next other =>
    obtain ⟨node, member, missing⟩ := exists_of_mapM_eq_error refused
    refine ⟨fun kind => ?_, node, member, ?_⟩
    · obtain ⟨triple, shape⟩ := Capability.stageKind_eq_pattern_iff.mp kind
      exact other triple shape
    · cases found : query.idOf? node with
      | some id => simp [found] at missing
      | none =>
        simp only [found, Except.error.injEq] at missing
        exact ⟨rfl, missing.symm⟩

theorem parentsOf_eq_ok {parents : List String} (done : query.parentsOf stage = .ok parents) :
    stage.capability.stageKind = .pattern ∧ parents = [sourceName] ∨
      stage.capability.stageKind ≠ .pattern ∧
        List.Forall₂ (fun node parent => query.idOf? node = some parent) stage.inputs parents := by
  unfold parentsOf at done
  split at done
  next triple shape =>
    cases done
    exact .inl ⟨Capability.stageKind_eq_pattern_iff.mpr ⟨triple, shape⟩, rfl⟩
  next other =>
    refine .inr ⟨fun kind => ?_, (forall₂_of_mapM_eq_ok done).imp fun node parent found => ?_⟩
    · obtain ⟨triple, shape⟩ := Capability.stageKind_eq_pattern_iff.mp kind
      exact other triple shape
    · cases known : query.idOf? node with
      | some id => simpa [known] using found
      | none => simp [known] at found

theorem addable_of_addStage (stands : Stands behind topology)
    (added : query.addStage topology stage = .ok grown) :
    query.Addable behind stage ∧ Stands (stage :: behind) grown := by
  obtain ⟨new, names⟩ := nodeNames_of_addStage added
  obtain ⟨parents, inputs, rest⟩ := bind_eq_ok_iff.mp added
  obtain ⟨middle, processor, stored⟩ := bind_eq_ok_iff.mp rest
  obtain ⟨-, present, rfl⟩ := addNode_eq_ok_iff.mp processor
  refine ⟨⟨mt stands.mem_nodeNames_iff.mpr new, fun reads node member => ?_⟩, ?_, ?_⟩
  · rcases parentsOf_eq_ok inputs with ⟨pattern, -⟩ | ⟨-, known⟩
    · exact absurd pattern reads
    · obtain ⟨parent, listed, found⟩ := exists_related_of_mem known member
      exact ⟨parent, found, stands.mem_nodeNames_iff.mp (present parent listed)⟩
  · rw [names, stands.names]
    simp
  · have before : ∀ spec ∈ topology.stores, spec.name ∈ (stage :: behind).map Stage.id :=
      fun spec member => List.mem_cons_of_mem _ (stands.stores spec member)
    split at stored
    next =>
      obtain ⟨-, -, rfl⟩ := addStore_eq_ok_iff.mp stored
      exact List.forall_mem_append.mpr ⟨before, List.forall_mem_singleton.mpr List.mem_cons_self⟩
    next =>
      cases stored
      exact before

theorem exists_addStage (stands : Stands behind topology) {parents : List String}
    (inputs : query.parentsOf stage = .ok parents) (new : stage.id ∉ nodeNames topology.nodes)
    (present : ∀ parent ∈ parents, parent ∈ nodeNames topology.nodes) :
    ∃ grown, query.addStage topology stage = .ok grown := by
  have unused : ∀ spec ∈ topology.stores, spec.name ≠ stage.id := by
    intro spec member same
    have taken := List.mem_cons_of_mem sourceName (stands.stores spec member)
    exact new (stands.mem_nodeNames_iff.mpr (same ▸ taken))
  cases capability : stage.capability with
  | join joinType keys => exact ⟨_, addStage_join_eq_ok capability inputs new present unused⟩
  | _ => exact ⟨_, addStage_eq_ok inputs new present (by simp [capability])⟩

theorem defect_of_addStage (stands : Stands behind topology) {ahead : List Stage}
    (parts : query.stages = ahead ++ stage :: behind) {error : BuildError}
    (refused : query.addStage topology stage = .error error) : query.Defect error := by
  have member : stage ∈ query.stages := by simp [parts]
  rcases bind_eq_error_iff.mp refused with failed | ⟨parents, inputs, rest⟩
  · obtain ⟨reads, node, input, unknown, rfl⟩ := parentsOf_eq_error failed
    exact .unplanned member reads input unknown
  · rcases bind_eq_error_iff.mp rest with failed | ⟨middle, processor, -⟩
    · rcases addNode_eq_error failed with ⟨known, rfl⟩ | ⟨parent, listed, absent, rfl⟩
      · rcases List.mem_cons.mp (stands.mem_nodeNames_iff.mp known) with source | again
        · exact .reserved member (by simp [source])
        · exact .repeated parts again
      · rw [stands.mem_nodeNames_iff] at absent
        rcases parentsOf_eq_ok inputs with ⟨-, rfl⟩ | ⟨reads, found⟩
        · exact absurd (List.mem_singleton.mp listed ▸ List.mem_cons_self) absent
        · obtain ⟨node, input, known⟩ := exists_related_of_mem found.flip listed
          exact .unfed parts reads input known absent
    · -- The node has been added, and then its store cannot be refused.
      obtain ⟨new, present, -⟩ := addNode_eq_ok_iff.mp processor
      obtain ⟨grown, added⟩ := exists_addStage stands inputs new present
      cases added.symm.trans refused

theorem addable_of_foldlM {stages : List Stage} (stands : Stands [] topology)
    (added : stages.reverse.foldlM query.addStage topology = .ok grown) :
    Stands stages grown ∧ ∀ ahead stage behind, stages = ahead ++ stage :: behind →
      query.Addable behind stage := by
  induction stages generalizing grown with
  | nil =>
    cases added
    exact ⟨stands, fun ahead stage behind parts => by simp at parts⟩
  | cons first rest ih =>
    rw [List.reverse_cons] at added
    obtain ⟨middle, before, last⟩ := foldlM_concat_eq_ok_iff.mp added
    obtain ⟨stood, addable⟩ := ih before
    obtain ⟨here, next⟩ := addable_of_addStage stood last
    refine ⟨next, fun ahead stage behind parts => ?_⟩
    cases ahead with
    | nil =>
      cases parts
      exact here
    | cons _ ahead =>
      cases parts
      exact addable ahead stage behind rfl

theorem defect_of_foldlM (stands : Stands [] topology) {error : BuildError}
    (refused : query.stages.reverse.foldlM query.addStage topology = .error error) :
    query.Defect error := by
  obtain ⟨before, failing, after, middle, parts, added, last⟩ := foldlM_eq_error_iff.mp refused
  have stages : query.stages = after.reverse ++ failing :: before.reverse := by
    rw [← List.reverse_reverse query.stages, parts]
    simp
  rw [← List.reverse_reverse before] at added
  exact defect_of_addStage (addable_of_foldlM stands added).1 stages last

theorem stands_source (topic : Topic) :
    Stands [] ⟨[⟨sourceName, .source topic, [], [], []⟩], []⟩ :=
  ⟨rfl, List.forall_mem_nil _⟩

theorem buildable_of_assemble {statementTopic resultTopic : String}
    (assembled : query.assemble statementTopic resultTopic = .ok topology) : query.Buildable := by
  unfold assemble at assembled
  split at assembled
  next => cases assembled
  next root isRoot =>
    obtain ⟨start, source, steps⟩ := bind_eq_ok_iff.mp assembled
    cases source
    obtain ⟨staged, stages, steps⟩ := bind_eq_ok_iff.mp steps
    obtain ⟨formatted, formatter, sink⟩ := bind_eq_ok_iff.mp steps
    obtain ⟨distinct, names⟩ := nodeNames_of_foldlM stages (List.nodup_singleton sourceName)
    obtain ⟨stood, addable⟩ := addable_of_foldlM (stands_source _) stages
    obtain ⟨newFormatter, -, rfl⟩ := addNode_eq_ok_iff.mp formatter
    obtain ⟨newSink, -⟩ := addNode_eq_ok_iff.mp sink
    rw [nodeNames_append, nodeNames_link, List.mem_append, not_or] at newSink
    refine ⟨?_, ?_, ?_, fun ahead stage behind parts => (addable ahead stage behind parts).inputs⟩
    · intro none
      rw [root?, none] at isRoot
      cases isRoot
    · rw [names, List.map_reverse] at distinct
      exact List.nodup_reverse.mp distinct.of_append_right
    · intro stage member reserved
      have listed : stage.id ∈ nodeNames staged.nodes :=
        stood.mem_nodeNames_iff.mpr (List.mem_cons_of_mem _ (List.mem_map_of_mem member))
      simp only [List.mem_cons, List.not_mem_nil, or_false] at reserved
      rcases reserved with same | same | same
      · obtain ⟨ahead, behind, parts⟩ := List.append_of_mem member
        exact (addable ahead stage behind parts).new (same ▸ List.mem_cons_self)
      · exact newFormatter (same ▸ listed)
      · exact newSink.1 (same ▸ listed)

theorem defect_of_assemble {statementTopic resultTopic : String} {error : BuildError}
    (refused : query.assemble statementTopic resultTopic = .error error) :
    query.Defect error := by
  unfold assemble at refused
  split at refused
  next isRoot =>
    cases refused
    exact .empty (List.head?_eq_none_iff.mp isRoot)
  next root isRoot =>
    have topmost : root ∈ query.stages := List.mem_of_mem_head? isRoot
    rcases bind_eq_error_iff.mp refused with failed | ⟨start, source, steps⟩
    · cases failed
    cases source
    rcases bind_eq_error_iff.mp steps with failed | ⟨staged, stages, steps⟩
    · exact defect_of_foldlM (stands_source _) failed
    have stood := (addable_of_foldlM (stands_source _) stages).1
    have taken : ∀ name ∈ [formatterName, sinkName], name ∈ nodeNames staged.nodes →
        query.Defect (.duplicateNode name) := by
      intro name reserved known
      have other : name ≠ sourceName := by
        rintro rfl
        revert reserved
        decide
      obtain ⟨stage, member, rfl⟩ := List.mem_map.mp
        ((List.mem_cons.mp (stood.mem_nodeNames_iff.mp known)).resolve_left other)
      exact .reserved member (List.mem_cons_of_mem _ reserved)
    rcases bind_eq_error_iff.mp steps with failed | ⟨formatted, formatter, sink⟩
    · rcases addNode_eq_error failed with ⟨known, rfl⟩ | ⟨parent, listed, absent, -⟩
      · exact taken formatterName (by simp) known
      · cases List.mem_singleton.mp listed
        exact absurd (stood.mem_nodeNames_iff.mpr
          (List.mem_cons_of_mem _ (List.mem_map_of_mem topmost))) absent
    · obtain ⟨-, -, rfl⟩ := addNode_eq_ok_iff.mp formatter
      rcases addNode_eq_error sink with ⟨known, rfl⟩ | ⟨parent, listed, absent, -⟩
      · have other : sinkName ∉ [formatterName] := by decide
        rw [nodeNames_append, nodeNames_link, List.mem_append] at known
        exact taken sinkName (by simp) (known.resolve_right other)
      · cases List.mem_singleton.mp listed
        exact absurd (by simp) absent

theorem Defect.not_buildable {error : BuildError} (defect : query.Defect error) :
    ¬query.Buildable := by
  intro buildable
  cases defect with
  | empty none => exact buildable.nonempty none
  | reserved member taken => exact buildable.unreserved _ member taken
  | repeated parts again =>
    have distinct := buildable.distinct
    rw [parts, List.map_append, List.map_cons] at distinct
    exact (List.nodup_cons.mp distinct.of_append_right).1 again
  | unplanned member reads input unknown =>
    obtain ⟨ahead, behind, parts⟩ := List.append_of_mem member
    obtain ⟨id, known, -⟩ := buildable.inputs _ _ _ parts reads _ input
    cases unknown.symm.trans known
  | unfed parts reads input known absent =>
    obtain ⟨id, found, present⟩ := buildable.inputs _ _ _ parts reads _ input
    cases known.symm.trans found
    exact absent present

/-- A query can be assembled just if its stages have names of their own and read from the source or
from stages behind them. If not, the error says what is wrong, and it is never about a store. -/
theorem assembles_iff_buildable (query : CompiledQuery) (statementTopic resultTopic : String) :
    ((∃ topology, query.assemble statementTopic resultTopic = .ok topology) ↔ query.Buildable) ∧
      ∀ error, query.assemble statementTopic resultTopic = .error error →
        query.Defect error ∧ (∀ store processor, error ≠ .unknownProcessor store processor) ∧
          ∀ store, error ≠ .duplicateStore store := by
  refine ⟨⟨fun ⟨_, assembled⟩ => buildable_of_assemble assembled, fun buildable => ?_⟩, ?_⟩
  · cases assembled : query.assemble statementTopic resultTopic with
    | ok topology => exact ⟨topology, rfl⟩
    | error error => exact absurd buildable (defect_of_assemble assembled).not_buildable
  · intro error refused
    have defect := defect_of_assemble refused
    refine ⟨defect, ?_, ?_⟩
    · rintro store processor rfl
      cases defect
    · rintro store rfl
      cases defect

/-- Stages that no tree has: the join reads from the source as well, and twice from the pattern,
whose own input has no stage. -/
def echoStages : List Stage :=
  [⟨⟨0⟩, "x", some .left, .join .natural ⟨["a"], []⟩, [⟨5⟩, ⟨6⟩, ⟨6⟩]⟩,
    ⟨⟨6⟩, "y", none, .pattern ⟨.variable "a", .iri "p", .blank "b"⟩, [⟨9⟩]⟩]

def echoIds : List (NodeId × String) := [(⟨5⟩, sourceName), (⟨6⟩, "y"), (⟨0⟩, "z")]

theorem assembles_iff_buildable_echoStages :
    (CompiledQuery.mk echoStages echoIds).Buildable ∧
      (CompiledQuery.mk echoStages.reverse echoIds).assemble "statements" "results" =
        .error (.unknownParent "x" "y") ∧
      (CompiledQuery.mk echoStages.reverse echoIds).Defect (.unknownParent "x" "y") := by
  have assembled : ((CompiledQuery.mk echoStages echoIds).assemble "statements" "results").isOk =
      true := by
    decide +kernel
  have refused : (CompiledQuery.mk echoStages.reverse echoIds).assemble "statements" "results" =
      .error (.unknownParent "x" "y") := by
    decide +kernel
  refine ⟨?_, refused, ((assembles_iff_buildable _ _ _).2 _ refused).1⟩
  refine (assembles_iff_buildable _ "statements" "results").1.mp ?_
  cases outcome : (CompiledQuery.mk echoStages echoIds).assemble "statements" "results" with
  | ok topology => exact ⟨topology, rfl⟩
  | error error =>
    rw [outcome] at assembled
    cases assembled

end CompiledQuery

end ContinuousQuery
