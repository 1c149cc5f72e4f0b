import ContinuousQuery.Proofs.Compilation

/-!
Operators with a processor, and sequential ids. A compilation visits an operator without a
processor if there is one. Sequential ids end with different numbers, so no id is given twice, and
their prefixes keep them apart from the names of the other nodes. So a tree whose operators all
have a processor can always be compiled and assembled with them.
-/

namespace ContinuousQuery

namespace Algebra

variable {ι : Type}

/-- All operators have a processor, if rebindings stand below projections only. -/
def Supported : Algebra ι → Prop
  | .pattern _ _ => True
  | .unary _ (.projection _) (.unary _ (.rebinding _) operand) => operand.Supported
  | .unary _ (.projection _) operand => operand.Supported
  | .binary _ kind left right => kind.joinType?.isSome ∧ left.Supported ∧ right.Supported
  | _ => False

/-- The operators that need a stage of their own, each before those below it and left before
right. A projection does the work of a rebinding right below it. -/
def operators : Algebra ι → List (Algebra ι)
  | whole@(.unary _ (.projection _) (.unary _ (.rebinding _) operand)) =>
    whole :: operand.operators
  | whole@(.unary _ _ operand) => whole :: operand.operators
  | whole@(.binary _ _ left right) => whole :: (left.operators ++ right.operators)
  | leaf => [leaf]

theorem isSome_stageKind?_binary (node : ι) (kind : BinaryKind) (left right : Algebra ι) :
    (binary node kind left right).stageKind?.isSome = kind.joinType?.isSome := by
  cases kind with
  | leftOuterJoin filtered => cases filtered <;> rfl
  | _ => rfl

theorem supported_projection {algebra : Algebra ι}
    (other : ∀ label elements operand, algebra ≠ unary label (.rebinding elements) operand)
    (label : ι) (names : List String) :
    (unary label (.projection names) algebra).Supported ↔ algebra.Supported := by
  rw [Supported]
  exact other

theorem supported_iff (algebra : Algebra ι) :
    algebra.Supported ↔ ∀ operator ∈ algebra.operators, operator.stageKind?.isSome := by
  fun_induction operators algebra with
  | case1 node names below elements operand ih =>
    rw [List.forall_mem_cons, ← ih]
    exact (and_iff_right rfl).symm
  | case2 node kind operand others ih =>
    rw [List.forall_mem_cons, ← ih]
    cases kind with
    | projection names =>
      have below : (unary node (.projection names) operand).Supported ↔ operand.Supported :=
        supported_projection (fun inner elements lower => others names inner elements lower rfl) ..
      exact below.trans (and_iff_right rfl).symm
    | rebinding elements => simp [Supported, stageKind?]
    | filter => simp [Supported, stageKind?]
  | case3 node kind left right leftIh rightIh =>
    rw [List.forall_mem_cons, List.forall_mem_append, ← leftIh, ← rightIh,
      isSome_stageKind?_binary]
    exact Iff.rfl
  | case4 leaf notFolded notUnary notBinary =>
    rw [List.forall_mem_singleton]
    cases leaf with
    | pattern node triple => simp [Supported, stageKind?]
    | unary node kind operand => exact (notUnary node kind operand rfl).elim
    | binary node kind left right => exact (notBinary node kind left right rfl).elim
    | unsupported node name => simp [Supported, stageKind?]

/-- Nothing is visited below a refusal, but an operator that is refused comes first anyway. -/
theorem find?_visits (algebra : Algebra ι) :
    algebra.visits.find? (fun operator => operator.stageKind?.isNone) =
      algebra.operators.find? (fun operator => operator.stageKind?.isNone) := by
  fun_induction visits algebra with
  | case1 node names below elements operand ih =>
    rw [operators, List.find?_cons, List.find?_cons, ih]
  | case2 node names operand others ih =>
    rw [operators, List.find?_cons, List.find?_cons, ih]
    exact fun _ below elements inner _ => others below elements inner
  | case3 node left right leftIh rightIh =>
    rw [operators, List.find?_cons, List.find?_cons, List.find?_append, List.find?_append,
      leftIh, rightIh]
  | case4 node left right leftIh rightIh =>
    rw [operators, List.find?_cons, List.find?_cons, List.find?_append, List.find?_append,
      leftIh, rightIh]
  | case5 other notRebinding notProjection notNatural notOptional =>
    cases other with
    | pattern node triple => rfl
    | unary node kind operand =>
      cases kind with
      | projection names => exact absurd rfl (notProjection node names operand)
      | _ => rfl
    | binary node kind left right =>
      cases kind with
      | naturalJoin => exact absurd rfl (notNatural node left right)
      | leftOuterJoin filtered =>
        cases filtered with
        | false => exact absurd rfl (notOptional node left right)
        | true => rfl
      | _ => rfl
    | unsupported node name => rfl

theorem supported_iff_visits (algebra : Algebra ι) :
    algebra.Supported ↔ ∀ operator ∈ algebra.visits, operator.stageKind?.isSome := by
  have known : ∀ operators : List (Algebra ι),
      operators.find? (fun operator => operator.stageKind?.isNone) = none ↔
        ∀ operator ∈ operators, operator.stageKind?.isSome := by
    intro operators
    simp [Option.isSome_iff_ne_none]
  rw [supported_iff, ← known, ← known, find?_visits]

end Algebra

namespace IdSource

theorem counted_ne (kind : StageKind) (count : Nat) :
    counted kind count ≠ Topology.sourceName ∧ counted kind count ≠ Topology.formatterName ∧
      counted kind count ≠ Topology.sinkName := by
  refine ⟨fun same => ?_, fun same => ?_, fun same => ?_⟩ <;>
    have chars := congrArg String.toList same <;>
    cases kind <;>
    simp [counted, StageKind.idPrefix, Topology.sourceName, Topology.formatterName,
      Topology.sinkName] at chars

end IdSource

namespace Tree

theorem compile_sequential {tree : Tree} (consistent : tree.Consistent)
    {algebra : Algebra NodeId} (whole : tree.algebra? = some algebra)
    (supported : algebra.Supported) (count : Nat) :
    ∃ query, tree.compile .sequential count = .ok query ∧
      ∀ statementTopic resultTopic, ∃ topology,
        query.assemble statementTopic resultTopic = .ok topology := by
  have accepts : Compilation.Accepts .sequential count algebra.visits :=
    ⟨algebra.supported_iff_visits.mp supported, IdSource.nodup_draw_sequential _ count⟩
  obtain ⟨represents, -⟩ := algebra?_eq_some_iff.mp whole
  have goes := Compilation.outcome_compileFrom whole (consistent.nodup_visits represents)
    .sequential count
  obtain ⟨query, compiled⟩ := goes.exists_query_iff.mpr accepts
  obtain ⟨found, plan, -, -, follows⟩ := follows_of_compile consistent compiled
  have ids : plan.ids = Compilation.drawn .sequential count algebra.visits := by
    rw [← StageTree.ids_stages none plan, ← follows.stages, (goes.records query compiled).ids]
  have apart : ∀ name, (∀ kind count, IdSource.counted kind count ≠ name) → name ∉ plan.ids := by
    intro name different member
    rw [ids, Compilation.drawn, IdSource.draw_sequential] at member
    obtain ⟨index, inside, same⟩ := List.mem_mapIdx.mp member
    exact different _ _ same
  have distinct : (Topology.sourceName :: Topology.formatterName :: Topology.sinkName ::
      plan.ids).Nodup := by
    apply Topology.nodup_ends.mpr
    exact ⟨apart _ fun kind count => (IdSource.counted_ne kind count).1,
      apart _ fun kind count => (IdSource.counted_ne kind count).2.1,
      apart _ fun kind count => (IdSource.counted_ne kind count).2.2, follows.distinct⟩
  exact ⟨_, compiled, fun statementTopic resultTopic =>
    ⟨_, CompiledQuery.assemble_eq_ok follows distinct statementTopic resultTopic⟩⟩

end Tree

end ContinuousQuery
