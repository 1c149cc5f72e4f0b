import ContinuousQuery.Proofs.BasicPatterns
import ContinuousQuery.Proofs.SequentialIds

/-!
Which graph patterns can be evaluated over a stream. They form a grammar: basic patterns that are
not empty, joins and unfiltered optional parts of such patterns, and their projections, which may
copy names and constants. Lowering and compilation together accept exactly this grammar, and a
refusal names the topmost and leftmost operator that no stage does the work of.
-/

namespace ContinuousQuery

namespace GraphPattern

/-- The patterns that can be evaluated over a stream. -/
inductive Streamable : GraphPattern → Prop
  | basic {patterns : List TriplePattern} (nonempty : patterns ≠ []) :
      Streamable (.basic patterns)
  | join {left right : GraphPattern} (first : Streamable left) (second : Streamable right) :
      Streamable (.join left right)
  | leftJoin {left right : GraphPattern} (first : Streamable left) (second : Streamable right) :
      Streamable (.leftJoin left right false)
  | project {inner : GraphPattern} {names : List String} (below : Streamable inner) :
      Streamable (.project inner names)
  | projectCopies {inner : GraphPattern} {elements : List Projection.Element}
      {names : List String} (nonempty : elements ≠ []) (below : Streamable inner) :
      Streamable (.project (inner.copying elements) names)

theorem Streamable.not_extend {pattern : GraphPattern} (streamable : pattern.Streamable) :
    pattern.isExtend = false := by
  cases streamable <;> rfl

theorem toAlgebra_ne_rebinding {pattern : GraphPattern} (other : pattern.isExtend = false) :
    ∀ label elements operand, pattern.toAlgebra ≠ .unary label (.rebinding elements) operand := by
  intro label elements operand same
  cases pattern with
  | basic patterns =>
    by_cases empty : patterns = []
    · subst empty
      cases same
    · have supported : (basic patterns).toAlgebra.Supported := chain_supported empty
      rw [same] at supported
      exact supported
  | extend inner name source => cases other
  | _ => cases same

theorem Streamable.supported {pattern : GraphPattern} (streamable : pattern.Streamable) :
    pattern.toAlgebra.Supported := by
  induction streamable with
  | basic nonempty => exact chain_supported nonempty
  | join _ _ first second => exact ⟨rfl, first, second⟩
  | leftJoin _ _ first second => exact ⟨rfl, first, second⟩
  | project below ih =>
    exact (Algebra.supported_projection (toAlgebra_ne_rebinding below.not_extend) ..).mpr ih
  | projectCopies nonempty below ih =>
    rw [toAlgebra, toAlgebra_copying below.not_extend nonempty]
    exact ih

theorem not_supported_of_isExtend {pattern : GraphPattern} (extension : pattern.isExtend = true) :
    ¬ pattern.toAlgebra.Supported := by
  intro supported
  rcases copies_or_computes_of_isExtend extension with ⟨elements, nonempty, same⟩ | computing
  · rw [same, toAlgebra_copying pattern.isExtend_base nonempty] at supported
    exact supported
  · rw [toAlgebra_of_computes computing] at supported
    exact supported

theorem streamable_project {inner : GraphPattern} {names : List String}
    (supported : (inner.project names).toAlgebra.Supported)
    (below : inner.base.toAlgebra.Supported → inner.base.Streamable) :
    (inner.project names).Streamable := by
  rw [toAlgebra] at supported
  cases extension : inner.isExtend with
  | false =>
    rw [base_of_not_extend extension] at below
    rw [Algebra.supported_projection (toAlgebra_ne_rebinding extension)] at supported
    exact .project (below supported)
  | true =>
    rcases copies_or_computes_of_isExtend extension with ⟨elements, nonempty, same⟩ | computing
    · rw [same, toAlgebra_copying inner.isExtend_base nonempty] at supported
      rw [same]
      exact .projectCopies nonempty (below supported)
    · rw [toAlgebra_of_computes computing] at supported
      exact supported.elim

/-- The induction needs the pattern below all extensions as well, since a projection may stand
above them while they are not streamable alone. -/
theorem streamable_of_supported (pattern : GraphPattern) :
    (pattern.toAlgebra.Supported → pattern.Streamable) ∧
      (pattern.base.toAlgebra.Supported → pattern.base.Streamable) := by
  induction pattern with
  | basic patterns =>
    have whole : (basic patterns).toAlgebra.Supported → (basic patterns).Streamable := by
      intro supported
      refine .basic fun empty => ?_
      subst empty
      exact supported
    exact ⟨whole, whole⟩
  | join left right leftIh rightIh =>
    have whole : (join left right).toAlgebra.Supported → (join left right).Streamable :=
      fun supported => .join (leftIh.1 supported.2.1) (rightIh.1 supported.2.2)
    exact ⟨whole, whole⟩
  | leftJoin left right filtered leftIh rightIh =>
    have whole : (leftJoin left right filtered).toAlgebra.Supported →
        (leftJoin left right filtered).Streamable := by
      intro supported
      obtain ⟨joins, first, second⟩ := supported
      cases filtered with
      | false => exact .leftJoin (leftIh.1 first) (rightIh.1 second)
      | true => cases joins
    exact ⟨whole, whole⟩
  | project inner names ih =>
    have whole : (inner.project names).toAlgebra.Supported → (inner.project names).Streamable :=
      fun supported => streamable_project supported ih.2
    exact ⟨whole, whole⟩
  | extend inner name source ih =>
    exact ⟨fun supported => absurd supported (not_supported_of_isExtend rfl), ih.2⟩
  | union | minus =>
    refine ⟨fun supported => ?_, fun supported => ?_⟩ <;>
    · obtain ⟨joins, -⟩ := supported
      cases joins
  | _ => exact ⟨False.elim, False.elim⟩

theorem supported_toAlgebra_iff (pattern : GraphPattern) :
    pattern.toAlgebra.Supported ↔ pattern.Streamable :=
  ⟨pattern.streamable_of_supported.1, Streamable.supported⟩

end GraphPattern

namespace Tree

/-- With sequential ids exactly the streamable patterns can be compiled, and then assembled. Any
other is refused at the first operator from the root downwards that no stage does the work of. -/
theorem compile_graphPattern (pattern : GraphPattern) (count : Nat) :
    ((∃ query, (ofGraphPattern pattern).compile .sequential count = .ok query) ↔
      pattern.Streamable) ∧
    (∀ query, (ofGraphPattern pattern).compile .sequential count = .ok query →
      ∀ statementTopic resultTopic, ∃ topology,
        query.assemble statementTopic resultTopic = .ok topology) ∧
    ∃ root, (ofGraphPattern pattern).root? = some root.label ∧
      (ofGraphPattern pattern).Represents root ∧
      ∀ error, (ofGraphPattern pattern).compile .sequential count = .error error →
        ∃ offender,
          root.operators.find? (fun operator => operator.stageKind?.isNone) = some offender ∧
          error = .unsupportedOperator offender.label offender.operator.name := by
  obtain ⟨root, whole, same⟩ := algebra?_ofGraphPattern pattern
  have consistent := (built_ofGraphPattern pattern).consistent
  obtain ⟨represents, top⟩ := algebra?_eq_some_iff.mp whole
  have goes := Compilation.outcome_compileFrom whole (consistent.nodup_visits represents)
    .sequential count
  have supported : root.Supported ↔ pattern.Streamable := by
    rw [← root.supported_unlabelled, same, pattern.supported_toAlgebra_iff]
  have accepted : ∀ query, (ofGraphPattern pattern).compile .sequential count = .ok query →
      root.Supported := by
    intro query done
    exact root.supported_iff_visits.mpr (goes.exists_query_iff.mp ⟨query, done⟩).supported
  refine ⟨⟨?_, ?_⟩, ?_, root, top, represents, ?_⟩
  · rintro ⟨query, done⟩
    exact supported.mp (accepted query done)
  · intro streamable
    obtain ⟨query, done, -⟩ :=
      compile_sequential consistent whole (supported.mpr streamable) count
    exact ⟨query, done⟩
  · intro query done
    obtain ⟨other, again, assembles⟩ :=
      compile_sequential consistent whole (accepted query done) count
    cases done.symm.trans again
    exact assembles
  · intro error failed
    cases error with
    | emptyAlgebraTree => exact absurd failed (Compilation.compile_ne_empty whole)
    | duplicateStageId id => exact absurd failed (goes.ne_duplicate id)
    | unsupportedOperator node name =>
      obtain ⟨before, refused, after, parts, accepts, unknown, rfl, rfl, -⟩ :=
        (goes.unsupported node name _).mp (Prod.ext failed rfl)
      refine ⟨refused, ?_, rfl⟩
      rw [← root.find?_visits]
      refine List.find?_eq_some_iff_append.mpr
        ⟨Option.isNone_iff_eq_none.mpr unknown, before, after, parts, fun operator member => ?_⟩
      rw [Option.not_isNone]
      exact accepts.supported operator member

example :
    (ofGraphPattern (.project (.join (.basic [⟨.variable "a", .iri "p", .variable "b"⟩])
      (.union (.filter (.values ["a"])) (.distinct (.values ["a"])))) ["a"])).compile
        .sequential 0 = .error (.unsupportedOperator ⟨4⟩ "Union") := by
  decide +kernel

end Tree

end ContinuousQuery
