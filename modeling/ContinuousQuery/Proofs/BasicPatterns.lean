import ContinuousQuery.Proofs.NaturalJoins
import ContinuousQuery.Proofs.SequentialIds

/-!
Basic graph patterns. The chain of joins over triple patterns yields the bindings of exactly
the names of the patterns that make each pattern the triple of a statement. If there are at
least two patterns, each of them is yielded once, however often the statements are repeated.
-/

namespace ContinuousQuery

theorem combineVisibilities_self (visibility : String) :
    combineVisibilities visibility visibility = visibility := if_pos (Or.inr rfl)

theorem PatternTerm.instantiate_congr {pattern : PatternTerm} {first second : Bindings}
    (same : ∀ name, pattern.bindingName? = some name →
      OrderedMap.get? first name = OrderedMap.get? second name) :
    pattern.instantiate first = pattern.instantiate second := by
  cases pattern with
  | «variable» name => exact same name rfl
  | blank label => exact same _ rfl
  | iri value => rfl
  | literal value => rfl

namespace TriplePattern

theorem Becomes.congr {pattern : TriplePattern} {first second : Bindings} {triple : Triple}
    (becomes : pattern.Becomes first triple)
    (same : ∀ name ∈ pattern.bindingNames,
      OrderedMap.get? first name = OrderedMap.get? second name) :
    pattern.Becomes second triple := by
  intro demand asked
  rw [← becomes demand asked]
  refine (PatternTerm.instantiate_congr fun name named => same name ?_).symm
  exact (mem_bindingNames_iff triple).mpr ⟨demand, asked, named⟩

/-- Bindings of exactly the names of patterns, which make each pattern the triple of a statement. -/
structure Matched (patterns : List TriplePattern) (statements : List Statement)
    (bindings : Bindings) : Prop where
  names : ∀ name, name ∈ OrderedMap.names bindings ↔
    ∃ pattern ∈ patterns, name ∈ pattern.bindingNames
  becomes : ∀ pattern ∈ patterns, ∃ statement ∈ statements,
    pattern.Becomes bindings statement.content

theorem Matched.perm {patterns others : List TriplePattern} {statements : List Statement}
    {bindings : Bindings} (matched : Matched patterns statements bindings)
    (permuted : patterns.Perm others) : Matched others statements bindings where
  names := by
    intro name
    rw [matched.names name]
    exact exists_congr fun pattern => and_congr_left fun _ => permuted.mem_iff
  becomes := fun pattern member => matched.becomes pattern (permuted.mem_iff.mpr member)

theorem mem_matches_iff {pattern : TriplePattern} {statements : List Statement}
    {visibility : String} (guarded : ∀ statement ∈ statements, statement.visibility = visibility)
    (solution : Solution) :
    solution ∈ statements.filterMap pattern.matchStatement ↔
      solution.visibility = visibility ∧ Matched [pattern] statements solution.content := by
  rw [List.mem_filterMap]
  constructor
  · intro found
    obtain ⟨statement, known, matched⟩ := found
    obtain ⟨bindings, found, rfl⟩ := Option.map_eq_some_iff.mp matched
    obtain ⟨becomes, names⟩ := matchTriple_eq_some_iff.mp found
    refine ⟨guarded statement known, fun name => ?_, ?_⟩
    · simpa using names name
    · exact List.forall_mem_singleton.mpr ⟨statement, known, becomes⟩
  · intro both
    obtain ⟨visible, matched⟩ := both
    obtain ⟨statement, known, becomes⟩ := matched.becomes pattern List.mem_cons_self
    have found : pattern.matchTriple statement.content = some solution.content :=
      matchTriple_eq_some_iff.mpr ⟨becomes, fun name => by simpa using matched.names name⟩
    refine ⟨statement, known, ?_⟩
    rw [matchStatement, found, Option.map_some, guarded statement known, ← visible]

theorem Matched.restrict {patterns part : List TriplePattern} {statements : List Statement}
    {bindings : Bindings} (matched : Matched patterns statements bindings)
    (subset : ∀ pattern ∈ part, pattern ∈ patterns) :
    Matched part statements (bindings.restrict (part.flatMap bindingNames)) where
  names := by
    intro name
    rw [OrderedMap.mem_names_iff, Bindings.get?_restrict]
    by_cases asked : name ∈ part.flatMap bindingNames
    · obtain ⟨pattern, member, here⟩ := List.mem_flatMap.mp asked
      rw [if_pos asked, ← OrderedMap.mem_names_iff]
      exact iff_of_true ((matched.names name).mpr ⟨pattern, subset pattern member, here⟩)
        ⟨pattern, member, here⟩
    · rw [if_neg asked]
      exact iff_of_false Bool.false_ne_true (fun found => asked (List.mem_flatMap.mpr found))
  becomes := by
    intro pattern member
    obtain ⟨statement, known, becomes⟩ := matched.becomes pattern (subset pattern member)
    refine ⟨statement, known, becomes.congr fun name here => ?_⟩
    rw [Bindings.get?_restrict, if_pos (List.mem_flatMap.mpr ⟨pattern, member, here⟩)]

theorem Matched.append {first second : List TriplePattern} {statements : List Statement}
    {left right merged : Bindings} (onLeft : Matched first statements left)
    (onRight : Matched second statements right) (compatible : Bindings.Compatible left right)
    (look : ∀ name, OrderedMap.get? merged name =
      (OrderedMap.get? left name).or (OrderedMap.get? right name)) :
    Matched (first ++ second) statements merged where
  names := by
    intro name
    have either : name ∈ OrderedMap.names merged ↔
        name ∈ OrderedMap.names left ∨ name ∈ OrderedMap.names right := by
      rw [OrderedMap.mem_names_iff, OrderedMap.mem_names_iff, OrderedMap.mem_names_iff, look]
      cases OrderedMap.get? left name <;> simp
    rw [either, onLeft.names, onRight.names]
    simp only [List.mem_append, or_and_right, exists_or]
  becomes := by
    intro pattern member
    rcases List.mem_append.mp member with inFirst | inSecond
    · obtain ⟨statement, known, becomes⟩ := onLeft.becomes pattern inFirst
      refine ⟨statement, known, becomes.congr fun name asked => ?_⟩
      have bound := OrderedMap.mem_names_iff.mp ((onLeft.names name).mpr ⟨pattern, inFirst, asked⟩)
      obtain ⟨term, found⟩ := Option.isSome_iff_exists.mp bound
      rw [look, found, Option.some_or]
    · obtain ⟨statement, known, becomes⟩ := onRight.becomes pattern inSecond
      refine ⟨statement, known, becomes.congr fun name asked => ?_⟩
      have bound := OrderedMap.mem_names_iff.mp
        ((onRight.names name).mpr ⟨pattern, inSecond, asked⟩)
      obtain ⟨term, found⟩ := Option.isSome_iff_exists.mp bound
      rw [look, found]
      cases other : OrderedMap.get? left name with
      | none => rfl
      | some value => rw [Option.some_or, compatible name value term other found]

theorem Matched.join_restrict {first second : List TriplePattern} {statements : List Statement}
    {solution : Solution} (matched : Matched (first ++ second) statements solution.content) :
    Solution.join
        ⟨Bindings.restrict (first.flatMap bindingNames) solution.content, solution.visibility⟩
        ⟨Bindings.restrict (second.flatMap bindingNames) solution.content, solution.visibility⟩ =
      some solution := by
  have kept : ∀ names name term,
      OrderedMap.get? (Bindings.restrict names solution.content) name = some term →
        OrderedMap.get? solution.content name = some term := by
    intro names name term found
    rw [Bindings.get?_restrict] at found
    split at found
    next => exact found
    next => cases found
  rw [Solution.join_eq_some_iff]
  refine ⟨fun name left right onLeft onRight => ?_, fun name => ?_, ?_⟩
  · exact Option.some.inj ((kept _ name left onLeft).symm.trans (kept _ name right onRight))
  · rw [Bindings.get?_restrict, Bindings.get?_restrict]
    by_cases inFirst : name ∈ first.flatMap bindingNames
    · rw [if_pos inFirst]
      cases found : OrderedMap.get? solution.content name with
      | some term => rfl
      | none => simp
    · by_cases inSecond : name ∈ second.flatMap bindingNames
      · rw [if_neg inFirst, if_pos inSecond, Option.none_or]
      · rw [if_neg inFirst, if_neg inSecond, Option.none_or, OrderedMap.get?_eq_none_iff,
          matched.names]
        intro found
        obtain ⟨pattern, member, asked⟩ := found
        rcases List.mem_append.mp member with here | here
        · exact inFirst (List.mem_flatMap.mpr ⟨pattern, here, asked⟩)
        · exact inSecond (List.mem_flatMap.mpr ⟨pattern, here, asked⟩)
  · exact (combineVisibilities_self _).symm

theorem mem_joinDistinct_iff {first second : List TriplePattern} {statements : List Statement}
    {visibility : String} {lefts rights : List Solution}
    (onLeft : ∀ solution : Solution, solution ∈ lefts ↔
      solution.visibility = visibility ∧ Matched first statements solution.content)
    (onRight : ∀ solution : Solution, solution ∈ rights ↔
      solution.visibility = visibility ∧ Matched second statements solution.content)
    (solution : Solution) :
    solution ∈ Solution.joinDistinct lefts rights ↔
      solution.visibility = visibility ∧ Matched (first ++ second) statements solution.content := by
  rw [Solution.mem_joinDistinct]
  constructor
  · intro found
    obtain ⟨left, leftMember, right, rightMember, same⟩ := found
    obtain ⟨leftVisible, leftMatched⟩ := (onLeft left).mp leftMember
    obtain ⟨rightVisible, rightMatched⟩ := (onRight right).mp rightMember
    obtain ⟨compatible, look, visible⟩ := Solution.join_eq_some_iff.mp same
    refine ⟨?_, leftMatched.append rightMatched compatible look⟩
    rw [visible, leftVisible, rightVisible, combineVisibilities_self]
  · intro both
    obtain ⟨visible, matched⟩ := both
    have inFirst : Matched first statements
        (Bindings.restrict (first.flatMap bindingNames) solution.content) :=
      matched.restrict fun _ => List.mem_append_left _
    have inSecond : Matched second statements
        (Bindings.restrict (second.flatMap bindingNames) solution.content) :=
      matched.restrict fun _ => List.mem_append_right _
    exact ⟨⟨Bindings.restrict (first.flatMap bindingNames) solution.content, solution.visibility⟩,
      (onLeft _).mpr ⟨visible, inFirst⟩,
      ⟨Bindings.restrict (second.flatMap bindingNames) solution.content, solution.visibility⟩,
      (onRight _).mpr ⟨visible, inSecond⟩, matched.join_restrict⟩

end TriplePattern

namespace Solution

/-- Solutions that are seen by the same readers and bind the same names. -/
def Alike (solutions : List Solution) : Prop :=
  ∀ first ∈ solutions, ∀ second ∈ solutions, first.visibility = second.visibility ∧
    ∀ name, name ∈ OrderedMap.names first.content ↔ name ∈ OrderedMap.names second.content

theorem Alike.eq_of_get? {solutions : List Solution} (alike : Alike solutions)
    {first second joined : Solution} (firstMember : first ∈ solutions)
    (secondMember : second ∈ solutions)
    (fromFirst : ∀ name term, OrderedMap.get? first.content name = some term →
      OrderedMap.get? joined.content name = some term)
    (fromSecond : ∀ name term, OrderedMap.get? second.content name = some term →
      OrderedMap.get? joined.content name = some term) : first = second := by
  obtain ⟨visible, names⟩ := alike first firstMember second secondMember
  have content : first.content = second.content := by
    apply OrderedMap.ext_get?
    intro name
    cases onFirst : OrderedMap.get? first.content name with
    | none =>
      have unbound := mt (names name).mpr (OrderedMap.get?_eq_none_iff.mp onFirst)
      exact (OrderedMap.get?_eq_none_iff.mpr unbound).symm
    | some term =>
      have bound : name ∈ OrderedMap.names first.content := by
        rw [OrderedMap.mem_names_iff, onFirst]
        rfl
      obtain ⟨other, onSecond⟩ :=
        Option.isSome_iff_exists.mp (OrderedMap.mem_names_iff.mp ((names name).mp bound))
      rw [onSecond, ← fromFirst name term onFirst, ← fromSecond name other onSecond]
  cases first
  cases second
  cases content
  cases visible
  rfl

theorem alike_of_matched {patterns : List TriplePattern} {statements : List Statement}
    {visibility : String} {solutions : List Solution}
    (matched : ∀ solution : Solution, solution ∈ solutions ↔ solution.visibility = visibility ∧
      TriplePattern.Matched patterns statements solution.content) : Alike solutions := by
  intro first firstMember second secondMember
  obtain ⟨firstVisible, firstMatched⟩ := (matched first).mp firstMember
  obtain ⟨secondVisible, secondMatched⟩ := (matched second).mp secondMember
  refine ⟨firstVisible.trans secondVisible.symm, fun name => ?_⟩
  rw [firstMatched.names, secondMatched.names]

theorem nodup_joinDistinct {lefts rights : List Solution} (left : Alike lefts)
    (right : Alike rights) : (joinDistinct lefts rights).Nodup := by
  have fromLeft : ∀ {first second joined : Solution}, join first second = some joined →
      ∀ name term, OrderedMap.get? first.content name = some term →
        OrderedMap.get? joined.content name = some term := by
    intro first second joined same name term found
    rw [(join_eq_some_iff.mp same).2.1, found, Option.some_or]
  have fromRight : ∀ {first second joined : Solution}, join first second = some joined →
      ∀ name term, OrderedMap.get? second.content name = some term →
        OrderedMap.get? joined.content name = some term := by
    intro first second joined same name term found
    obtain ⟨compatible, look, -⟩ := join_eq_some_iff.mp same
    rw [look, found]
    cases other : OrderedMap.get? first.content name with
    | none => rfl
    | some value => rw [Option.some_or, compatible name value term other found]
  rw [joinDistinct_eq_flatMap, List.nodup_flatMap]
  constructor
  · intro first _
    rw [List.Nodup, List.pairwise_filterMap]
    apply (List.nodup_dedup rights).imp_of_mem
    intro second other secondMember otherMember different joined same again otherSame equal
    exact different (right.eq_of_get? (List.mem_dedup.mp secondMember)
      (List.mem_dedup.mp otherMember) (fromRight same) (fromRight (equal ▸ otherSame)))
  · apply (List.nodup_dedup lefts).imp_of_mem
    intro first other firstMember otherMember different joined inFirst inOther
    obtain ⟨second, -, same⟩ := List.mem_filterMap.mp inFirst
    obtain ⟨partner, -, otherSame⟩ := List.mem_filterMap.mp inOther
    exact different (left.eq_of_get? (List.mem_dedup.mp firstMember)
      (List.mem_dedup.mp otherMember) (fromLeft same) (fromLeft otherSame))

end Solution

namespace Algebra

variable {ι : Type}

theorem solutions_unlabelled (statements : List Statement) (algebra : Algebra ι) :
    algebra.unlabelled.solutions statements = algebra.solutions statements := by
  induction algebra with
  | pattern label triple => rfl
  | unary label kind operand ih =>
    cases kind <;> simp only [unlabelled, solutions, ih]
  | binary label kind left right leftIh rightIh =>
    cases kind <;> simp only [unlabelled, solutions, leftIh, rightIh]
  | unsupported label name => rfl

theorem innerJoins_unlabelled (algebra : Algebra ι) :
    algebra.unlabelled.InnerJoins ↔ algebra.InnerJoins := by
  induction algebra with
  | pattern label triple => rfl
  | unary label kind operand ih => exact ih
  | binary label kind left right leftIh rightIh =>
    simp only [unlabelled, InnerJoins, leftIh, rightIh]
  | unsupported label name => rfl

theorem supported_unlabelled (algebra : Algebra ι) :
    algebra.unlabelled.Supported ↔ algebra.Supported := by
  fun_induction Supported algebra with
  | case1 label triple => rfl
  | case2 label names inner elements operand ih => exact ih
  | case3 label names operand others ih =>
    rw [← ih]
    cases operand with
    | unary inner kind below =>
      cases kind with
      | rebinding elements => exact absurd rfl (others inner elements below)
      | projection kept => rfl
      | filter => rfl
    | pattern => rfl
    | binary => rfl
    | unsupported => rfl
  | case4 label kind left right leftIh rightIh =>
    simp only [unlabelled, Supported, leftIh, rightIh]
  | case5 refused notPattern notRebinding notProjection notBinary =>
    cases refused with
    | pattern label triple => exact (notPattern label triple rfl).elim
    | unary label kind operand =>
      cases kind with
      | projection names => exact (notProjection label names operand rfl).elim
      | rebinding elements => exact Iff.rfl
      | filter => exact Iff.rfl
    | binary label kind left right => exact (notBinary label kind left right rfl).elim
    | unsupported label name => exact Iff.rfl

end Algebra

namespace GraphPattern

variable {patterns : List TriplePattern} {statements : List Statement} {visibility : String}

theorem chain_innerJoins (patterns : List TriplePattern) : (chain patterns).InnerJoins := by
  induction patterns using List.reverseRecOn with
  | nil => trivial
  | append_singleton before last ih =>
    by_cases nonempty : before = []
    · subst nonempty
      trivial
    · rw [chain_concat nonempty]
      exact ⟨rfl, ih, trivial⟩

theorem chain_supported (nonempty : patterns ≠ []) : (chain patterns).Supported := by
  induction patterns using List.reverseRecOn with
  | nil => exact absurd rfl nonempty
  | append_singleton before last ih =>
    by_cases single : before = []
    · subst single
      trivial
    · rw [chain_concat single]
      exact ⟨rfl, ih single, trivial⟩

theorem mem_solutions_chain
    (guarded : ∀ statement ∈ statements, statement.visibility = visibility)
    (nonempty : patterns ≠ []) (solution : Solution) :
    solution ∈ (chain patterns).solutions statements ↔
      solution.visibility = visibility ∧ TriplePattern.Matched patterns statements solution.content := by
  induction patterns using List.reverseRecOn generalizing solution with
  | nil => exact absurd rfl nonempty
  | append_singleton before last ih =>
    by_cases single : before = []
    · subst single
      exact TriplePattern.mem_matches_iff guarded solution
    · rw [chain_concat single]
      exact TriplePattern.mem_joinDistinct_iff (ih single)
        (TriplePattern.mem_matches_iff guarded) solution

theorem nodup_solutions_chain
    (guarded : ∀ statement ∈ statements, statement.visibility = visibility)
    (several : 2 ≤ patterns.length) : ((chain patterns).solutions statements).Nodup := by
  induction patterns using List.reverseRecOn with
  | nil => cases several
  | append_singleton before last _ =>
    have nonempty : before ≠ [] := by
      intro single
      subst single
      rw [List.nil_append, List.length_singleton] at several
      omega
    rw [chain_concat nonempty]
    exact Solution.nodup_joinDistinct
      (Solution.alike_of_matched (mem_solutions_chain guarded nonempty))
      (Solution.alike_of_matched (TriplePattern.mem_matches_iff guarded))

end GraphPattern

namespace Tree

open ContinuousQuery.Topology

/-- A query of several triple patterns can be compiled and assembled in whatever order they are
written. Under one visibility, a session with it reads each match of the patterns once. -/
theorem basic_pattern_sessions {patterns : List TriplePattern} (several : 2 ≤ patterns.length)
    {visibility : String} {actions : List Action}
    (guarded : ∀ statement ∈ Action.statements actions, statement.visibility = visibility)
    (free : ∀ statement ∈ Action.statements actions, statement.content.SeparatorFree)
    (others : List TriplePattern) (permuted : others.Perm patterns) :
    (∀ count statementTopic resultTopic, ∃ query topology,
      (ofGraphPattern (.basic others)).compile .sequential count = .ok query ∧
        query.assemble statementTopic resultTopic = .ok topology) ∧
      ∀ {σ : Type} (source : IdSource σ) (state : σ) (query : CompiledQuery)
        (statementTopic resultTopic : String) (topology : Topology),
        (ofGraphPattern (.basic others)).compile source state = .ok query →
        query.assemble statementTopic resultTopic = .ok topology →
          (∀ answer ∈ (topology.converse actions topology.start).1, answer.Succeeded) ∧
            (topology.sessionResults actions).Nodup ∧
            ∀ solution, solution ∈ topology.sessionResults actions ↔
              solution.visibility = visibility ∧
                TriplePattern.Matched patterns (Action.statements actions) solution.content := by
  have many : 2 ≤ others.length := permuted.length_eq ▸ several
  have nonempty : others ≠ [] := List.ne_nil_of_length_pos (by omega)
  have built := built_ofGraphPattern (.basic others)
  obtain ⟨algebra, whole, same⟩ := algebra?_ofGraphPattern (.basic others)
  have chained : algebra.unlabelled = GraphPattern.chain others := same
  constructor
  · intro count statementTopic resultTopic
    have supported : algebra.Supported := by
      rw [← algebra.supported_unlabelled, chained]
      exact GraphPattern.chain_supported nonempty
    obtain ⟨query, compiled, assembles⟩ :=
      compile_sequential built.consistent whole supported count
    obtain ⟨topology, assembled⟩ := assembles statementTopic resultTopic
    exact ⟨query, topology, compiled, assembled⟩
  · intro σ source state query statementTopic resultTopic topology compiled assembled
    obtain ⟨found, plan, known, plans, succeeded, results⟩ :=
      converse_assembled built compiled assembled actions
    cases whole.symm.trans known
    have inner : algebra.InnerJoins := by
      rw [← algebra.innerJoins_unlabelled, chained]
      exact GraphPattern.chain_innerJoins others
    have emitted := plans.run_perm_solutions inner free
    rw [← algebra.solutions_unlabelled, chained, ← results] at emitted
    refine ⟨succeeded, ?_, fun solution => ?_⟩
    · exact emitted.nodup_iff.mpr (GraphPattern.nodup_solutions_chain guarded many)
    · rw [emitted.mem_iff, GraphPattern.mem_solutions_chain guarded nonempty]
      exact and_congr_right fun _ =>
        ⟨fun matched => matched.perm permuted, fun matched => matched.perm permuted.symm⟩

/-- Pairs that are linked both ways, where the way back leads from a blank node of the query. -/
def bothWays : List TriplePattern :=
  [⟨.variable "a", .iri "p", .blank "b"⟩, ⟨.blank "b", .iri "p", .variable "a"⟩]

def bothWaysQuery : CompiledQuery :=
  ((ofGraphPattern (.basic bothWays.reverse)).compile .sequential 0).toOption.getD ⟨[], []⟩

def bothWaysTopology : Topology :=
  (bothWaysQuery.assemble "statements" "results").toOption.getD Topology.empty

def bothWaysActions : List Action :=
  [.pipe ⟨⟨.iri "x", "p", .iri "y"⟩, "v"⟩, .pipe ⟨⟨.iri "y", "p", .iri "x"⟩, "v"⟩, .read,
    .pipe ⟨⟨.iri "x", "p", .iri "y"⟩, "v"⟩, .pipe ⟨⟨.iri "x", "p", .iri "x"⟩, "v"⟩]

theorem basic_pattern_sessions_bothWays :
    (∀ answer ∈ (bothWaysTopology.converse bothWaysActions bothWaysTopology.start).1,
      answer.Succeeded) ∧
      (bothWaysTopology.sessionResults bothWaysActions).Nodup ∧
      ∀ solution, solution ∈ bothWaysTopology.sessionResults bothWaysActions ↔
        solution.visibility = "v" ∧ TriplePattern.Matched bothWays
          (Action.statements bothWaysActions) solution.content := by
  have several : 2 ≤ bothWays.length := by decide
  have compiled : (ofGraphPattern (.basic bothWays.reverse)).compile .sequential 0 =
      .ok bothWaysQuery := by
    decide +kernel
  have assembled : bothWaysQuery.assemble "statements" "results" = .ok bothWaysTopology := by
    decide +kernel
  exact (basic_pattern_sessions several (by decide) (by decide) bothWays.reverse
    bothWays.reverse_perm).2 .sequential 0 bothWaysQuery "statements" "results" bothWaysTopology
      compiled assembled

end Tree

end ContinuousQuery
