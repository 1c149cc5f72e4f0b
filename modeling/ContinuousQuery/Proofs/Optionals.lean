import ContinuousQuery.Proofs.NaturalJoins

/-!
Trees with optional parts. A left outer join cannot wait for the partner of a solution, so it
may yield a solution bare that finds a partner later, and it never takes a result back. All
that a session reads is explained by keeping every left solution bare. If no optional part lies
inside another, all solutions of the query are read as well, whatever else is read.
-/

namespace ContinuousQuery

def Projection.Source.constant? : Projection.Source → Option Term
  | .constant term => some term
  | .binding _ => none

namespace Algebra

variable {ι : Type}

/-- No left outer join lies inside the right operand of a left outer join. -/
def FlatOptionals : Algebra ι → Prop
  | .pattern _ _ | .unsupported _ _ => True
  | .unary _ _ operand => operand.FlatOptionals
  | .binary _ (.leftOuterJoin _) left right => left.FlatOptionals ∧ right.Mandatory
  | .binary _ _ left right => left.FlatOptionals ∧ right.FlatOptionals

def constants : Algebra ι → List Term
  | .pattern _ _ | .unsupported _ _ => []
  | .unary _ (.rebinding elements) operand =>
    elements.filterMap (·.source.constant?) ++ operand.constants
  | .unary _ _ operand => operand.constants
  | .binary _ _ left right => left.constants ++ right.constants

/-- No operand of a join has both a left outer join and a constant with the separator of keys. -/
def KeySafe : Algebra ι → Prop
  | .pattern _ _ | .unsupported _ _ => True
  | .unary _ _ operand => operand.KeySafe
  | .binary _ _ left right =>
    ((left.Mandatory ∨ ∀ term ∈ left.constants, term.SeparatorFree) ∧ left.KeySafe) ∧
      (right.Mandatory ∨ ∀ term ∈ right.constants, term.SeparatorFree) ∧ right.KeySafe

theorem keySafe_of_constants {algebra : Algebra ι}
    (free : ∀ term ∈ algebra.constants, term.SeparatorFree) : algebra.KeySafe := by
  induction algebra with
  | pattern => trivial
  | unary label kind operand ih =>
    cases kind with
    | projection names => exact ih free
    | rebinding elements => exact ih (List.forall_mem_append.mp free).2
    | filter => exact ih free
  | binary label kind left right leftIh rightIh =>
    obtain ⟨onLeft, onRight⟩ := List.forall_mem_append.mp free
    exact ⟨⟨.inr onLeft, leftIh onLeft⟩, .inr onRight, rightIh onRight⟩
  | unsupported => trivial

/-- Different solutions of the operand of a join have different keys at the join. -/
def KeysDiffer (statements : Set Statement) : Algebra ι → Prop
  | .pattern _ _ | .unsupported _ _ => True
  | .unary _ _ operand => operand.KeysDiffer statements
  | .binary _ _ left right =>
    (Set.InjOn ((JoinKeys.plan left.names right.names).key .left)
        (left.evaluate Solution.hastyLeftJoin statements) ∧ left.KeysDiffer statements) ∧
      Set.InjOn ((JoinKeys.plan left.names right.names).key .right)
        (right.evaluate Solution.hastyLeftJoin statements) ∧ right.KeysDiffer statements

theorem Mandatory.flatOptionals {algebra : Algebra ι} (mandatory : algebra.Mandatory) :
    algebra.FlatOptionals := by
  fun_induction FlatOptionals algebra with
  | case1 => trivial
  | case2 => trivial
  | case3 label kind operand ih => exact ih mandatory
  | case4 => exact mandatory.elim
  | case5 label kind left right inner leftIh rightIh =>
    rw [Mandatory] at mandatory
    · exact ⟨leftIh mandatory.1, rightIh mandatory.2⟩
    · exact inner

end Algebra

namespace Bindings

theorem SeparatorFree.restrict {bindings : Bindings} (free : bindings.SeparatorFree)
    (names : List String) : SeparatorFree (Bindings.restrict names bindings) := by
  rw [separatorFree_iff] at free ⊢
  intro name term found
  rw [get?_restrict] at found
  split at found
  next => exact free name term found
  next => cases found

theorem SeparatorFree.rebind {bindings : Bindings} (free : bindings.SeparatorFree)
    {elements : List Projection.Element}
    (constants : ∀ term ∈ elements.filterMap (·.source.constant?), term.SeparatorFree) :
    SeparatorFree (Bindings.rebind elements bindings) := by
  induction elements generalizing bindings with
  | nil => exact free
  | cons element rest ih =>
    have first : ∀ term, element.source.constant? = some term → term.SeparatorFree :=
      fun term bound => constants term (List.mem_filterMap.mpr ⟨element, List.mem_cons_self, bound⟩)
    have later : ∀ term ∈ rest.filterMap (·.source.constant?), term.SeparatorFree :=
      fun term member => constants term (((List.sublist_cons_self element rest).filterMap _).subset
        member)
    apply ih _ later
    rw [separatorFree_iff] at free ⊢
    intro name term found
    rw [Projection.Element.get?_rebind] at found
    split at found
    next =>
      cases source : element.source with
      | binding origin =>
        rw [source] at found
        exact free origin term found
      | constant value =>
        rw [source] at found
        exact first term ((congrArg Projection.Source.constant? source).trans found)
    next => exact free name term found

end Bindings

namespace Solution

theorem separatorFree_join {left right joined : Solution} (same : join left right = some joined)
    (onLeft : Bindings.SeparatorFree left.content)
    (onRight : Bindings.SeparatorFree right.content) :
    Bindings.SeparatorFree joined.content := by
  rw [Bindings.separatorFree_iff] at onLeft onRight ⊢
  intro name term found
  rw [(join_eq_some_iff.mp same).2.1] at found
  rcases Option.or_eq_some_iff.mp found with first | ⟨-, second⟩
  · exact onLeft name term first
  · exact onRight name term second

end Solution

namespace Algebra

theorem separatorFree_of_mem_evaluate {ι : Type} {algebra : Algebra ι}
    (constants : ∀ term ∈ algebra.constants, term.SeparatorFree) {statements : Set Statement}
    (free : ∀ statement ∈ statements, statement.content.SeparatorFree) :
    ∀ solution ∈ algebra.evaluate Solution.hastyLeftJoin statements,
      Bindings.SeparatorFree solution.content := by
  induction algebra with
  | pattern label triple =>
    rintro solution ⟨statement, known, matched⟩
    exact Solution.separatorFree_of_matchStatement matched (free statement known)
  | unary label kind operand ih =>
    cases kind with
    | projection names =>
      rintro _ ⟨input, known, rfl⟩
      exact (ih constants input known).restrict names
    | rebinding elements =>
      obtain ⟨here, below⟩ := List.forall_mem_append.mp constants
      rintro _ ⟨input, known, rfl⟩
      exact (ih below input known).rebind here
    | filter => exact fun solution member => member.elim
  | binary label kind left right leftIh rightIh =>
    obtain ⟨onLeft, onRight⟩ := List.forall_mem_append.mp constants
    intro solution member
    rcases evaluate_binary_subset _ _ _ _ _ member with bare | pair
    · exact leftIh onLeft solution bare
    · obtain ⟨first, firstMember, second, secondMember, same⟩ := Solution.mem_joins.mp pair
      exact Solution.separatorFree_join same (leftIh onLeft first firstMember)
        (rightIh onRight second secondMember)
  | unsupported => exact fun solution member => member.elim

end Algebra

namespace JoinType

open Arrival

theorem mem_unmatched {arrivals : List Arrival} {left : Solution}
    (arrived : left ∈ valuesOn .left arrivals)
    (alone : ∀ right ∈ valuesOn .right arrivals, ¬Solution.Compatible left right) :
    left ∈ unmatched arrivals := by
  rw [unmatched, List.mem_filter, List.mem_dedup, decide_eq_true_iff]
  refine ⟨arrived, fun right before => alone right ?_⟩
  exact mem_valuesOn.mpr ((List.takeWhile_prefix _).subset (mem_valuesOn.mp before))

/-- A left outer join has to emit all of the left join, and perhaps more. -/
theorem leftJoin_subset_results (arrivals : List Arrival) :
    Solution.leftJoin {left | left ∈ valuesOn .left arrivals}
        {right | right ∈ valuesOn .right arrivals} ⊆
      {solution | solution ∈ results .leftOuter arrivals} := by
  rintro solution (pair | ⟨arrived, alone⟩)
  · exact List.mem_append_left _ (Solution.mem_joinDistinct.mpr (Solution.mem_joins.mp pair))
  · exact List.mem_append_right _ (mem_unmatched arrived alone)

end JoinType

namespace StageTree

variable {algebra : Algebra NodeId} {plan : StageTree} {statements : List Statement}

theorem Plans.uniform_of_keySafe (plans : Plans algebra plan)
    (safe : algebra.Mandatory ∨ ∀ term ∈ algebra.constants, term.SeparatorFree)
    {known : Set Statement} (free : ∀ statement ∈ known, statement.content.SeparatorFree) :
    Solution.Uniform (algebra.evaluate Solution.hastyLeftJoin known) := by
  rcases safe with mandatory | constants
  · exact plans.uniform_evaluate mandatory free
  · exact Solution.uniform_of_separatorFree (algebra.separatorFree_of_mem_evaluate constants free)

theorem Plans.keysDiffer (plans : Plans algebra plan) (safe : algebra.KeySafe)
    {known : Set Statement} (free : ∀ statement ∈ known, statement.content.SeparatorFree) :
    algebra.KeysDiffer known := by
  induction plans with
  | pattern => trivial
  | projection _ ih => exact ih safe
  | rebinding _ ih => exact ih safe
  | join _ onLeft onRight leftIh rightIh =>
    obtain ⟨⟨left, leftBelow⟩, right, rightBelow⟩ := safe
    refine ⟨⟨?_, leftIh leftBelow⟩, ?_, rightIh rightBelow⟩
    · exact onLeft.injOn_key (onLeft.uniform_of_keySafe left free)
        (fun _ member => JoinKeys.mem_allNames_plan.mpr (Or.inl member)) .left
    · exact onRight.injOn_key (onRight.uniform_of_keySafe right free)
        (fun _ member => JoinKeys.mem_allNames_plan.mpr (Or.inr member)) .right

theorem Plans.evaluate_eq_run (plans : Plans algebra plan) (mandatory : algebra.Mandatory)
    (complete : algebra.evaluate Solution.leftJoin {statement | statement ∈ statements} ⊆
      {solution | solution ∈ (plan.initial.run statements).1}) :
    algebra.evaluate Solution.leftJoin {statement | statement ∈ statements} =
      {solution | solution ∈ (plan.initial.run statements).1} := by
  apply Set.Subset.antisymm complete
  intro solution member
  rw [mandatory.evaluate_eq Solution.leftJoin Solution.hastyLeftJoin]
  exact plans.mem_evaluate_of_mem_run solution member

theorem Plans.evaluate_subset_run (plans : Plans algebra plan) (flat : algebra.FlatOptionals)
    (differ : algebra.KeysDiffer {statement | statement ∈ statements}) :
    algebra.evaluate Solution.leftJoin {statement | statement ∈ statements} ⊆
      {solution | solution ∈ (plan.initial.run statements).1} := by
  induction plans with
  | @pattern node id triple =>
    intro solution matched
    rw [run_initial_pattern]
    exact List.mem_filterMap.mpr matched
  | projection _ ih =>
    intro solution member
    obtain ⟨input, known, rfl⟩ := member
    rw [run_initial_projection]
    exact List.mem_map.mpr ⟨input, ih flat differ known, rfl⟩
  | rebinding _ ih =>
    intro solution member
    obtain ⟨middle, ⟨input, known, rfl⟩, rfl⟩ := member
    rw [run_initial_projection]
    exact List.mem_map.mpr ⟨input, ih flat differ known, rfl⟩
  | @join node id kind joinType left right first second joins onLeft onRight leftIh rightIh =>
    obtain ⟨⟨leftDiffer, leftBelow⟩, rightDiffer, rightBelow⟩ := differ
    have separates := onLeft.separates_of_injOn onRight leftDiffer rightDiffer
    have emitted : ∀ solution, solution ∈ joinType.results
        (Network.arrivals first.initial second.initial statements) →
          solution ∈ ((StageTree.join node id joinType (JoinKeys.plan left.names right.names) first
            second).initial.run statements).1 := by
      intro solution member
      rw [run_initial_join]
      exact (Processor.joinAll_remembers joinType separates).2.mem_iff.mpr member
    rcases BinaryKind.joinType?_eq_some_iff.mp joins with ⟨rfl, rfl⟩ | ⟨rfl, rfl⟩
    · intro solution member
      obtain ⟨one, oneMember, other, otherMember, same⟩ := Solution.mem_joins.mp member
      apply emitted
      rw [JoinType.results, Network.valuesOn_arrivals, Network.valuesOn_arrivals]
      exact Solution.mem_joinDistinct.mpr ⟨one, leftIh flat.1 leftBelow oneMember, other,
        rightIh flat.2 rightBelow otherMember, same⟩
    · -- The right operand yields nothing in haste, so a bare solution has no partner in it.
      obtain ⟨flatLeft, mandatory⟩ := flat
      have exactly := onRight.evaluate_eq_run mandatory
        (rightIh mandatory.flatOptionals rightBelow)
      rw [Algebra.evaluate, exactly]
      apply (Solution.leftJoin_mono (leftIh flatLeft leftBelow) _).trans
      have results := JoinType.leftJoin_subset_results
        (Network.arrivals first.initial second.initial statements)
      rw [Network.valuesOn_arrivals, Network.valuesOn_arrivals] at results
      exact fun solution member => emitted solution (results member)

end StageTree

namespace Tree

open ContinuousQuery.Topology

/-- All that a session reads is explained by keeping left solutions bare. All solutions of the
query are read, if no optional part of it lies inside another and keys tell solutions apart. If no
statement contains the separator of keys, they tell the solutions of a safe tree apart. -/
theorem session_optionals {σ : Type} {tree : Tree} (built : tree.Built) (source : IdSource σ)
    (state : σ) {query : CompiledQuery} (compiled : tree.compile source state = .ok query)
    (statementTopic resultTopic : String) {topology : Topology}
    (assembled : query.assemble statementTopic resultTopic = .ok topology)
    {algebra : Algebra NodeId} (whole : tree.algebra? = some algebra) (actions : List Action) :
    (∀ answer ∈ (topology.converse actions topology.start).1, answer.Succeeded) ∧
      (∀ solution ∈ topology.sessionResults actions, solution ∈
        algebra.evaluate Solution.hastyLeftJoin {known | known ∈ Action.statements actions}) ∧
      (algebra.FlatOptionals → algebra.KeysDiffer {known | known ∈ Action.statements actions} →
        ∀ solution ∈
          algebra.evaluate Solution.leftJoin {known | known ∈ Action.statements actions},
            solution ∈ topology.sessionResults actions) ∧
      ((∀ statement ∈ Action.statements actions, statement.content.SeparatorFree) →
        algebra.KeySafe → algebra.KeysDiffer {known | known ∈ Action.statements actions}) := by
  obtain ⟨found, plan, same, plans, succeeded, results⟩ :=
    converse_assembled built compiled assembled actions
  cases whole.symm.trans same
  rw [results]
  refine ⟨succeeded, plans.mem_evaluate_of_mem_run, ?_, fun free safe => ?_⟩
  · intro flat differ solution member
    exact plans.evaluate_subset_run flat differ member
  · exact plans.keysDiffer safe free

def tagged (predicate : String) (tags : String × String) : GraphPattern :=
  .project (.extend (.extend (.basic [⟨.variable "a", .iri predicate, .variable "o"⟩])
    "c" (some (.constant (.iri tags.1)))) "d" (some (.constant (.iri tags.2)))) ["a", "c", "d"]

def taggedLinks (first second : String × String) : Tree :=
  .ofGraphPattern (.join (.project (.leftJoin (.leftJoin
    (.basic [⟨.variable "a", .variable "p", .variable "b"⟩]) (tagged "q" first) false)
      (tagged "r" second) false) ["c", "d"]) (.basic [⟨.variable "e", .iri "q", .variable "f"⟩]))

def taggedOperand (label : Nat) (predicate : String) (tags : String × String) : Algebra NodeId :=
  .unary ⟨label + 2⟩ (.projection ["a", "c", "d"]) (.unary ⟨label + 1⟩
    (.rebinding [⟨.constant (.iri tags.1), "c"⟩, ⟨.constant (.iri tags.2), "d"⟩])
      (.pattern ⟨label⟩ ⟨.variable "a", .iri predicate, .variable "o"⟩))

def taggedSubjects (first second : String × String) : Algebra NodeId :=
  .binary ⟨8⟩ (.leftOuterJoin false) (.binary ⟨4⟩ (.leftOuterJoin false)
    (.pattern ⟨0⟩ ⟨.variable "a", .variable "p", .variable "b"⟩) (taggedOperand 1 "q" first))
      (taggedOperand 5 "r" second)

def taggedLinksAlgebra (first second : String × String) : Algebra NodeId :=
  .binary ⟨11⟩ .naturalJoin (.unary ⟨9⟩ (.projection ["c", "d"]) (taggedSubjects first second))
    (.pattern ⟨10⟩ ⟨.variable "e", .iri "q", .variable "f"⟩)

def taggedLinksQuery (first second : String × String) : CompiledQuery :=
  ((taggedLinks first second).compile .sequential 0).toOption.getD ⟨[], []⟩

def taggedLinksTopology (first second : String × String) : Topology :=
  ((taggedLinksQuery first second).assemble "statements" "results").toOption.getD Topology.empty

def linkOfX : Statement := ⟨⟨.iri "x", "q", .iri "w"⟩, "v"⟩

def linkOfY : Statement := ⟨⟨.iri "y", "r", .iri "w"⟩, "v"⟩

def linkActions : List Action := [.pipe linkOfX, .read, .pipe linkOfY]

theorem session_optionals_links :
    let topology := taggedLinksTopology ("s", "t") ("u", "t")
    let algebra := taggedLinksAlgebra ("s", "t") ("u", "t")
    (∀ answer ∈ (topology.converse linkActions topology.start).1, answer.Succeeded) ∧
      (∀ solution ∈ topology.sessionResults linkActions, solution ∈
        algebra.evaluate Solution.hastyLeftJoin {known | known ∈ Action.statements linkActions}) ∧
      algebra.KeysDiffer {known | known ∈ Action.statements linkActions} ∧
      (∀ solution ∈
        algebra.evaluate Solution.leftJoin {known | known ∈ Action.statements linkActions},
          solution ∈ topology.sessionResults linkActions) ∧
      topology.sessionResults linkActions =
        [⟨.ofList [("c", .iri "s"), ("d", .iri "t"), ("e", .iri "x"), ("f", .iri "w")], "v"⟩,
          ⟨.ofList [("c", .iri "u"), ("d", .iri "t"), ("e", .iri "x"), ("f", .iri "w")], "v"⟩] := by
  intro topology algebra
  have compiled : (taggedLinks ("s", "t") ("u", "t")).compile .sequential 0 =
      .ok (taggedLinksQuery ("s", "t") ("u", "t")) := by
    decide +kernel
  have assembled : (taggedLinksQuery ("s", "t") ("u", "t")).assemble "statements" "results" =
      .ok topology := by
    decide +kernel
  have whole : (taggedLinks ("s", "t") ("u", "t")).algebra? = some algebra := by decide +kernel
  obtain ⟨succeeded, sound, complete, differ⟩ := session_optionals (built_ofGraphPattern _)
    .sequential 0 compiled "statements" "results" assembled whole linkActions
  have keys := differ (by decide) (algebra.keySafe_of_constants (by decide))
  exact ⟨succeeded, sound, keys, complete ⟨⟨⟨trivial, trivial⟩, trivial⟩, trivial⟩ keys,
    by decide +kernel⟩

/-- Tags that are different terms but make the same key, written after each other. -/
def firstTags : String × String := ("t>\x1f<u", "v")

def secondTags : String × String := ("t", "u>\x1f<v")

def arrivedTags (tags : String × String) : Solution :=
  ⟨.ofList [("c", .iri tags.1), ("d", .iri tags.2)], "v"⟩

/-- The tags of the second link, with the first link, which a session does not read. -/
def lostSolution : Solution :=
  ⟨.ofList [("c", .iri "t"), ("d", .iri "u>\x1f<v"), ("e", .iri "x"), ("f", .iri "w")], "v"⟩

theorem lostSolution_mem_evaluate :
    lostSolution ∈ (taggedLinksAlgebra firstTags secondTags).evaluate Solution.leftJoin
      {known | known ∈ Action.statements linkActions} := by
  let subject : Solution := ⟨.ofList [("a", .iri "y"), ("p", .iri "r"), ("b", .iri "w")], "v"⟩
  let tags : Solution :=
    ⟨.ofList [("a", .iri "y"), ("c", .iri "t"), ("d", .iri "u>\x1f<v")], "v"⟩
  let both : Solution := ⟨.ofList [("a", .iri "y"), ("p", .iri "r"), ("b", .iri "w"),
    ("c", .iri "t"), ("d", .iri "u>\x1f<v")], "v"⟩
  have links : ∀ statement, statement ∈ Action.statements linkActions ↔
      statement = linkOfX ∨ statement = linkOfY := by
    intro statement
    simp [linkActions, Action.statements, Action.statement?, eq_comm]
  -- Only the first link has tags of the first kind, and it has another subject.
  have alone : ∀ right ∈ (taggedOperand 1 "q" firstTags).evaluate Solution.leftJoin
      {known | known ∈ Action.statements linkActions}, ¬Solution.Compatible subject right := by
    intro right member
    obtain ⟨_, ⟨input, ⟨statement, known, matched⟩, rfl⟩, rfl⟩ := member
    rcases (links statement).mp known with rfl | rfl
    · have same : input = ⟨.ofList [("a", .iri "x"), ("o", .iri "w")], "v"⟩ :=
        Option.some.inj (matched.symm.trans (by decide +kernel))
      rw [same, ← Solution.join_eq_none_iff]
      decide +kernel
    · have nothing : TriplePattern.matchStatement ⟨.variable "a", .iri "q", .variable "o"⟩
          linkOfY = none := by
        decide +kernel
      cases nothing.symm.trans matched
  have second : tags ∈ (taggedOperand 5 "r" secondTags).evaluate Solution.leftJoin
      {known | known ∈ Action.statements linkActions} :=
    ⟨_, ⟨_, ⟨linkOfY, (links _).mpr (Or.inr rfl), rfl⟩, rfl⟩, by decide +kernel⟩
  have found : both ∈ (taggedSubjects firstTags secondTags).evaluate Solution.leftJoin
      {known | known ∈ Action.statements linkActions} :=
    Or.inl ⟨subject, Or.inr ⟨⟨linkOfY, (links _).mpr (Or.inr rfl), by decide +kernel⟩, alone⟩,
      tags, second, by decide +kernel⟩
  exact ⟨_, ⟨both, found, rfl⟩, _, ⟨linkOfX, (links _).mpr (Or.inl rfl), rfl⟩, by decide +kernel⟩

/-- Different solutions may have one key if constants of rebindings contain the separator. Then a
join takes the second one for the first one, and a solution of the query is lost. -/
theorem session_optionals_collision :
    arrivedTags firstTags ≠ arrivedTags secondTags ∧
      (JoinKeys.plan (.ofNames ["c", "d"]) (.ofNames ["e", "f"])).key .left
          (arrivedTags firstTags) =
        (JoinKeys.plan (.ofNames ["c", "d"]) (.ofNames ["e", "f"])).key .left
          (arrivedTags secondTags) ∧
      (taggedLinks firstTags secondTags).Built ∧
      (taggedLinks firstTags secondTags).compile .sequential 0 =
        .ok (taggedLinksQuery firstTags secondTags) ∧
      (taggedLinksQuery firstTags secondTags).assemble "statements" "results" =
        .ok (taggedLinksTopology firstTags secondTags) ∧
      (taggedLinks firstTags secondTags).algebra? =
        some (taggedLinksAlgebra firstTags secondTags) ∧
      (taggedLinksAlgebra firstTags secondTags).FlatOptionals ∧
      (∀ statement ∈ Action.statements linkActions, statement.content.SeparatorFree) ∧
      lostSolution ∈ (taggedLinksAlgebra firstTags secondTags).evaluate Solution.leftJoin
        {known | known ∈ Action.statements linkActions} ∧
      lostSolution ∉ (taggedLinksTopology firstTags secondTags).sessionResults linkActions := by
  refine ⟨by decide +kernel, by decide +kernel, built_ofGraphPattern _, ?_, ?_, ?_, ?_, by decide,
    lostSolution_mem_evaluate, ?_⟩
  · decide +kernel
  · decide +kernel
  · decide +kernel
  · exact ⟨⟨⟨trivial, trivial⟩, trivial⟩, trivial⟩
  · decide +kernel

end Tree

end ContinuousQuery
