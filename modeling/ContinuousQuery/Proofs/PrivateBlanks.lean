import ContinuousQuery.Proofs.Assignments

/-!
Blank nodes of a pattern against fresh variables. A pattern with fresh variables in place of its
blank nodes matches all that the pattern matches and binds the same. It matches nothing else
exactly if no variable of the pattern has the anonymous name of one of its blank nodes, or if the
pattern asks for a literal as the subject and so cannot match at all.
-/

namespace ContinuousQuery

def PatternTerm.replaceBlanks (rename : String → String) : PatternTerm → PatternTerm
  | .blank label => .variable (rename label)
  | other => other

namespace TriplePattern

def replaceBlanks (rename : String → String) (pattern : TriplePattern) : TriplePattern :=
  ⟨pattern.subject.replaceBlanks rename, pattern.predicate, pattern.object.replaceBlanks rename⟩

/-- Distinct blank nodes get distinct variables, none of which occurs in the pattern. -/
structure Fresh (pattern : TriplePattern) (rename : String → String) : Prop where
  distinct : ∀ first second, .blank first ∈ pattern.positions → .blank second ∈ pattern.positions →
    rename first = rename second → first = second
  unused : ∀ label, .blank label ∈ pattern.positions →
    .variable (rename label) ∉ pattern.positions

/-- Blank nodes of the pattern match like the variables that replace them. -/
structure BlanksPrivate (pattern : TriplePattern) (rename : String → String) : Prop where
  matched : ∀ statement, ((pattern.replaceBlanks rename).matchStatement statement).isSome ↔
    (pattern.matchStatement statement).isSome
  bound : ∀ statement solution other, pattern.matchStatement statement = some solution →
    (pattern.replaceBlanks rename).matchStatement statement = some other →
      other.visibility = solution.visibility ∧
        (∀ name, .variable name ∈ pattern.positions →
          OrderedMap.get? other.content name = OrderedMap.get? solution.content name) ∧
        ∀ label, .blank label ∈ pattern.positions → OrderedMap.get? other.content (rename label) =
          OrderedMap.get? solution.content (anonymousName label)

variable {pattern : TriplePattern} {rename : String → String}

theorem positions_replaceBlanks (pattern : TriplePattern) (rename : String → String) :
    (pattern.replaceBlanks rename).positions =
      pattern.positions.map (PatternTerm.replaceBlanks rename) := by
  obtain ⟨subject, predicate, object⟩ := pattern
  cases predicate <;> rfl

theorem substitute_replaceBlanks (pattern : TriplePattern) (rename : String → String)
    (assignment : String → Term) : (pattern.replaceBlanks rename).substitute assignment =
      pattern.positions.map (fun position =>
        (position.replaceBlanks rename).substitute assignment) := by
  rw [substitute, positions_replaceBlanks, List.map_map]
  rfl

theorem substitute_replaceBlanks_anonymousName (pattern : TriplePattern)
    (assignment : String → Term) :
    (pattern.replaceBlanks anonymousName).substitute assignment =
      pattern.substitute assignment := by
  rw [substitute_replaceBlanks, substitute]
  apply List.map_congr_left
  intro position _
  cases position <;> rfl

theorem mem_bindingNames_of_mem_positions {position : PatternTerm} {name : String}
    (member : position ∈ pattern.positions) (named : position.bindingName? = some name) :
    name ∈ pattern.bindingNames := by
  simp only [positions, List.mem_cons, List.not_mem_nil, or_false] at member
  rcases member with rfl | rfl | rfl
  · simp [bindingNames, named]
  · simp [bindingNames, ← PatternPredicate.bindingName?_toTerm, named]
  · simp [bindingNames, named]

/-- Where the blank nodes are replaced by fresh variables, an assignment can be found that gives
these what an assignment for any other replacement gives to the variables there. -/
theorem Fresh.exists_substitute (fresh : pattern.Fresh rename) (source : String → String)
    (assignment : String → Term) : ∃ other,
      (pattern.replaceBlanks rename).substitute other =
        (pattern.replaceBlanks source).substitute assignment ∧
      (∀ name, .variable name ∈ pattern.positions → other name = assignment name) ∧
      ∀ label, .blank label ∈ pattern.positions →
        other (rename label) = assignment (source label) := by
  classical
  let other (name : String) : Term :=
    if found : ∃ label, .blank label ∈ pattern.positions ∧ rename label = name then
      assignment (source found.choose)
    else assignment name
  have onVariables : ∀ name, .variable name ∈ pattern.positions →
      other name = assignment name := by
    intro name member
    refine dif_neg ?_
    rintro ⟨label, inside, rfl⟩
    exact fresh.unused label inside member
  have onBlanks : ∀ label, .blank label ∈ pattern.positions →
      other (rename label) = assignment (source label) := by
    intro label member
    have found : ∃ other, .blank other ∈ pattern.positions ∧ rename other = rename label :=
      ⟨label, member, rfl⟩
    have same := fresh.distinct _ _ found.choose_spec.1 member found.choose_spec.2
    exact (dif_pos found).trans (congrArg (fun label => assignment (source label)) same)
  refine ⟨other, ?_, onVariables, onBlanks⟩
  rw [substitute_replaceBlanks, substitute_replaceBlanks]
  apply List.map_congr_left
  intro position member
  cases position with
  | «variable» name => exact onVariables name member
  | blank label => exact onBlanks label member
  | iri value => rfl
  | literal value => rfl

theorem Fresh.bound (fresh : pattern.Fresh rename) {statement : Statement}
    {solution other : Solution} (matched : pattern.matchStatement statement = some solution)
    (again : (pattern.replaceBlanks rename).matchStatement statement = some other) :
    (∀ name, .variable name ∈ pattern.positions →
      OrderedMap.get? other.content name = OrderedMap.get? solution.content name) ∧
    ∀ label, .blank label ∈ pattern.positions → OrderedMap.get? other.content (rename label) =
      OrderedMap.get? solution.content (anonymousName label) := by
  obtain ⟨assignment, same⟩ := isSome_matchStatement_iff.mp
    (Option.isSome_iff_exists.mpr ⟨solution, matched⟩)
  obtain ⟨carried, agrees, onVariables, onBlanks⟩ :=
    fresh.exists_substitute anonymousName assignment
  rw [substitute_replaceBlanks_anonymousName, same] at agrees
  have inFirst := (substitute_iff_of_matchStatement matched).mp same
  have inSecond := (substitute_iff_of_matchStatement again).mp agrees
  constructor
  · intro name member
    have replaced : .variable name ∈ (pattern.replaceBlanks rename).positions := by
      rw [positions_replaceBlanks]
      exact List.mem_map.mpr ⟨_, member, rfl⟩
    rw [inFirst name (mem_bindingNames_of_mem_positions member rfl),
      inSecond name (mem_bindingNames_of_mem_positions replaced rfl), onVariables name member]
  · intro label member
    have replaced : .variable (rename label) ∈ (pattern.replaceBlanks rename).positions := by
      rw [positions_replaceBlanks]
      exact List.mem_map.mpr ⟨_, member, rfl⟩
    rw [inFirst _ (mem_bindingNames_of_mem_positions member rfl),
      inSecond _ (mem_bindingNames_of_mem_positions replaced rfl), onBlanks label member]

theorem Fresh.isSome_replaceBlanks (fresh : pattern.Fresh rename) {statement : Statement}
    (matched : (pattern.matchStatement statement).isSome) :
    ((pattern.replaceBlanks rename).matchStatement statement).isSome := by
  rw [isSome_matchStatement_iff] at matched ⊢
  obtain ⟨assignment, same⟩ := matched
  obtain ⟨other, agrees, -⟩ := fresh.exists_substitute anonymousName assignment
  rw [substitute_replaceBlanks_anonymousName, same] at agrees
  exact ⟨other, agrees⟩

theorem fresh_anonymousName
    (apart : ∀ label, .blank label ∈ pattern.positions →
      .variable (anonymousName label) ∉ pattern.positions) : pattern.Fresh anonymousName where
  distinct := fun _ _ _ _ same => (String.append_right_inj _).mp same
  unused := apart

theorem isSome_of_replaceBlanks {statement : Statement}
    (apart : ∀ label, .blank label ∈ pattern.positions →
      .variable (anonymousName label) ∉ pattern.positions)
    (matched : ((pattern.replaceBlanks rename).matchStatement statement).isSome) :
    (pattern.matchStatement statement).isSome := by
  rw [isSome_matchStatement_iff] at matched ⊢
  obtain ⟨assignment, same⟩ := matched
  obtain ⟨other, agrees, -⟩ := (fresh_anonymousName apart).exists_substitute rename assignment
  rw [substitute_replaceBlanks_anonymousName, same] at agrees
  exact ⟨other, agrees⟩

theorem not_isSome_of_literal {value : Literal} (literal : pattern.subject = .literal value)
    (statement : Statement) : ¬(pattern.matchStatement statement).isSome := by
  rw [isSome_matchStatement_iff]
  rintro ⟨assignment, same⟩
  simp only [substitute, positions, Triple.terms, literal, List.map_cons, List.cons.injEq] at same
  obtain ⟨begins, -⟩ := same
  cases found : statement.content.subject <;> rw [found] at begins <;> cases begins

theorem exists_terms (subject : ∀ value, pattern.subject ≠ .literal value)
    (assignment : String → Term) (iris : ∀ name, ∃ value, assignment name = .iri value) :
    ∃ triple : Triple, pattern.substitute assignment = triple.terms := by
  obtain ⟨first, second, third⟩ := pattern
  have begins : ∃ term : Subject, first.substitute assignment = term.toTerm := by
    cases first with
    | «variable» name => exact (iris name).imp' Subject.iri fun _ same => same
    | blank label => exact (iris _).imp' Subject.iri fun _ same => same
    | iri value => exact ⟨.iri value, rfl⟩
    | literal value => exact absurd rfl (subject value)
  have continues : ∃ value, second.toTerm.substitute assignment = .iri value := by
    cases second with
    | «variable» name => exact iris name
    | iri value => exact ⟨value, rfl⟩
  obtain ⟨term, isTerm⟩ := begins
  obtain ⟨value, isValue⟩ := continues
  refine ⟨⟨term, value, third.substitute assignment⟩, ?_⟩
  simp only [substitute, positions, List.map_cons, List.map_nil, isTerm, isValue, Triple.terms]

theorem Fresh.exists_captured (fresh : pattern.Fresh rename)
    (subject : ∀ value, pattern.subject ≠ .literal value) {label : String}
    (blank : .blank label ∈ pattern.positions)
    (captured : .variable (anonymousName label) ∈ pattern.positions) :
    ∃ statement, ((pattern.replaceBlanks rename).matchStatement statement).isSome ∧
      ¬(pattern.matchStatement statement).isSome := by
  have different : anonymousName label ≠ rename label := fun same =>
    fresh.unused label blank (same ▸ captured)
  let assignment (name : String) : Term := if name = rename label then .iri "a" else .iri "b"
  have replaced : ∀ value, (pattern.replaceBlanks rename).subject ≠ .literal value := by
    intro value same
    unfold replaceBlanks at same
    cases found : pattern.subject <;> rw [found] at same <;> cases same
    exact subject value found
  have iris : ∀ name, ∃ value, assignment name = .iri value := by
    intro name
    by_cases here : name = rename label <;> simp [assignment, here]
  obtain ⟨triple, same⟩ := exists_terms replaced assignment iris
  refine ⟨⟨triple, ""⟩, isSome_matchStatement_iff.mpr ⟨assignment, same⟩, ?_⟩
  rw [isSome_matchStatement_iff]
  rintro ⟨other, again⟩
  have positions := again.trans same.symm
  rw [substitute_replaceBlanks, substitute, List.map_inj_left] at positions
  have atBlank : other (anonymousName label) = .iri "a" :=
    (positions _ blank).trans (if_pos rfl)
  have atVariable : other (anonymousName label) = .iri "b" :=
    (positions _ captured).trans (if_neg different)
  exact absurd (atBlank.symm.trans atVariable) (by decide)

/-- Blank nodes of a pattern are private to it exactly if no variable of the pattern has the
anonymous name of one of them, or if the pattern cannot match at all. -/
theorem blanksPrivate_iff (fresh : pattern.Fresh rename) :
    pattern.BlanksPrivate rename ↔ (∃ value, pattern.subject = .literal value) ∨
      ∀ label, .blank label ∈ pattern.positions →
        .variable (anonymousName label) ∉ pattern.positions := by
  have bound : ∀ statement solution other, pattern.matchStatement statement = some solution →
      (pattern.replaceBlanks rename).matchStatement statement = some other →
        other.visibility = solution.visibility ∧ _ ∧ _ :=
    fun statement solution other matched again =>
      ⟨(visibility_of_matchStatement again).trans (visibility_of_matchStatement matched).symm,
        fresh.bound matched again⟩
  constructor
  · intro isPrivate
    by_contra shared
    obtain ⟨subject, apart⟩ := not_or.mp shared
    simp only [not_exists] at subject
    simp only [not_forall, not_not] at apart
    obtain ⟨label, blank, captured⟩ := apart
    obtain ⟨statement, matched, unmatched⟩ := fresh.exists_captured subject blank captured
    exact unmatched ((isPrivate.matched statement).mp matched)
  · intro unshared
    refine ⟨fun statement => ⟨fun matched => ?_, fresh.isSome_replaceBlanks⟩, bound⟩
    rcases unshared with ⟨value, literal⟩ | apart
    · have replaced : (pattern.replaceBlanks rename).subject = .literal value := by
        rw [replaceBlanks, literal]
        rfl
      exact absurd matched (not_isSome_of_literal replaced statement)
    · exact isSome_of_replaceBlanks apart matched

/-- People whom someone knows. Their variable has an anonymous name, but that of no blank node. -/
def acquaintances : TriplePattern := ⟨.blank "b", .iri "knows", .variable "_anon_a"⟩

theorem blanksPrivate_iff_acquaintances :
    acquaintances.Fresh (fun _ => "someone") ∧
      acquaintances.BlanksPrivate (fun _ => "someone") := by
  have listed : acquaintances.positions = [.blank "b", .iri "knows", .variable "_anon_a"] := rfl
  have fresh : acquaintances.Fresh (fun _ => "someone") := ⟨by simp [listed], by simp [listed]⟩
  refine ⟨fresh, (blanksPrivate_iff fresh).mpr (.inr ?_)⟩
  simp [listed, anonymousName]

/-- People who know someone, where the variable has the anonymous name of the blank node. -/
def captured : TriplePattern := ⟨.variable "_anon_b", .iri "knows", .blank "b"⟩

/-- A query variable and a blank node can meet: the pattern asks for people who know themselves. -/
theorem not_blanksPrivate_captured :
    captured.Fresh (fun _ => "someone") ∧
      captured.matchStatement ⟨⟨.iri "alice", "knows", .iri "bob"⟩, ""⟩ = none ∧
      (captured.replaceBlanks (fun _ => "someone")).matchStatement
          ⟨⟨.iri "alice", "knows", .iri "bob"⟩, ""⟩ =
        some ⟨OrderedMap.ofList [("_anon_b", .iri "alice"), ("someone", .iri "bob")], ""⟩ ∧
      ¬captured.BlanksPrivate (fun _ => "someone") := by
  have listed : captured.positions = [.variable "_anon_b", .iri "knows", .blank "b"] := rfl
  have fresh : captured.Fresh (fun _ => "someone") := ⟨by simp [listed], by simp [listed]⟩
  refine ⟨fresh, by decide, by decide, fun isPrivate => ?_⟩
  have known := isPrivate.matched ⟨⟨.iri "alice", "knows", .iri "bob"⟩, ""⟩
  exact absurd known (by decide)

end TriplePattern

end ContinuousQuery
