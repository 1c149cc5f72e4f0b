import ContinuousQuery.Proofs.PatternMatch

/-!
Matches against assignments. An assignment gives a term to every name, and a pattern under an
assignment is a list of three terms. A statement is matched exactly if some assignment turns the
pattern into its triple; the match then binds the names of the pattern to the terms that every
such assignment gives them.
-/

namespace ContinuousQuery

def Bindings.ofAssignment (assignment : String → Term) (names : List String) : Bindings :=
  OrderedMap.ofList (names.map (fun name => (name, assignment name)))

theorem Bindings.get?_ofAssignment (assignment : String → Term) (names : List String)
    (name : String) : OrderedMap.get? (ofAssignment assignment names) name =
      if name ∈ names then some (assignment name) else none := by
  rw [ofAssignment, OrderedMap.get?_ofList, OrderedMap.latest?_map]

namespace PatternTerm

def substitute (assignment : String → Term) : PatternTerm → Term
  | .variable name => assignment name
  | .blank label => assignment (anonymousName label)
  | .iri value => .iri value
  | .literal value => .literal value

/-- The bindings give to the name of this position, if it has one, the term assigned to it. -/
def Agrees (bindings : Bindings) (assignment : String → Term) (pattern : PatternTerm) : Prop :=
  ∀ name, pattern.bindingName? = some name →
    OrderedMap.get? bindings name = some (assignment name)

theorem Agrees.instantiate {pattern : PatternTerm} {bindings : Bindings}
    {assignment : String → Term} (agrees : pattern.Agrees bindings assignment) :
    pattern.instantiate bindings = some (pattern.substitute assignment) := by
  cases pattern with
  | «variable» name => exact agrees name rfl
  | blank label => exact agrees _ rfl
  | iri value => rfl
  | literal value => rfl

theorem agrees_iff {pattern : PatternTerm} {bindings : Bindings} {assignment : String → Term}
    {term : Term} (found : pattern.instantiate bindings = some term) :
    pattern.Agrees bindings assignment ↔ pattern.substitute assignment = term := by
  constructor
  · intro agrees
    exact Option.some.inj (agrees.instantiate.symm.trans found)
  · intro same name named
    rw [← instantiate_of_bindingName named, found, ← same]
    cases pattern <;> cases named <;> rfl

end PatternTerm

def Triple.terms (triple : Triple) : List Term :=
  [triple.subject.toTerm, .iri triple.predicate, triple.object]

namespace TriplePattern

def positions (pattern : TriplePattern) : List PatternTerm :=
  [pattern.subject, pattern.predicate.toTerm, pattern.object]

def substitute (assignment : String → Term) (pattern : TriplePattern) : List Term :=
  pattern.positions.map (PatternTerm.substitute assignment)

variable {pattern : TriplePattern} {triple : Triple} {bindings : Bindings}
  {assignment : String → Term}

theorem substitute_eq_terms_iff : pattern.substitute assignment = triple.terms ↔
    ∀ demand ∈ pattern.demands triple, demand.1.substitute assignment = demand.2 := by
  simp [substitute, positions, Triple.terms, demands]

theorem forall_agrees_iff (triple : Triple) : (∀ demand ∈ pattern.demands triple,
    demand.1.Agrees bindings assignment) ↔
      ∀ name ∈ pattern.bindingNames, OrderedMap.get? bindings name = some (assignment name) := by
  constructor
  · intro agrees name member
    obtain ⟨demand, asked, named⟩ := (mem_bindingNames_iff triple).mp member
    exact agrees demand asked name named
  · intro found demand asked name named
    exact found name ((mem_bindingNames_iff triple).mpr ⟨demand, asked, named⟩)

/-- The assignments that turn a matching pattern into the triple are those that the match knows. -/
theorem substitute_eq_terms_iff_of_match (matched : pattern.matchTriple triple = some bindings) :
    pattern.substitute assignment = triple.terms ↔
      ∀ name ∈ pattern.bindingNames, OrderedMap.get? bindings name = some (assignment name) := by
  obtain ⟨becomes, -⟩ := matchTriple_eq_some_iff.mp matched
  rw [substitute_eq_terms_iff, ← forall_agrees_iff triple]
  exact forall₂_congr fun demand asked => (PatternTerm.agrees_iff (becomes demand asked)).symm

theorem matchTriple_of_substitute (same : pattern.substitute assignment = triple.terms) :
    pattern.matchTriple triple = some (Bindings.ofAssignment assignment pattern.bindingNames) := by
  have found : ∀ name ∈ pattern.bindingNames, OrderedMap.get?
      (Bindings.ofAssignment assignment pattern.bindingNames) name = some (assignment name) :=
    fun name member => (Bindings.get?_ofAssignment ..).trans (if_pos member)
  rw [matchTriple_eq_some_iff]
  constructor
  · intro demand asked
    rw [← substitute_eq_terms_iff.mp same demand asked]
    exact ((forall_agrees_iff triple).mpr found demand asked).instantiate
  · intro name
    rw [OrderedMap.mem_names_iff, Bindings.get?_ofAssignment]
    by_cases member : name ∈ pattern.bindingNames <;> simp [member]

/-- A match is itself an assignment, whatever it gives to the names it does not bind. -/
theorem exists_substitute (matched : pattern.matchTriple triple = some bindings) :
    ∃ assignment, pattern.substitute assignment = triple.terms := by
  obtain ⟨-, names⟩ := matchTriple_eq_some_iff.mp matched
  refine ⟨fun name => (OrderedMap.get? bindings name).getD (.iri ""),
    (substitute_eq_terms_iff_of_match matched).mpr fun name member => ?_⟩
  obtain ⟨term, found⟩ := Option.isSome_iff_exists.mp
    (OrderedMap.mem_names_iff.mp ((names name).mpr member))
  rw [found]
  rfl

section Statements

variable {statement : Statement} {solution : Solution}

theorem isSome_matchStatement_iff : (pattern.matchStatement statement).isSome ↔
    ∃ assignment, pattern.substitute assignment = statement.content.terms := by
  rw [matchStatement, Option.isSome_map]
  constructor
  · intro matched
    obtain ⟨bindings, found⟩ := Option.isSome_iff_exists.mp matched
    exact exists_substitute found
  · intro substituted
    obtain ⟨assignment, same⟩ := substituted
    rw [matchTriple_of_substitute same]
    rfl

theorem substitute_iff_of_matchStatement
    (matched : pattern.matchStatement statement = some solution) :
    pattern.substitute assignment = statement.content.terms ↔ ∀ name ∈ pattern.bindingNames,
      OrderedMap.get? solution.content name = some (assignment name) := by
  obtain ⟨bindings, found, rfl⟩ := Option.map_eq_some_iff.mp matched
  exact substitute_eq_terms_iff_of_match found

theorem visibility_of_matchStatement
    (matched : pattern.matchStatement statement = some solution) :
    solution.visibility = statement.visibility := by
  obtain ⟨bindings, -, rfl⟩ := Option.map_eq_some_iff.mp matched
  rfl

end Statements

/-- A statement is matched exactly if an assignment turns the pattern into its triple. The match
is seen by those who see the statement, binds the names of the pattern and no others, and an
assignment turns the pattern into the triple exactly if it gives these names the bound terms. -/
theorem match_iff_substitute (pattern : TriplePattern) (statement : Statement) :
    pattern.bindingNames.Nodup ∧
      ((pattern.matchStatement statement).isSome ↔
        ∃ assignment, pattern.substitute assignment = statement.content.terms) ∧
      ∀ solution, pattern.matchStatement statement = some solution →
        solution.visibility = statement.visibility ∧
          (∀ name, name ∈ OrderedMap.names solution.content ↔ name ∈ pattern.bindingNames) ∧
          ∀ assignment, pattern.substitute assignment = statement.content.terms ↔
            ∀ name ∈ pattern.bindingNames,
              OrderedMap.get? solution.content name = some (assignment name) := by
  refine ⟨nodup_eraseDups _, isSome_matchStatement_iff, fun solution matched => ?_⟩
  refine ⟨visibility_of_matchStatement matched, ?_, fun assignment =>
    substitute_iff_of_matchStatement matched⟩
  obtain ⟨bindings, found, rfl⟩ := Option.map_eq_some_iff.mp matched
  exact (matchTriple_eq_some_iff.mp found).2

def selfRelated : TriplePattern := ⟨.blank "x", .variable "p", .blank "x"⟩

theorem match_iff_substitute_selfRelated :
    selfRelated.matchStatement ⟨⟨.iri "a", "knows", .iri "a"⟩, "v"⟩ =
        some ⟨OrderedMap.ofList [("p", .iri "knows"), ("_anon_x", .iri "a")], "v"⟩ ∧
      selfRelated.matchStatement ⟨⟨.iri "a", "knows", .iri "b"⟩, "v"⟩ = none ∧
      ∀ assignment, selfRelated.substitute assignment = [.iri "a", .iri "knows", .iri "a"] ↔
        ∀ name ∈ ["_anon_x", "p"], OrderedMap.get?
          (OrderedMap.ofList [("p", Term.iri "knows"), ("_anon_x", .iri "a")]) name =
            some (assignment name) := by
  have matched : selfRelated.matchStatement ⟨⟨.iri "a", "knows", .iri "a"⟩, "v"⟩ =
      some ⟨OrderedMap.ofList [("p", .iri "knows"), ("_anon_x", .iri "a")], "v"⟩ := by decide
  exact ⟨matched, by decide, ((match_iff_substitute selfRelated _).2.2 _ matched).2.2⟩

end TriplePattern

end ContinuousQuery
