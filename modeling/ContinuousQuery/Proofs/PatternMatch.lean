import ContinuousQuery.Pattern
import ContinuousQuery.Proofs.Compatibility
import ContinuousQuery.Proofs.TermText

/-!
Matches of triple patterns. A match binds exactly the names of the pattern, and the pattern
becomes the triple when its names are replaced by the terms bound to them. So the triple
determines the bindings of a match, and all bound terms are terms of the triple.
-/

namespace ContinuousQuery

structure Bindings.Extends (names : String → Prop) (before after : Bindings) : Prop where
  kept : ∀ name term, OrderedMap.get? before name = some term →
    OrderedMap.get? after name = some term
  others : ∀ name, names name ∨ OrderedMap.get? after name = OrderedMap.get? before name

namespace PatternTerm

def instantiate (bindings : Bindings) : PatternTerm → Option Term
  | .variable name => OrderedMap.get? bindings name
  | .blank label => OrderedMap.get? bindings (anonymousName label)
  | .iri value => some (.iri value)
  | .literal value => some (.literal value)

theorem instantiate_of_bindingName {pattern : PatternTerm} {name : String}
    (named : pattern.bindingName? = some name) (bindings : Bindings) :
    pattern.instantiate bindings = OrderedMap.get? bindings name := by
  cases pattern <;> cases named <;> rfl

theorem instantiate_extends {pattern : PatternTerm} {names : String → Prop}
    {before after : Bindings} (extended : Bindings.Extends names before after) {term : Term}
    (found : pattern.instantiate before = some term) : pattern.instantiate after = some term := by
  cases pattern with
  | «variable» name => exact extended.kept name term found
  | blank label => exact extended.kept _ term found
  | iri value => exact found
  | literal value => exact found

theorem bind_eq_some_iff_extends {bindings extended : Bindings} {name : String} {term : Term} :
    Bindings.bind bindings name term = some extended ↔
      OrderedMap.get? extended name = some term ∧
        Bindings.Extends (some name = some ·) bindings extended := by
  rw [Bindings.bind_eq_some_iff]
  constructor
  · intro both
    obtain ⟨agrees, look⟩ := both
    refine ⟨(look name).trans (if_pos rfl), fun other held found => ?_, fun other => ?_⟩
    · rw [look, found]
      split
      next here => rw [agrees held (here ▸ found)]
      next => rfl
    · by_cases here : other = name
      · exact Or.inl (congrArg some here.symm)
      · exact Or.inr ((look other).trans (if_neg here))
  · intro both
    obtain ⟨found, kept, others⟩ := both
    refine ⟨fun bound held => ?_, fun other => ?_⟩
    · exact Option.some.inj ((kept name bound held).symm.trans found)
    · split
      next here => exact here ▸ found
      next different =>
        exact (others other).resolve_left fun same => different (Option.some.inj same).symm

theorem accept_eq_some_iff {pattern : PatternTerm} {term : Term} {bindings extended : Bindings} :
    pattern.accept term bindings = some extended ↔
      pattern.instantiate extended = some term ∧
        Bindings.Extends (pattern.bindingName? = some ·) bindings extended := by
  have fixed : ∀ value : Term, (if term = value then some bindings else none) = some extended ↔
      some value = some term ∧ Bindings.Extends (none = some ·) bindings extended := by
    intro value
    constructor
    · intro accepted
      split at accepted
      next same =>
        cases accepted
        exact ⟨congrArg some same.symm, fun _ _ found => found, fun _ => Or.inr rfl⟩
      next => cases accepted
    · intro both
      obtain ⟨same, kept, others⟩ := both
      have unchanged : extended = bindings :=
        OrderedMap.ext_get? fun name => (others name).resolve_left (by simp)
      rw [if_pos (Option.some.inj same).symm, unchanged]
  cases pattern with
  | «variable» name => exact bind_eq_some_iff_extends
  | blank label => exact bind_eq_some_iff_extends
  | iri value => exact fixed (.iri value)
  | literal value => exact fixed (.literal value)

/-- A term that fits the final bindings can be accepted on the way to them. -/
theorem exists_accept {pattern : PatternTerm} {term : Term} {start final : Bindings}
    (here : pattern.instantiate final = some term)
    (kept : ∀ name term, OrderedMap.get? start name = some term →
      OrderedMap.get? final name = some term) :
    ∃ middle, pattern.accept term start = some middle ∧
      ∀ name term, OrderedMap.get? middle name = some term →
        OrderedMap.get? final name = some term := by
  have named : ∀ name, OrderedMap.get? final name = some term →
      ∃ middle, Bindings.bind start name term = some middle ∧
        ∀ name term, OrderedMap.get? middle name = some term →
          OrderedMap.get? final name = some term := by
    intro name found
    refine ⟨OrderedMap.insert start name term, Bindings.bind_eq_some_iff.mpr
      ⟨fun bound held => ?_, fun other => OrderedMap.get?_insert ..⟩, fun other value look => ?_⟩
    · exact Option.some.inj ((kept name bound held).symm.trans found)
    · rw [OrderedMap.get?_insert] at look
      split at look
      next same => rw [same, found, look]
      next => exact kept other value look
  cases pattern with
  | «variable» name => exact named name here
  | blank label => exact named _ here
  | iri value => exact ⟨start, if_pos (Option.some.inj here).symm, kept⟩
  | literal value => exact ⟨start, if_pos (Option.some.inj here).symm, kept⟩

end PatternTerm

def PatternPredicate.toTerm : PatternPredicate → PatternTerm
  | .variable name => .variable name
  | .iri value => .iri value

theorem PatternPredicate.accept_eq (pattern : PatternPredicate) (predicate : String)
    (bindings : Bindings) :
    pattern.accept predicate bindings = pattern.toTerm.accept (.iri predicate) bindings := by
  cases pattern with
  | «variable» name => rfl
  | iri value => simp only [accept, toTerm, PatternTerm.accept, Term.iri.injEq]

theorem PatternPredicate.bindingName?_toTerm (pattern : PatternPredicate) :
    pattern.toTerm.bindingName? = pattern.bindingName? := by
  cases pattern <;> rfl

theorem PatternTerm.foldlM_accept_eq_some_iff {demands : List (PatternTerm × Term)}
    {start bindings : Bindings} :
    demands.foldlM (fun current demand => demand.1.accept demand.2 current) start =
        some bindings ↔
      (∀ demand ∈ demands, demand.1.instantiate bindings = some demand.2) ∧
        Bindings.Extends (fun name => ∃ demand ∈ demands, demand.1.bindingName? = some name)
          start bindings := by
  induction demands generalizing start with
  | nil =>
    rw [List.foldlM_nil, Option.pure_def, Option.some.injEq]
    constructor
    · rintro rfl
      exact ⟨fun _ member => absurd member List.not_mem_nil, fun _ _ found => found,
        fun _ => Or.inr rfl⟩
    · intro both
      obtain ⟨-, extended⟩ := both
      refine (OrderedMap.ext_get? fun name => (extended.others name).resolve_left ?_).symm
      simp
  | cons demand rest ih =>
    obtain ⟨pattern, term⟩ := demand
    rw [List.foldlM_cons, Option.bind_eq_bind, Option.bind_eq_some_iff, List.forall_mem_cons]
    simp only [ih, PatternTerm.accept_eq_some_iff, List.exists_mem_cons_iff]
    constructor
    · intro found
      obtain ⟨middle, ⟨here, first⟩, later, second⟩ := found
      refine ⟨⟨PatternTerm.instantiate_extends second here, later⟩,
        fun name held found => second.kept name held (first.kept name held found), fun name => ?_⟩
      rcases second.others name with asked | same
      · exact Or.inl (Or.inr asked)
      · rcases first.others name with named | unchanged
        · exact Or.inl (Or.inl named)
        · exact Or.inr (same.trans unchanged)
    · intro both
      obtain ⟨⟨here, later⟩, kept, others⟩ := both
      obtain ⟨middle, accepted, keptMiddle⟩ := PatternTerm.exists_accept here kept
      obtain ⟨found, extended⟩ := PatternTerm.accept_eq_some_iff.mp accepted
      refine ⟨middle, ⟨found, extended⟩, later, keptMiddle, fun name => ?_⟩
      rcases others name with (named | asked) | same
      · rw [PatternTerm.instantiate_of_bindingName named] at here found
        exact Or.inr (here.trans found.symm)
      · exact Or.inl asked
      · refine Or.inr (same.trans ?_)
        cases old : OrderedMap.get? start name with
        | some term => exact (extended.kept name term old).symm
        | none =>
          cases new : OrderedMap.get? middle name with
          | none => rfl
          | some term =>
            have final := keptMiddle name term new
            rw [same, old] at final
            cases final

namespace TriplePattern

def demands (pattern : TriplePattern) (triple : Triple) : List (PatternTerm × Term) :=
  [(pattern.subject, triple.subject.toTerm), (pattern.predicate.toTerm, .iri triple.predicate),
    (pattern.object, triple.object)]

/-- The pattern becomes the triple when its names stand for the terms bound to them. -/
def Becomes (pattern : TriplePattern) (bindings : Bindings) (triple : Triple) : Prop :=
  ∀ demand ∈ pattern.demands triple, demand.1.instantiate bindings = some demand.2

theorem mem_bindingNames_iff {pattern : TriplePattern} {name : String} (triple : Triple) :
    name ∈ pattern.bindingNames ↔
      ∃ demand ∈ pattern.demands triple, demand.1.bindingName? = some name := by
  simp [bindingNames, demands, PatternPredicate.bindingName?_toTerm, eq_comm]

theorem matchTriple_eq_foldlM (pattern : TriplePattern) (triple : Triple) :
    pattern.matchTriple triple = (pattern.demands triple).foldlM
      (fun current demand => demand.1.accept demand.2 current) OrderedMap.empty := by
  simp [matchTriple, demands, PatternPredicate.accept_eq]

theorem matchTriple_eq_some_iff {pattern : TriplePattern} {triple : Triple} {bindings : Bindings} :
    pattern.matchTriple triple = some bindings ↔
      pattern.Becomes bindings triple ∧
        ∀ name, name ∈ OrderedMap.names bindings ↔ name ∈ pattern.bindingNames := by
  rw [matchTriple_eq_foldlM, PatternTerm.foldlM_accept_eq_some_iff]
  apply and_congr_right
  intro becomes
  have bound : ∀ name ∈ pattern.bindingNames, name ∈ OrderedMap.names bindings := by
    intro name member
    obtain ⟨demand, asked, named⟩ := (mem_bindingNames_iff triple).mp member
    have found := becomes demand asked
    rw [PatternTerm.instantiate_of_bindingName named] at found
    rw [OrderedMap.mem_names_iff, found]
    rfl
  constructor
  · intro extended name
    refine ⟨fun member => ?_, bound name⟩
    rcases extended.others name with asked | same
    · exact (mem_bindingNames_iff triple).mpr asked
    · rw [OrderedMap.mem_names_iff, same] at member
      cases member
  · intro names
    refine ⟨fun name term found => (by cases found), fun name => ?_⟩
    by_cases member : name ∈ pattern.bindingNames
    · exact Or.inl ((mem_bindingNames_iff triple).mp member)
    · exact Or.inr (OrderedMap.get?_eq_none_iff.mpr fun inside => member ((names name).mp inside))

theorem separatorFree_of_matchTriple {pattern : TriplePattern} {triple : Triple}
    {bindings : Bindings} (matched : pattern.matchTriple triple = some bindings)
    (free : triple.SeparatorFree) : bindings.SeparatorFree := by
  obtain ⟨becomes, names⟩ := matchTriple_eq_some_iff.mp matched
  rw [Bindings.separatorFree_iff]
  intro name term found
  have member : name ∈ OrderedMap.names bindings := by
    rw [OrderedMap.mem_names_iff, found]
    rfl
  obtain ⟨demand, asked, named⟩ := (mem_bindingNames_iff triple).mp ((names name).mp member)
  have same := becomes demand asked
  rw [PatternTerm.instantiate_of_bindingName named, found] at same
  rw [Option.some.inj same]
  obtain ⟨subject, predicate, object⟩ := free
  simp only [demands, List.mem_cons, List.not_mem_nil, or_false] at asked
  rcases asked with rfl | rfl | rfl
  · exact subject
  · exact predicate
  · exact object

end TriplePattern

end ContinuousQuery
