import ContinuousQuery.Projection
import ContinuousQuery.Proofs.OrderedMaps
import Mathlib.Data.List.Induction

/-!
Rebindings and projections. Elements of a rebinding run from the first to the last, each on
what the earlier ones have made of the input. The projection that is planned for them reads
the input alone, and it keeps exactly what the elements give to the projected names.
-/

namespace ContinuousQuery

theorem OrderedMap.get?_filterNames {α : Type} (map : OrderedMap α) (keep : String → Bool)
    (name : String) :
    (map.filterNames keep).get? name = if keep name then map.get? name else none := by
  by_cases kept : keep name
  · rw [if_pos kept]
    apply Option.ext
    intro value
    rw [get?_eq_some_iff, get?_eq_some_iff, filterNames, List.mem_filter]
    exact and_iff_left kept
  · rw [if_neg kept, get?_eq_none_iff, mem_names_filterNames]
    exact fun both => kept both.2

namespace Projection

/-- Gives the value of the source to the target, or unbinds the target if there is none. -/
def Element.rebind (element : Element) (bindings : Bindings) : Bindings :=
  match element.source.value? bindings with
  | some term => OrderedMap.insert bindings element.target term
  | none => OrderedMap.filterNames bindings (fun name => name ≠ element.target)

theorem Element.get?_rebind (element : Element) (bindings : Bindings) (name : String) :
    OrderedMap.get? (element.rebind bindings) name =
      if name = element.target then element.source.value? bindings
      else OrderedMap.get? bindings name := by
  unfold Element.rebind
  cases element.source.value? bindings with
  | some term => exact OrderedMap.get?_insert ..
  | none =>
    apply (OrderedMap.get?_filterNames ..).trans
    by_cases here : name = element.target <;> simp [here]

end Projection

namespace Bindings

def rebind (elements : List Projection.Element) (bindings : Bindings) : Bindings :=
  elements.foldl (fun current element => element.rebind current) bindings

def restrict (names : List String) (bindings : Bindings) : Bindings :=
  OrderedMap.filterNames bindings (fun name => name ∈ names)

theorem get?_restrict (names : List String) (bindings : Bindings) (name : String) :
    OrderedMap.get? (restrict names bindings) name =
      if name ∈ names then OrderedMap.get? bindings name else none := by
  apply (OrderedMap.get?_filterNames ..).trans
  by_cases member : name ∈ names <;> simp [member]

end Bindings

namespace Projection

/-- The resolved source of a name reads from the input what the elements bind to the name. -/
theorem value?_resolve (elements : List Element) (bindings : Bindings) (name : String) :
    (resolve elements.reverse name).value? bindings =
      OrderedMap.get? (Bindings.rebind elements bindings) name := by
  induction elements using List.reverseRecOn generalizing name with
  | nil => rfl
  | append_singleton earlier last ih =>
    rw [List.reverse_append, List.reverse_singleton, List.singleton_append, resolve,
      Bindings.rebind, List.foldl_append, List.foldl_cons, List.foldl_nil, Element.get?_rebind]
    by_cases here : last.target = name
    · rw [if_pos here, if_pos here.symm]
      cases last.source with
      | binding source => exact ih source
      | constant term => rfl
    · rw [if_neg here, if_neg (Ne.symm here)]
      exact ih name

theorem get?_projectBindings (source : String → Source) (names : List String) (input : Bindings)
    (name : String) :
    OrderedMap.get? (projectBindings ⟨names.map (fun name => ⟨source name, name⟩)⟩ input) name =
      if name ∈ names then (source name).value? input else none := by
  induction names using List.reverseRecOn with
  | nil => rfl
  | append_singleton names last ih =>
    rw [projectBindings] at ih ⊢
    rw [List.map_append, List.foldl_append, List.map_singleton, List.foldl_cons, List.foldl_nil]
    have member : name ∈ names ++ [last] ↔ name = last ∨ name ∈ names := by
      rw [List.mem_append, List.mem_singleton, or_comm]
    simp only [member]
    by_cases here : name = last
    · subst here
      rw [if_pos (Or.inl rfl), assign]
      cases value : (source name).value? input with
      | some term => exact OrderedMap.get?_insert_self ..
      | none =>
        rw [ih, value]
        exact ite_self none
    · have before : OrderedMap.get? (assign input
          ((names.map (fun name => (⟨source name, name⟩ : Element))).foldl (assign input)
            OrderedMap.empty) ⟨source last, last⟩) name =
          if name ∈ names then (source name).value? input else none := by
        rw [← ih, assign]
        cases (source last).value? input with
        | some term => exact OrderedMap.get?_insert_of_ne _ _ here
        | none => rfl
      rw [before]
      simp only [here, false_or]

theorem projectBindings_ofRebindings (elements : List Element) (names : List String)
    (input : Bindings) :
    (ofRebindings elements names).projectBindings input =
      Bindings.restrict names (Bindings.rebind elements input) := by
  apply OrderedMap.ext_get?
  intro name
  rw [ofRebindings, get?_projectBindings (resolve elements.reverse), Bindings.get?_restrict,
    value?_resolve]

end Projection

namespace Solution

def rebind (elements : List Projection.Element) (solution : Solution) : Solution :=
  ⟨Bindings.rebind elements solution.content, solution.visibility⟩

def restrict (names : List String) (solution : Solution) : Solution :=
  ⟨Bindings.restrict names solution.content, solution.visibility⟩

theorem project_ofRebindings (elements : List Projection.Element) (names : List String)
    (solution : Solution) :
    (Projection.ofRebindings elements names).project solution =
      restrict names (rebind elements solution) := by
  rw [Projection.project, Projection.projectBindings_ofRebindings]
  rfl

end Solution

end ContinuousQuery
