import ContinuousQuery.Solution
import ContinuousQuery.Proofs.CollectedMaps

/-!
Bindings as they come about. Bindings are collected from pairs or changed by insertions, and all
that ever matters is the last pair that a name was given: it is what look-ups find and what the
next insertion of the name returns. So bindings that answer all look-ups alike are the same
bindings, whatever they went through, and they list and print alike.
-/

namespace ContinuousQuery

namespace Bindings

inductive Edit where
  | insert (name : String) (term : Term)
  | collect (pairs : List (String × Term))
deriving DecidableEq, Repr

namespace Edit

/-- What an edit returns and makes of bindings. An insertion returns the term that it replaces. -/
def perform (bindings : Bindings) : Edit → Option Term × Bindings
  | .insert name term => OrderedMap.replace bindings name term
  | .collect pairs => (none, OrderedMap.collect pairs)

def performAll (bindings : Bindings) : List Edit → List (Option Term) × Bindings
  | [] => ([], bindings)
  | edit :: rest =>
    let (returned, after) := edit.perform bindings
    let (later, last) := performAll after rest
    (returned :: later, last)

def give (given : List (String × Term)) : Edit → List (String × Term)
  | .insert name term => given ++ [(name, term)]
  | .collect pairs => pairs

/-- The term that an edit replaces in bindings that have been given some pairs. -/
def replaced? (given : List (String × Term)) : Edit → Option Term
  | .insert name _ => OrderedMap.latest? given name
  | .collect _ => none

/-- The pairs given since the bindings were begun, the first one first. -/
def given (edits : List Edit) : List (String × Term) := edits.foldl give []

def replacedAll (given : List (String × Term)) : List Edit → List (Option Term)
  | [] => []
  | edit :: rest => edit.replaced? given :: replacedAll (edit.give given) rest

theorem perform_ofList (given : List (String × Term)) (edit : Edit) :
    edit.perform (OrderedMap.ofList given) =
      (edit.replaced? given, OrderedMap.ofList (edit.give given)) := by
  cases edit with
  | insert name term =>
    rw [perform, OrderedMap.replace_eq, OrderedMap.get?_ofList, replaced?, give,
      OrderedMap.ofList_concat]
  | collect pairs => rw [perform, OrderedMap.collect_eq_ofList, replaced?, give]

theorem performAll_ofList (edits : List Edit) (given : List (String × Term)) :
    performAll (OrderedMap.ofList given) edits =
      (replacedAll given edits, OrderedMap.ofList (edits.foldl give given)) := by
  induction edits generalizing given with
  | nil => rfl
  | cons edit rest ih =>
    rw [performAll, perform_ofList]
    simp only [ih]
    rfl

theorem performAll_empty (edits : List Edit) :
    performAll OrderedMap.empty edits = (replacedAll [] edits, OrderedMap.ofList (given edits)) :=
  performAll_ofList edits []

theorem foldl_give_insert (pairs given : List (String × Term)) :
    (pairs.map (fun pair => insert pair.1 pair.2)).foldl give given = given ++ pairs := by
  induction pairs generalizing given with
  | nil => exact (List.append_nil given).symm
  | cons pair rest ih =>
    rw [List.map_cons, List.foldl_cons, ih, give, List.append_assoc]
    rfl

/-- Any two sets of bindings that came about by edits are equal, and list and print alike, exactly
if they answer all look-ups alike. A look-up finds the last term that the name was given, and an
insertion returns what a look-up has found before. Bindings list each bound name once and in
ascending order, and collecting them from pairs is inserting the pairs one by one. -/
theorem edits_canonical (first second : List Edit) :
    let left := (performAll OrderedMap.empty first).2
    let right := (performAll OrderedMap.empty second).2
    ((left = right ∧ left.entries = right.entries ∧ text left = text right) ↔
        ∀ name, OrderedMap.get? left name = OrderedMap.get? right name) ∧
      (∀ name, OrderedMap.get? left name = OrderedMap.latest? (given first) name) ∧
      (performAll OrderedMap.empty first).1 = replacedAll [] first ∧
      (∀ name term, (insert name term).perform left =
        (OrderedMap.get? left name, OrderedMap.insert left name term)) ∧
      (OrderedMap.names left).Pairwise (· < ·) ∧
      (∀ name term, (name, term) ∈ left.entries ↔ OrderedMap.get? left name = some term) ∧
      ∀ pairs : List (String × Term), OrderedMap.collect pairs =
        (performAll OrderedMap.empty (pairs.map (fun pair => insert pair.1 pair.2))).2 := by
  intro left right
  refine ⟨?_, fun name => ?_, congrArg Prod.fst (performAll_empty first),
    fun name term => OrderedMap.replace_eq left name term, OrderedMap.pairwise_names left,
    fun name term => OrderedMap.get?_eq_some_iff.symm, fun pairs => ?_⟩
  · constructor
    · intro equal name
      rw [equal.1]
    · intro alike
      have equal : left = right := OrderedMap.ext_get? alike
      exact ⟨equal, congrArg OrderedMap.entries equal, congrArg text equal⟩
  · have collected : left = OrderedMap.ofList (given first) :=
      congrArg Prod.snd (performAll_empty first)
    rw [collected, OrderedMap.get?_ofList]
  · rw [performAll_empty, given, foldl_give_insert, List.nil_append,
      OrderedMap.collect_eq_ofList]

example : performAll OrderedMap.empty
    [.collect [("b", .iri "x"), ("a", .iri "y"), ("b", .iri "z")], .insert "a" (.blank "w")] =
      ([none, some (.iri "y")], OrderedMap.ofList [("a", .blank "w"), ("b", .iri "z")]) := by
  rw [performAll_empty]
  decide

end Edit

end Bindings

end ContinuousQuery
