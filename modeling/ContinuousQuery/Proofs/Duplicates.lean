import ContinuousQuery.Proofs.JoinHistory

/-!
Duplicates among the arrivals at a join. Two keys of a planned join are equal exactly if side,
visibility and the bindings of all its names are, as long as no IRI, label or language tag of
the terms contains the separator. So a store refuses what it has been given before on the
same side, and nothing else.
-/

namespace ContinuousQuery

namespace JoinKeys

open JoinState

theorem key_congr {keys : JoinKeys} (joinNames : ∀ name ∈ keys.joinNames, name ∈ keys.allNames)
    {first second : Solution} (alike : keys.Alike first second) (side : Side) :
    keys.key side first = keys.key side second := by
  obtain ⟨visibility, bindings⟩ := alike
  have complete : keys.Complete first ↔ keys.Complete second :=
    forall₂_congr fun name member => by rw [bindings name (joinNames name member)]
  have marks : keys.mark first = keys.mark second := by
    rw [mark, mark]
    simp only [complete]
  have values : (keys.joinNames ++ keys.allNames).map (valueText first) =
      (keys.joinNames ++ keys.allNames).map (valueText second) := by
    refine List.map_inj_left.mpr fun name member => valueText_inj.mpr (bindings name ?_)
    exact (List.mem_append.mp member).elim (joinNames name) id
  rw [key, key, keyParts_eq, keyParts_eq, marks, values, visibility]

theorem key_eq_iff {left right : NameSet} {side other : Side} {first second : Solution}
    (firstFree : Bindings.SeparatorFree first.content)
    (secondFree : Bindings.SeparatorFree second.content) :
    (plan left right).key side first = (plan left right).key other second ↔
      side = other ∧ (plan left right).Alike first second := by
  constructor
  · intro same
    refine ⟨side_eq_of_key_eq same, key_inj (fun name => Or.inr ⟨?_, ?_⟩) same⟩
    · exact separator_notMem_valueText (Bindings.separatorFree_iff.mp firstFree name)
    · exact separator_notMem_valueText (Bindings.separatorFree_iff.mp secondFree name)
  · rintro ⟨rfl, alike⟩
    refine key_congr (fun name member => ?_) alike side
    exact mem_allNames_plan.mpr (Or.inl (mem_joinNames_plan.mp member).1)

/-- The store after insertions one after the other. What is refused changes nothing. -/
def insertAll (keys : JoinKeys) (store : Store) (arrivals : List Arrival) : Store :=
  arrivals.foldl (fun store arrival => (keys.insert? store arrival.1 arrival.2).getD store) store

theorem insert?_eq_none_iff {keys : JoinKeys} {store : Store} {side : Side} {solution : Solution} :
    keys.insert? store side solution = none ↔
      OrderedMap.contains store (keys.key side solution) = true := by
  simp [insert?]

theorem contains_getD_insert? (keys : JoinKeys) (store : Store) (side : Side) (solution : Solution)
    (key : String) :
    OrderedMap.contains ((keys.insert? store side solution).getD store) key = true ↔
      key = keys.key side solution ∨ OrderedMap.contains store key = true := by
  by_cases known : OrderedMap.contains store (keys.key side solution) = true
  · rw [insert?_eq_none_iff.mpr known, Option.getD_none]
    refine ⟨Or.inr, fun either => either.elim (fun here => ?_) id⟩
    exact here ▸ known
  · rw [insert?, if_neg known, Option.getD_some, Store.put, OrderedMap.contains,
      OrderedMap.get?_insert]
    by_cases here : key = keys.key side solution <;> simp [here, OrderedMap.contains]

theorem contains_insertAll {keys : JoinKeys} {store : Store} {arrivals : List Arrival}
    {key : String} :
    OrderedMap.contains (keys.insertAll store arrivals) key = true ↔
      (∃ arrival ∈ arrivals, key = keys.key arrival.1 arrival.2) ∨
        OrderedMap.contains store key = true := by
  induction arrivals generalizing store with
  | nil => simp [insertAll]
  | cons arrival rest ih =>
    have grown : keys.insertAll store (arrival :: rest) =
        keys.insertAll ((keys.insert? store arrival.1 arrival.2).getD store) rest := rfl
    rw [grown, ih, contains_getD_insert?, List.exists_mem_cons_iff, or_assoc]
    exact or_left_comm

theorem insert?_insertAll_eq_none_iff {left right : NameSet} {arrivals : List Arrival}
    (earlierFree : ∀ arrival ∈ arrivals, Bindings.SeparatorFree arrival.2.content)
    {solution : Solution} (free : Bindings.SeparatorFree solution.content) (side : Side) :
    (plan left right).insert? ((plan left right).insertAll OrderedMap.empty arrivals) side
        solution = none ↔
      ∃ earlier, (side, earlier) ∈ arrivals ∧ (plan left right).Alike solution earlier := by
  have none : OrderedMap.contains (OrderedMap.empty : Store)
      ((plan left right).key side solution) ≠ true := Bool.false_ne_true
  rw [insert?_eq_none_iff, contains_insertAll, or_iff_left none]
  constructor
  · rintro ⟨⟨other, earlier⟩, member, same⟩
    obtain ⟨rfl, alike⟩ := (key_eq_iff free (earlierFree _ member)).mp same
    exact ⟨earlier, member, alike⟩
  · rintro ⟨earlier, member, alike⟩
    exact ⟨(side, earlier), member, (key_eq_iff free (earlierFree _ member)).mpr ⟨rfl, alike⟩⟩

/-- Keys of a planned join tell apart what differs in side, visibility or the binding of a name,
and a store refuses a solution of these names if it has been inserted before on the same side. -/
theorem planned_keys (left right : NameSet) :
    (∀ (side other : Side) (first second : Solution),
      Bindings.SeparatorFree first.content → Bindings.SeparatorFree second.content →
        ((plan left right).key side first = (plan left right).key other second ↔
          side = other ∧ first.visibility = second.visibility ∧
            ∀ name ∈ (plan left right).allNames,
              OrderedMap.get? first.content name = OrderedMap.get? second.content name)) ∧
      (∀ (arrivals : List Arrival) (side : Side) (solution : Solution),
        (∀ arrival ∈ (side, solution) :: arrivals, Bindings.SeparatorFree arrival.2.content ∧
          (plan left right).Lists arrival.2) →
        ((plan left right).insert? ((plan left right).insertAll OrderedMap.empty arrivals) side
            solution = none ↔
          (side, solution) ∈ arrivals)) ∧
      ∀ value : String, ∀ char ∈ (Literal.quoted value).toList, Literal.Printable char := by
  refine ⟨fun _ _ _ _ => key_eq_iff, ?_, Literal.printable_quoted⟩
  intro arrivals side solution known
  obtain ⟨⟨free, listed⟩, earlier⟩ := List.forall_mem_cons.mp known
  rw [insert?_insertAll_eq_none_iff (fun arrival member => (earlier arrival member).1) free]
  constructor
  · rintro ⟨other, member, alike⟩
    have same : solution = other := alike.eq listed (earlier _ member).2
    exact same ▸ member
  · exact fun member => ⟨solution, member, rfl, fun _ _ => rfl⟩

/-- The separator stands in the value of a literal here, and at the end of the visibility. -/
def separatedValue : Solution :=
  ⟨.ofList [("a", .iri "x"), ("b", .literal (.plain "\x1f"))], "v\x1f"⟩

def absentValue : Solution := ⟨.ofList [("a", .iri "x")], "\x1fv\x1f"⟩

theorem planned_keys_separatedValue :
    let keys := plan (.ofNames ["a", "b"]) (.ofNames ["b", "c"])
    let arrivals := [(Side.left, separatedValue), (Side.right, absentValue)]
    (∀ arrival ∈ (Side.left, absentValue) :: arrivals,
        Bindings.SeparatorFree arrival.2.content ∧ keys.Lists arrival.2) ∧
      keys.key .left separatedValue ≠ keys.key .left absentValue ∧
      keys.insert? (keys.insertAll OrderedMap.empty arrivals) .right absentValue = none ∧
      keys.insert? (keys.insertAll OrderedMap.empty arrivals) .left absentValue ≠ none := by
  intro keys arrivals
  have known : ∀ arrival ∈ (Side.left, absentValue) :: arrivals,
      Bindings.SeparatorFree arrival.2.content ∧ keys.Lists arrival.2 := by
    decide
  have again : ∀ arrival ∈ (Side.right, absentValue) :: arrivals,
      Bindings.SeparatorFree arrival.2.content ∧ keys.Lists arrival.2 := by
    decide
  obtain ⟨sameKeys, refuses, -⟩ := planned_keys (.ofNames ["a", "b"]) (.ofNames ["b", "c"])
  refine ⟨known, ?_, (refuses arrivals .right absentValue again).mpr (by decide), ?_⟩
  · intro same
    obtain ⟨-, visibility, -⟩ := (sameKeys _ _ _ _ (by decide) (by decide)).mp same
    exact absurd visibility (by decide)
  · exact fun refused =>
      absurd ((refuses arrivals .left absentValue known).mp refused) (by decide)

end JoinKeys

end ContinuousQuery
