import ContinuousQuery.Join
import ContinuousQuery.Proofs.OrderedMaps

/-!
When solutions join, and what they join to. Two sets of bindings are compatible if
they agree on every name that both of them bind. Exactly the compatible ones merge,
and the merged bindings give each name the value it has on either side.
-/

namespace ContinuousQuery

namespace Bindings

/-- Names that are bound on both sides are bound to equal terms. -/
def Compatible (left right : Bindings) : Prop :=
  ∀ name first second, OrderedMap.get? left name = some first →
    OrderedMap.get? right name = some second → first = second

theorem Compatible.symm {left right : Bindings} (compatible : Compatible left right) :
    Compatible right left :=
  fun name first second onRight onLeft => (compatible name second first onLeft onRight).symm

theorem compatible_iff_entries {left right : Bindings} : Compatible left right ↔
    ∀ entry ∈ right.entries, ∀ bound ∈ OrderedMap.get? left entry.1, bound = entry.2 := by
  constructor
  · intro compatible entry member bound onLeft
    exact compatible entry.1 bound entry.2 onLeft (OrderedMap.get?_eq_some_iff.mpr member)
  · intro agrees name first second onLeft onRight
    exact agrees (name, second) (OrderedMap.get?_eq_some_iff.mp onRight) first onLeft

instance (left right : Bindings) : Decidable (Compatible left right) :=
  decidable_of_iff _ compatible_iff_entries.symm

/-- The bindings of both sides. A name that both of them bind gets the term of the left side. -/
def union (left right : Bindings) : Bindings := OrderedMap.ofList (right.entries ++ left.entries)

theorem get?_union (left right : Bindings) (name : String) :
    OrderedMap.get? (union left right) name =
      (OrderedMap.get? left name).or (OrderedMap.get? right name) := by
  rw [union, OrderedMap.get?_ofList, OrderedMap.latest?_append,
    ← OrderedMap.find_eq_latest? name left.ascending,
    ← OrderedMap.find_eq_latest? name right.ascending]
  rfl

theorem bind_eq_some_iff {bindings extended : Bindings} {name : String} {term : Term} :
    bind bindings name term = some extended ↔
      (∀ bound, OrderedMap.get? bindings name = some bound → bound = term) ∧
        ∀ other, OrderedMap.get? extended other =
          if other = name then some term else OrderedMap.get? bindings other := by
  unfold bind
  cases found : OrderedMap.get? bindings name with
  | none =>
    simp only [Option.some.injEq, reduceCtorEq, false_implies, implies_true, true_and]
    constructor
    · rintro rfl other
      exact OrderedMap.get?_insert ..
    · intro look
      apply OrderedMap.ext_get?
      intro other
      rw [look, OrderedMap.get?_insert]
  | some bound =>
    by_cases same : bound = term
    · subst same
      have unchanged : ∀ other, OrderedMap.get? bindings other =
          if other = name then some bound else OrderedMap.get? bindings other := by
        intro other
        split
        next here => rw [here, found]
        next => rfl
      simp only [↓reduceIte, Option.some.injEq, forall_eq', true_and]
      constructor
      · rintro rfl
        exact unchanged
      · intro look
        apply OrderedMap.ext_get?
        intro other
        rw [look, ← unchanged]
    · simp [same]

theorem foldlM_bind_eq_some_iff {entries : List (String × Term)} {left merged : Bindings}
    (ascending : entries.Pairwise (fun earlier later => earlier.1 < later.1)) :
    entries.foldlM (fun merged entry => bind merged entry.1 entry.2) left = some merged ↔
      (∀ entry ∈ entries, ∀ bound, OrderedMap.get? left entry.1 = some bound → bound = entry.2) ∧
        ∀ name, OrderedMap.get? merged name =
          (OrderedMap.get? left name).or (OrderedMap.find name entries) := by
  induction entries generalizing left with
  | nil =>
    simp only [List.foldlM_nil, Option.pure_def, Option.some.injEq, List.not_mem_nil, false_implies,
      implies_true, true_and, OrderedMap.find, Option.or_none]
    exact ⟨fun same name => congrArg (OrderedMap.get? · name) same.symm,
      fun look => (OrderedMap.ext_get? look).symm⟩
  | cons head rest ih =>
    obtain ⟨name, term⟩ := head
    obtain ⟨above, ordered⟩ := List.pairwise_cons.mp ascending
    -- The names of the rest differ from the first one, so its binding hides none of theirs.
    have different : ∀ entry ∈ rest, entry.1 ≠ name := fun entry member =>
      (String.ne_of_lt (above entry member)).symm
    have absent : OrderedMap.find name rest = none := OrderedMap.find_eq_none above
    simp only [List.foldlM_cons, Option.bind_eq_bind, Option.bind_eq_some_iff, List.forall_mem_cons]
    constructor
    · intro found
      obtain ⟨extended, bound, later⟩ := found
      obtain ⟨agrees, look⟩ := bind_eq_some_iff.mp bound
      obtain ⟨restAgrees, mergedLook⟩ := (ih ordered).mp later
      refine ⟨⟨agrees, fun entry member held found => restAgrees entry member held ?_⟩, ?_⟩
      · rw [look, if_neg (different entry member), found]
      · intro other
        rw [mergedLook, look]
        by_cases here : other = name
        · subst here
          cases found : OrderedMap.get? left other with
          | none => simp [OrderedMap.find]
          | some held => simp [agrees held found]
        · simp [here, OrderedMap.find]
    · intro both
      obtain ⟨⟨agrees, restAgrees⟩, mergedLook⟩ := both
      refine ⟨OrderedMap.insert left name term, bind_eq_some_iff.mpr ⟨agrees, ?_⟩,
        (ih ordered).mpr ⟨?_, ?_⟩⟩
      · exact fun other => OrderedMap.get?_insert ..
      · intro entry member held found
        rw [OrderedMap.get?_insert_of_ne _ _ (different entry member)] at found
        exact restAgrees entry member held found
      · intro other
        rw [mergedLook, OrderedMap.get?_insert]
        by_cases here : other = name
        · subst here
          cases found : OrderedMap.get? left other with
          | none => simp [OrderedMap.find]
          | some held => simp [agrees held found]
        · simp [here, OrderedMap.find]

theorem merge_eq_some_iff {left right merged : Bindings} :
    merge left right = some merged ↔
      Compatible left right ∧ ∀ name, OrderedMap.get? merged name =
        (OrderedMap.get? left name).or (OrderedMap.get? right name) := by
  rw [merge, foldlM_bind_eq_some_iff right.ascending, compatible_iff_entries]
  rfl

theorem merge_eq_some_iff_eq_union {left right merged : Bindings} :
    merge left right = some merged ↔ Compatible left right ∧ merged = union left right := by
  rw [merge_eq_some_iff]
  refine and_congr_right fun _ => ⟨fun look => OrderedMap.ext_get? fun name => ?_, ?_⟩
  · rw [look, get?_union]
  · rintro rfl name
    exact get?_union left right name

theorem isSome_merge_iff {left right : Bindings} :
    (merge left right).isSome ↔ Compatible left right := by
  rw [Option.isSome_iff_exists]
  simp only [merge_eq_some_iff_eq_union, exists_and_left, exists_eq, and_true]

end Bindings

namespace Solution

def Compatible (left right : Solution) : Prop := Bindings.Compatible left.content right.content

instance (left right : Solution) : Decidable (Compatible left right) :=
  inferInstanceAs (Decidable (Bindings.Compatible left.content right.content))

/-- The bindings of both solutions, for those who may see both. -/
def combined (left right : Solution) : Solution :=
  ⟨Bindings.union left.content right.content,
    combineVisibilities left.visibility right.visibility⟩

theorem join_eq_some_iff_eq_combined {left right joined : Solution} :
    join left right = some joined ↔ Compatible left right ∧ joined = combined left right := by
  rw [join, Option.map_eq_some_iff]
  simp only [Bindings.merge_eq_some_iff_eq_union, and_assoc, exists_and_left, exists_eq_left,
    @eq_comm _ joined]
  rfl

theorem join_eq_some_iff {left right joined : Solution} :
    join left right = some joined ↔
      Compatible left right ∧
        (∀ name, OrderedMap.get? joined.content name =
          (OrderedMap.get? left.content name).or (OrderedMap.get? right.content name)) ∧
        joined.visibility = combineVisibilities left.visibility right.visibility := by
  rw [join, Option.map_eq_some_iff]
  constructor
  · intro found
    obtain ⟨bindings, merged, rfl⟩ := found
    obtain ⟨compatible, look⟩ := Bindings.merge_eq_some_iff.mp merged
    exact ⟨compatible, look, rfl⟩
  · intro found
    obtain ⟨compatible, look, visible⟩ := found
    refine ⟨joined.content, Bindings.merge_eq_some_iff.mpr ⟨compatible, look⟩, ?_⟩
    cases joined
    cases visible
    rfl

theorem isSome_join_iff {left right : Solution} :
    (join left right).isSome ↔ Compatible left right := by
  rw [join, Option.isSome_map, Bindings.isSome_merge_iff]
  rfl

theorem join_eq_none_iff {left right : Solution} :
    join left right = none ↔ ¬Compatible left right := by
  rw [← isSome_join_iff, Option.not_isSome_iff_eq_none]

theorem filterMap_join (left : Solution) (rights : List Solution) :
    rights.filterMap (join left) =
      (rights.filter (fun right => Compatible left right)).map (combined left) := by
  induction rights with
  | nil => rfl
  | cons right rest ih =>
    by_cases compatible : Compatible left right
    · have joined : join left right = some (combined left right) :=
        join_eq_some_iff_eq_combined.mpr ⟨compatible, rfl⟩
      rw [List.filterMap_cons_some joined, ih, List.filter_cons_of_pos (by simpa using compatible),
        List.map_cons]
    · rw [List.filterMap_cons_none (join_eq_none_iff.mpr compatible), ih,
        List.filter_cons_of_neg (by simpa using compatible)]

theorem mem_names_join {left right joined : Solution} (same : join left right = some joined)
    {name : String} : name ∈ OrderedMap.names joined.content ↔
      name ∈ OrderedMap.names left.content ∨ name ∈ OrderedMap.names right.content := by
  obtain ⟨-, look, -⟩ := join_eq_some_iff.mp same
  rw [OrderedMap.mem_names_iff, OrderedMap.mem_names_iff, OrderedMap.mem_names_iff, look]
  cases OrderedMap.get? left.content name <;> simp

end Solution

end ContinuousQuery
