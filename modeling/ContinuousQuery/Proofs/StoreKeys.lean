import ContinuousQuery.Stream.JoinState
import ContinuousQuery.Proofs.Compatibility
import ContinuousQuery.Proofs.StoreScan
import ContinuousQuery.Proofs.TermText
import Mathlib.Data.List.Forall2

/-!
Keys of join states. A key determines the side, the visibility and the binding of every
listed name, provided that no component of it can swallow a separator. The candidates of
an arrival are a part of what arrived on the other side, in the order of the keys, and no
solution that is compatible with the arrival is missing from it.
-/

namespace ContinuousQuery

namespace JoinState

theorem toList_components_cons (part : String) (parts : List String) :
    (components (part :: parts)).toList = part.toList ++ separator :: (components parts).toList := by
  simp [components]

theorem toList_components_append (first second : List String) :
    (components (first ++ second)).toList =
      (components first).toList ++ (components second).toList := by
  rw [components, List.map_append, String.join_append, String.toList_append]
  rfl

theorem append_separator_inj {first second firstRest secondRest : List Char}
    (firstFree : separator ∉ first) (secondFree : separator ∉ second)
    (same : first ++ separator :: firstRest = second ++ separator :: secondRest) :
    first = second ∧ firstRest = secondRest := by
  induction first generalizing second with
  | nil =>
    cases second with
    | nil => exact ⟨rfl, (List.cons_inj_right _).mp same⟩
    | cons char second => exact absurd (List.cons.inj same).1 (List.ne_of_not_mem_cons secondFree)
  | cons char first ih =>
    cases second with
    | nil => exact absurd (List.cons.inj same).1.symm (List.ne_of_not_mem_cons firstFree)
    | cons other second =>
      obtain ⟨rfl, rest⟩ := List.cons.inj same
      obtain ⟨rfl, equal⟩ := ih (List.not_mem_of_not_mem_cons firstFree)
        (List.not_mem_of_not_mem_cons secondFree) rest
      exact ⟨rfl, equal⟩

/-- Two components that a reader of keys cannot confuse unless they are equal. -/
def Unmistakable (first second : String) : Prop :=
  first = second ∨ separator ∉ first.toList ∧ separator ∉ second.toList

theorem components_cons_inj {first second : String} {firstRest secondRest : List String}
    (unmistakable : Unmistakable first second)
    (same : components (first :: firstRest) = components (second :: secondRest)) :
    first = second ∧ components firstRest = components secondRest := by
  have chars := congrArg String.toList same
  rw [toList_components_cons, toList_components_cons] at chars
  rcases unmistakable with rfl | ⟨firstFree, secondFree⟩
  · have rest := (List.cons.inj (List.append_cancel_left chars)).2
    exact ⟨rfl, String.toList_inj.mp rest⟩
  · obtain ⟨head, rest⟩ := append_separator_inj firstFree secondFree chars
    exact ⟨String.toList_inj.mp head, String.toList_inj.mp rest⟩

/-- The last component may be any text, since nothing follows it. -/
theorem components_inj {first second : List String} {last other : String}
    (unmistakable : List.Forall₂ Unmistakable first second)
    (same : components (first ++ [last]) = components (second ++ [other])) :
    first = second ∧ last = other := by
  induction unmistakable with
  | nil =>
    have chars := congrArg String.toList same
    rw [List.nil_append, List.nil_append, toList_components_cons, toList_components_cons] at chars
    exact ⟨rfl, String.toList_inj.mp (List.append_cancel_right chars)⟩
  | cons head _ ih =>
    obtain ⟨rfl, rest⟩ := components_cons_inj head same
    obtain ⟨rfl, rfl⟩ := ih rest
    exact ⟨rfl, rfl⟩

end JoinState

theorem Side.unmistakable_text (first second : Side) :
    JoinState.Unmistakable first.text second.text := by
  refine Or.inr ⟨?_, ?_⟩
  · cases first <;> decide
  · cases second <;> decide

theorem Side.text_injective {first second : Side} (same : first.text = second.text) :
    first = second := by
  revert same
  cases first <;> cases second <;> decide

namespace JoinKeys

open JoinState

def Complete (keys : JoinKeys) (solution : Solution) : Prop :=
  ∀ name ∈ keys.joinNames, (OrderedMap.get? solution.content name).isSome

instance (keys : JoinKeys) (solution : Solution) : Decidable (keys.Complete solution) :=
  inferInstanceAs (Decidable (∀ name ∈ keys.joinNames, _))

def mark (keys : JoinKeys) (solution : Solution) : String :=
  if keys.Complete solution then fullyBound else partiallyBound

theorem mapM_text (names : List String) (solution : Solution) :
    names.mapM (fun name => (OrderedMap.get? solution.content name).map Term.text) =
      if ∀ name ∈ names, (OrderedMap.get? solution.content name).isSome then
        some (names.map (valueText solution))
      else none := by
  induction names with
  | nil => rfl
  | cons name names ih =>
    rw [List.mapM_cons, ih]
    cases found : OrderedMap.get? solution.content name with
    | none =>
      have missing : ¬∀ other ∈ name :: names,
          (OrderedMap.get? solution.content other).isSome := by
        intro all
        have bound := all name List.mem_cons_self
        rw [found] at bound
        cases bound
      rw [if_neg missing]
      rfl
    | some term =>
      by_cases rest : ∀ other ∈ names, (OrderedMap.get? solution.content other).isSome
      · rw [if_pos rest, if_pos (List.forall_mem_cons.mpr ⟨by rw [found]; rfl, rest⟩)]
        simp [found, valueText]
      · rw [if_neg rest, if_neg (fun all => rest (List.forall_mem_cons.mp all).2)]
        rfl

theorem joinPrefix?_eq (keys : JoinKeys) (side : Side) (solution : Solution) :
    keys.joinPrefix? side solution =
      if keys.Complete solution then
        some (side.text :: fullyBound :: keys.joinNames.map (valueText solution))
      else none := by
  rw [joinPrefix?, mapM_text]
  change Option.map _ (if keys.Complete solution then _ else _) = _
  by_cases complete : keys.Complete solution
  · rw [if_pos complete, if_pos complete, Option.map_some]
  · rw [if_neg complete, if_neg complete, Option.map_none]

theorem keyParts_eq (keys : JoinKeys) (side : Side) (solution : Solution) :
    keys.keyParts side solution =
      (side.text :: keys.mark solution ::
        (keys.joinNames ++ keys.allNames).map (valueText solution)) ++ [solution.visibility] := by
  rw [keyParts, joinPrefix?_eq, mark]
  by_cases complete : keys.Complete solution
  · rw [if_pos complete, if_pos complete, Option.getD_some, List.map_append]
    rfl
  · rw [if_neg complete, if_neg complete, Option.getD_none, List.map_append]
    rfl

theorem unmistakable_mark (keys : JoinKeys) (first second : Solution) :
    Unmistakable (keys.mark first) (keys.mark second) := by
  have free : ∀ solution, separator ∉ (keys.mark solution).toList := by
    intro solution
    unfold mark
    split <;> decide
  exact Or.inr ⟨free first, free second⟩

theorem side_eq_of_key_eq {keys : JoinKeys} {side other : Side} {first second : Solution}
    (same : keys.key side first = keys.key other second) : side = other := by
  rw [key, key, keyParts_eq, keyParts_eq] at same
  exact Side.text_injective (components_cons_inj (side.unmistakable_text other) same).1

/-- Whether solutions have the same visibility and bind the names of a join to the same terms. -/
def Alike (keys : JoinKeys) (first second : Solution) : Prop :=
  first.visibility = second.visibility ∧ ∀ name ∈ keys.allNames,
    OrderedMap.get? first.content name = OrderedMap.get? second.content name

def Lists (keys : JoinKeys) (solution : Solution) : Prop :=
  ∀ name ∈ OrderedMap.names solution.content, name ∈ keys.allNames

instance (keys : JoinKeys) : DecidablePred keys.Lists := fun solution =>
  inferInstanceAs (Decidable (∀ name ∈ OrderedMap.names solution.content, name ∈ keys.allNames))

theorem Alike.eq {keys : JoinKeys} {first second : Solution} (alike : keys.Alike first second)
    (firstListed : keys.Lists first) (secondListed : keys.Lists second) : first = second := by
  obtain ⟨visibility, bindings⟩ := alike
  have content : first.content = second.content := by
    apply OrderedMap.ext_get?
    intro name
    by_cases known : name ∈ keys.allNames
    · exact bindings name known
    · rw [OrderedMap.get?_eq_none_iff.mpr (mt (firstListed name) known),
        OrderedMap.get?_eq_none_iff.mpr (mt (secondListed name) known)]
  cases first
  cases second
  cases content
  cases visibility
  rfl

theorem key_inj {keys : JoinKeys} {side other : Side} {first second : Solution}
    (unmistakable : ∀ name, Unmistakable (valueText first name) (valueText second name))
    (same : keys.key side first = keys.key other second) : keys.Alike first second := by
  have values : List.Forall₂ Unmistakable
      ((keys.joinNames ++ keys.allNames).map (valueText first))
      ((keys.joinNames ++ keys.allNames).map (valueText second)) := by
    rw [List.forall₂_map_left_iff, List.forall₂_map_right_iff, List.forall₂_same]
    exact fun name _ => unmistakable name
  rw [key, key, keyParts_eq, keyParts_eq] at same
  obtain ⟨parts, visibility⟩ := components_inj
    (.cons (side.unmistakable_text other) (.cons (keys.unmistakable_mark first second) values)) same
  refine ⟨visibility, fun name member => valueText_inj.mp ?_⟩
  have texts := (List.cons.inj (List.cons.inj parts).2).2
  exact List.map_inj_left.mp texts name (List.mem_append_right _ member)

/-! Candidates -/

/-- Whether the candidates of an arrival include what is stored under a key. -/
def reaches (keys : JoinKeys) (side : Side) (arrived : Solution) (key : String) : Bool :=
  match keys.joinPrefix? side.opposite arrived with
  | some start => Store.hasPrefix (components start) key ||
      Store.hasPrefix (components [side.opposite.text, partiallyBound]) key
  | none => Store.hasPrefix (components [side.opposite.text]) key

theorem filter_append_filter {α : Type} {before : α → α → Prop} {first second : α → Bool}
    {entries : List α} (ascending : entries.Pairwise before)
    (disjoint : ∀ entry, first entry → ¬second entry)
    (ordered : ∀ entry other, first entry → second other → ¬before other entry) :
    entries.filter first ++ entries.filter second =
      entries.filter (fun entry => first entry || second entry) := by
  induction entries with
  | nil => rfl
  | cons head rest ih =>
    obtain ⟨below, restAscending⟩ := List.pairwise_cons.mp ascending
    by_cases isFirst : first head
    · have notSecond := disjoint head isFirst
      simp [isFirst, notSecond, ← ih restAscending]
    · by_cases isSecond : second head
      · have nothing : rest.filter first = [] := by
          rw [List.filter_eq_nil_iff]
          exact fun entry member here => ordered entry head here isSecond (below entry member)
        have merged := ih restAscending
        rw [nothing, List.nil_append] at merged
        simp [isFirst, isSecond, nothing, merged]
      · simp [isFirst, isSecond, ih restAscending]

theorem key_lt_of_marks {side : Side} {values : List String} {first second : String}
    (full : Store.hasPrefix (components (side.text :: fullyBound :: values)) first)
    (partial' : Store.hasPrefix (components [side.text, partiallyBound]) second) :
    first < second := by
  obtain ⟨firstRest, firstChars⟩ := Store.hasPrefix_iff.mp full
  obtain ⟨secondRest, secondChars⟩ := Store.hasPrefix_iff.mp partial'
  have less : first.toList < second.toList := by
    rw [← firstChars, ← secondChars, toList_components_cons, toList_components_cons,
      toList_components_cons, toList_components_cons]
    simp only [List.append_assoc, List.cons_append]
    refine List.append_left_lt (List.cons_lt_cons_iff.mpr (Or.inr ⟨rfl, ?_⟩))
    exact List.cons_lt_cons_iff.mpr (Or.inl (by decide))
  exact less

/-- The candidates are the stored solutions that the arrival reaches, in the order of their keys. -/
theorem candidates_eq_filter (keys : JoinKeys) (store : Store) (side : Side) (arrived : Solution) :
    keys.candidates store side arrived =
      (store.entries.filter (fun entry => keys.reaches side arrived entry.1)).map (·.2) := by
  cases found : keys.joinPrefix? side.opposite arrived with
  | none => simp only [candidates, reaches, found, Store.scan_eq_filter]
  | some start =>
    have form := joinPrefix?_eq keys side.opposite arrived
    rw [found] at form
    by_cases complete : keys.Complete arrived
    · rw [if_pos complete, Option.some.injEq] at form
      subst form
      simp only [candidates, reaches, found, Store.scan_eq_filter]
      refine congrArg (List.map Prod.snd) (filter_append_filter store.ascending ?_ ?_)
      · exact fun entry full partial' => String.lt_irrefl _ (key_lt_of_marks full partial')
      · exact fun entry other full partial' less =>
          String.lt_asymm (key_lt_of_marks full partial') less
    · rw [if_neg complete] at form
      cases form

theorem hasPrefix_components_iff {start : List String} {key : String} :
    Store.hasPrefix (components start) key = true ↔ (components start).toList <+: key.toList :=
  Store.hasPrefix_iff

theorem hasPrefix_key {keys : JoinKeys} {side : Side} {solution : Solution} {start rest : List String}
    (parts : keys.keyParts side solution = start ++ rest) :
    Store.hasPrefix (components start) (keys.key side solution) = true := by
  rw [hasPrefix_components_iff, key, parts, toList_components_append]
  exact List.prefix_append _ _

theorem side_eq_of_hasPrefix {keys : JoinKeys} {side other : Side} {solution : Solution}
    {start : List String}
    (begins : Store.hasPrefix (components (other.text :: start)) (keys.key side solution) = true) :
    side = other := by
  obtain ⟨rest, chars⟩ := hasPrefix_components_iff.mp begins
  rw [key, keyParts_eq, List.cons_append, toList_components_cons, toList_components_cons,
    List.append_assoc, List.cons_append] at chars
  rcases other.unmistakable_text side with equal | ⟨otherFree, sideFree⟩
  · exact (Side.text_injective equal).symm
  · have heads := (append_separator_inj otherFree sideFree chars).1
    exact (Side.text_injective (String.toList_inj.mp heads)).symm

theorem side_eq_of_reaches {keys : JoinKeys} {side other : Side} {arrived stored : Solution}
    (reached : keys.reaches side arrived (keys.key other stored) = true) : other = side.opposite := by
  rw [reaches, joinPrefix?_eq] at reached
  by_cases complete : keys.Complete arrived
  · rw [if_pos complete] at reached
    rcases Bool.or_eq_true_iff.mp reached with full | partial'
    · exact side_eq_of_hasPrefix full
    · exact side_eq_of_hasPrefix partial'
  · rw [if_neg complete] at reached
    exact side_eq_of_hasPrefix reached

/-- An arrival reaches every compatible solution of the other side: either both bind all join
names, then to the same terms, or the scan does not depend on what the other one binds. -/
theorem reaches_of_compatible {keys : JoinKeys} {side : Side} {arrived stored : Solution}
    (compatible : Solution.Compatible arrived stored) :
    keys.reaches side arrived (keys.key side.opposite stored) = true := by
  rw [reaches, joinPrefix?_eq]
  by_cases complete : keys.Complete arrived
  · rw [if_pos complete]
    apply Bool.or_eq_true_iff.mpr
    by_cases both : keys.Complete stored
    · left
      have values : keys.joinNames.map (valueText arrived) =
          keys.joinNames.map (valueText stored) := by
        refine List.map_inj_left.mpr fun name member => valueText_inj.mpr ?_
        obtain ⟨first, onArrived⟩ := Option.isSome_iff_exists.mp (complete name member)
        obtain ⟨second, onStored⟩ := Option.isSome_iff_exists.mp (both name member)
        rw [onArrived, onStored, compatible name first second onArrived onStored]
      apply hasPrefix_key
      rw [keyParts_eq, mark, if_pos both, values, List.map_append]
      simp only [List.cons_append, List.append_assoc]
      rfl
    · right
      apply hasPrefix_key
      rw [keyParts_eq, mark, if_neg both]
      rfl
  · rw [if_neg complete]
    apply hasPrefix_key
    rw [keyParts_eq]
    rfl

def arrivedOn (keys : JoinKeys) (store : Store) (side : Side) : List Solution :=
  (store.entries.filter (fun entry => entry.1 = keys.key side entry.2)).map (·.2)

/-- Every key of the store is the key of its solution on one of the sides. -/
def Keyed (keys : JoinKeys) (store : Store) : Prop :=
  ∀ entry ∈ store.entries, ∃ side, entry.1 = keys.key side entry.2

theorem filterMap_candidates {β : Type} {keys : JoinKeys} {store : Store} (keyed : keys.Keyed store)
    (side : Side) (arrived : Solution) {pair : Solution → Option β}
    (skips : ∀ stored, ¬Solution.Compatible arrived stored → pair stored = none) :
    (keys.candidates store side arrived).filterMap pair =
      (keys.arrivedOn store side.opposite).filterMap pair := by
  rw [candidates_eq_filter, arrivedOn, List.filterMap_map, List.filterMap_map,
    List.filterMap_filter, List.filterMap_filter]
  apply List.filterMap_congr
  intro entry member
  obtain ⟨origin, stored⟩ := keyed entry member
  by_cases compatible : Solution.Compatible arrived entry.2
  · by_cases here : origin = side.opposite
    · subst here
      have reached : keys.reaches side arrived (keys.key side.opposite entry.2) = true :=
        reaches_of_compatible compatible
      rw [← stored] at reached
      rw [if_pos reached, if_pos (decide_eq_true stored)]
    · have unreached : ¬keys.reaches side arrived entry.1 = true := by
        rw [stored]
        exact fun reached => here (side_eq_of_reaches reached)
      have elsewhere : ¬entry.1 = keys.key side.opposite entry.2 := by
        rw [stored]
        exact fun same => here (side_eq_of_key_eq same)
      rw [if_neg unreached, if_neg (by simpa using elsewhere)]
  · simp [skips entry.2 compatible]

end JoinKeys

end ContinuousQuery
