import ContinuousQuery.Proofs.Compatibility
import Mathlib.Logic.Basic

/-!
Joins as a partial operation on bindings. A merge has the bindings of both sides and no others,
so it is their union, and it exists if the union does not give two terms to one name. Hence merges
obey the laws of unions: they are commutative, idempotent and associative, and in any grouping
they exist exactly if all that is merged is compatible in pairs.
-/

namespace ContinuousQuery

namespace Bindings

variable {first second third merged whole : Bindings}

def Within (part whole : Bindings) : Prop :=
  ∀ name term, OrderedMap.get? part name = some term → OrderedMap.get? whole name = some term

theorem Within.compatible (firstWithin : first.Within whole) (secondWithin : second.Within whole) :
    Compatible first second := by
  intro name term other onFirst onSecond
  have same : some term = some other :=
    (firstWithin name term onFirst).symm.trans (secondWithin name other onSecond)
  exact Option.some.inj same

theorem merge_eq_some_iff_union : merge first second = some merged ↔
    ∀ name term, OrderedMap.get? merged name = some term ↔
      OrderedMap.get? first name = some term ∨ OrderedMap.get? second name = some term := by
  rw [merge_eq_some_iff]
  constructor
  · intro both name term
    obtain ⟨compatible, look⟩ := both
    rw [look, Option.or_eq_some_iff]
    refine or_congr_right' fun notFirst => and_iff_right_of_imp fun onSecond => ?_
    -- A term of the first side would be the same one, so there is none.
    rw [Option.eq_none_iff_forall_ne_some]
    intro other onFirst
    exact notFirst (compatible name other term onFirst onSecond ▸ onFirst)
  · intro union
    have firstWithin : first.Within merged := fun name term found =>
      (union name term).mpr (.inl found)
    have secondWithin : second.Within merged := fun name term found =>
      (union name term).mpr (.inr found)
    refine ⟨firstWithin.compatible secondWithin, fun name => ?_⟩
    cases found : OrderedMap.get? first name with
    | none =>
      apply Option.ext
      intro term
      rw [union, found, Option.none_or, or_iff_right (by simp)]
    | some term => exact firstWithin name term found

theorem merge_comm (first second : Bindings) : merge first second = merge second first := by
  apply Option.ext
  intro merged
  rw [merge_eq_some_iff_union, merge_eq_some_iff_union]
  exact forall₂_congr fun _ _ => iff_congr Iff.rfl or_comm

theorem merge_self (bindings : Bindings) : merge bindings bindings = some bindings :=
  merge_eq_some_iff_union.mpr fun _ _ => (or_self_iff).symm

theorem bind_merge_eq_some_iff :
    ((merge first second).bind fun merged => merge merged third) = some whole ↔
      ∀ name term, OrderedMap.get? whole name = some term ↔
        OrderedMap.get? first name = some term ∨ OrderedMap.get? second name = some term ∨
          OrderedMap.get? third name = some term := by
  rw [Option.bind_eq_some_iff]
  constructor
  · intro merges name term
    obtain ⟨merged, inner, outer⟩ := merges
    rw [merge_eq_some_iff_union.mp outer, merge_eq_some_iff_union.mp inner, or_assoc]
  · intro union
    have firstWithin : first.Within whole := fun name term found =>
      (union name term).mpr (.inl found)
    have secondWithin : second.Within whole := fun name term found =>
      (union name term).mpr (.inr (.inl found))
    obtain ⟨merged, inner⟩ := Option.isSome_iff_exists.mp
      (isSome_merge_iff.mpr (firstWithin.compatible secondWithin))
    refine ⟨merged, inner, merge_eq_some_iff_union.mpr fun name term => ?_⟩
    rw [union, merge_eq_some_iff_union.mp inner, or_assoc]

theorem merge_assoc (first second third : Bindings) :
    ((merge first second).bind fun merged => merge merged third) =
      (merge second third).bind fun merged => merge first merged := by
  have rotated : ((merge second third).bind fun merged => merge first merged) =
      (merge second third).bind fun merged => merge merged first :=
    congrArg (merge second third).bind (funext fun merged => merge_comm first merged)
  rw [rotated]
  apply Option.ext
  intro whole
  rw [bind_merge_eq_some_iff, bind_merge_eq_some_iff]
  exact forall₂_congr fun _ _ => iff_congr Iff.rfl or_rotate

theorem compatible_merge_iff (inner : merge first second = some merged) :
    Compatible merged third ↔ Compatible first third ∧ Compatible second third := by
  have union := merge_eq_some_iff_union.mp inner
  constructor
  · intro compatible
    constructor
    · intro name term other onFirst onThird
      exact compatible name term other ((union name term).mpr (.inl onFirst)) onThird
    · intro name term other onSecond onThird
      exact compatible name term other ((union name term).mpr (.inr onSecond)) onThird
  · intro compatible name term other onMerged onThird
    rcases (union name term).mp onMerged with onFirst | onSecond
    · exact compatible.1 name term other onFirst onThird
    · exact compatible.2 name term other onSecond onThird

theorem isSome_bind_merge_iff :
    ((merge first second).bind fun merged => merge merged third).isSome ↔
      Compatible first second ∧ Compatible first third ∧ Compatible second third := by
  cases inner : merge first second with
  | none =>
    have apart : ¬Compatible first second := by
      rw [← isSome_merge_iff, inner]
      exact Bool.false_ne_true
    exact iff_of_false Bool.false_ne_true (fun pairwise => apart pairwise.1)
  | some merged =>
    have together : Compatible first second :=
      isSome_merge_iff.mp (Option.isSome_of_mem inner)
    rw [Option.bind_some, isSome_merge_iff, compatible_merge_iff inner, and_iff_right together]

end Bindings

namespace Solution

theorem map_content_join (first second : Solution) :
    (join first second).map Guarded.content = Bindings.merge first.content second.content := by
  rw [join, Option.map_map]
  exact Option.map_id'

theorem map_content_join_left (first second third : Solution) :
    ((join first second).bind fun joined => join joined third).map Guarded.content =
      (Bindings.merge first.content second.content).bind fun merged =>
        Bindings.merge merged third.content := by
  rw [← map_content_join first second]
  cases join first second with
  | none => rfl
  | some joined => exact map_content_join joined third

theorem map_content_join_right (first second third : Solution) :
    ((join second third).bind fun joined => join first joined).map Guarded.content =
      (Bindings.merge second.content third.content).bind fun merged =>
        Bindings.merge first.content merged := by
  rw [← map_content_join second third]
  cases join second third with
  | none => rfl
  | some joined => exact map_content_join first joined

theorem get?_join_eq_some_iff {first second joined : Solution}
    (same : join first second = some joined) (name : String) (term : Term) :
    OrderedMap.get? joined.content name = some term ↔
      OrderedMap.get? first.content name = some term ∨
        OrderedMap.get? second.content name = some term := by
  have merged : Bindings.merge first.content second.content = some joined.content := by
    rw [← map_content_join, same]
    rfl
  exact Bindings.merge_eq_some_iff_union.mp merged name term

/-- Solutions join exactly if they agree on all names that both bind, and then they bind what
either of them binds. On bindings, the order of joins does not matter in any respect: what one
order joins, the other joins as well and to the same bindings, and three solutions join exactly
if they are compatible in pairs. -/
theorem join_laws (first second third : Solution) :
    ((join first second).isSome ↔ Compatible first second) ∧
      (∀ joined, join first second = some joined →
        (∀ name, name ∈ OrderedMap.names joined.content ↔
          name ∈ OrderedMap.names first.content ∨ name ∈ OrderedMap.names second.content) ∧
        ∀ name term, OrderedMap.get? joined.content name = some term ↔
          OrderedMap.get? first.content name = some term ∨
            OrderedMap.get? second.content name = some term) ∧
      (join first second).map Guarded.content = (join second first).map Guarded.content ∧
      (join first first).map Guarded.content = some first.content ∧
      (((join first second).bind fun joined => join joined third).isSome ↔
        ((join second third).bind fun joined => join first joined).isSome) ∧
      (((join first second).bind fun joined => join joined third).isSome ↔
        Compatible first second ∧ Compatible first third ∧ Compatible second third) ∧
      ((join first second).bind fun joined => join joined third).map Guarded.content =
        ((join second third).bind fun joined => join first joined).map Guarded.content := by
  have regrouped : ((join first second).bind fun joined => join joined third).map Guarded.content =
      ((join second third).bind fun joined => join first joined).map Guarded.content := by
    rw [map_content_join_left, map_content_join_right, Bindings.merge_assoc]
  have pairwise : ((join first second).bind fun joined => join joined third).isSome ↔
      Compatible first second ∧ Compatible first third ∧ Compatible second third := by
    rw [← Option.isSome_map, map_content_join_left]
    exact Bindings.isSome_bind_merge_iff
  refine ⟨isSome_join_iff, fun joined same => ?_, ?_, ?_, ?_, pairwise, regrouped⟩
  · exact ⟨fun name => mem_names_join same, get?_join_eq_some_iff same⟩
  · rw [map_content_join, map_content_join, Bindings.merge_comm]
  · rw [map_content_join, Bindings.merge_self]
  · rw [← Option.isSome_map, regrouped, Option.isSome_map]

/-- Two ends of a path join, and a third solution joins either of them but not both. -/
theorem join_laws_twoEnds :
    let start : Solution := ⟨.ofList [("a", .iri "alice"), ("b", .iri "bob")], "v"⟩
    let finish : Solution := ⟨.ofList [("b", .iri "bob"), ("c", .iri "carol")], "w"⟩
    let shortcut : Solution := ⟨.ofList [("a", .iri "dave"), ("c", .iri "carol")], ""⟩
    let path : Solution :=
      ⟨.ofList [("a", .iri "alice"), ("b", .iri "bob"), ("c", .iri "carol")], "(v)&(w)"⟩
    join start finish = some path ∧
      (∀ name term, OrderedMap.get? path.content name = some term ↔
        OrderedMap.get? start.content name = some term ∨
          OrderedMap.get? finish.content name = some term) ∧
      (join finish shortcut).isSome ∧
      ((join finish shortcut).bind fun joined => join start joined).isSome = false := by
  intro start finish shortcut path
  obtain ⟨-, binds, -, -, groupings, -⟩ := join_laws start finish shortcut
  have joined : join start finish = some path := by decide
  have apart : ((join start finish).bind fun joined => join joined shortcut).isSome = false := by
    decide
  refine ⟨joined, (binds path joined).2, by decide, ?_⟩
  rw [← Bool.not_eq_true, ← groupings, apart]
  exact Bool.false_ne_true

end Solution

end ContinuousQuery
