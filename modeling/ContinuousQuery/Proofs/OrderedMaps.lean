import ContinuousQuery.Plan.JoinKeys
import Mathlib.Data.List.Induction
import Mathlib.Data.List.Nodup
import Mathlib.Order.Basic

/-!
Look-ups determine an ordered map. Entries are exactly the successful look-ups, so
two maps that answer every look-up alike have the same entries in the same order.
Name sets are maps too: their members are the names that planned joins list.
-/

namespace ContinuousQuery

theorem find?_eq_some_of_nodup {α β : Type} {entries : List (α × β)} [DecidableEq α]
    (nodup : (entries.map Prod.fst).Nodup) {entry : α × β} (member : entry ∈ entries) :
    entries.find? (fun other => other.1 = entry.1) = some entry := by
  induction entries with
  | nil => cases member
  | cons head rest ih =>
    obtain ⟨new, later⟩ := List.nodup_cons.mp nodup
    rcases List.mem_cons.mp member with rfl | below
    · simp
    · have different : head.1 ≠ entry.1 := by
        intro same
        exact new (same ▸ List.mem_map_of_mem below)
      rw [List.find?_cons_of_neg (by simpa using different), ih later below]

namespace OrderedMap

variable {α : Type}

theorem find_eq_none {entries : List (String × α)} {name : String}
    (absent : ∀ entry ∈ entries, name < entry.1) : find name entries = none := by
  induction entries with
  | nil => rfl
  | cons head rest ih =>
    obtain ⟨less, later⟩ := List.forall_mem_cons.mp absent
    rw [find, if_neg (String.ne_of_lt less), ih later]

theorem find_eq_some_iff {entries : List (String × α)} {name : String} {value : α}
    (ascending : entries.Pairwise (fun earlier later => earlier.1 < later.1)) :
    find name entries = some value ↔ (name, value) ∈ entries := by
  induction entries with
  | nil => simp [find]
  | cons head rest ih =>
    obtain ⟨other, held⟩ := head
    obtain ⟨above, ordered⟩ := List.pairwise_cons.mp ascending
    by_cases same : name = other
    · subst same
      have elsewhere : (name, value) ∉ rest := fun member =>
        String.lt_irrefl name (above _ member)
      simp [find, elsewhere, eq_comm]
    · simp [find, same, ih ordered]

theorem get?_eq_some_iff {map : OrderedMap α} {name : String} {value : α} :
    map.get? name = some value ↔ (name, value) ∈ map.entries :=
  find_eq_some_iff map.ascending

theorem nodup_entries (map : OrderedMap α) : map.entries.Nodup :=
  map.ascending.imp (fun less same => String.ne_of_lt less (congrArg Prod.fst same))

theorem pairwise_names (map : OrderedMap α) : map.names.Pairwise (· < ·) :=
  List.pairwise_map.mpr map.ascending

theorem nodup_names (map : OrderedMap α) : map.names.Nodup :=
  map.pairwise_names.imp String.ne_of_lt

/-- Equal look-ups force equal entries, because both lists ascend by the same order. -/
theorem ext_get? {first second : OrderedMap α}
    (same : ∀ name, first.get? name = second.get? name) : first = second := by
  have members : ∀ entry, entry ∈ first.entries ↔ entry ∈ second.entries := by
    rintro ⟨name, value⟩
    rw [← get?_eq_some_iff, ← get?_eq_some_iff, same]
  have permuted : first.entries.Perm second.entries :=
    (List.perm_ext_iff_of_nodup first.nodup_entries second.nodup_entries).mpr members
  have equal : first.entries = second.entries :=
    permuted.eq_of_pairwise (fun a b _ _ ab ba => absurd ba (String.lt_asymm ab))
      first.ascending second.ascending
  cases first
  cases second
  cases equal
  rfl

theorem insert_eq_self {map : OrderedMap α} {name : String} {value : α}
    (found : map.get? name = some value) : map.insert name value = map := by
  apply ext_get?
  intro wanted
  rw [get?_insert]
  split
  next same => rw [same, found]
  next => rfl

theorem mem_names_iff {map : OrderedMap α} {name : String} :
    name ∈ map.names ↔ (map.get? name).isSome := by
  rw [Option.isSome_iff_exists]
  simp only [names, List.mem_map, get?_eq_some_iff]
  constructor
  · intro found
    obtain ⟨⟨other, value⟩, member, rfl⟩ := found
    exact ⟨value, member⟩
  · intro found
    obtain ⟨value, member⟩ := found
    exact ⟨(name, value), member, rfl⟩

theorem get?_eq_none_iff {map : OrderedMap α} {name : String} :
    map.get? name = none ↔ name ∉ map.names := by
  rw [mem_names_iff, Option.not_isSome_iff_eq_none]

theorem contains_iff {map : OrderedMap α} {name : String} :
    map.contains name = true ↔ name ∈ map.names := mem_names_iff.symm

theorem mem_names_filterNames {map : OrderedMap α} {keep : String → Bool} {name : String} :
    name ∈ (map.filterNames keep).names ↔ name ∈ map.names ∧ keep name := by
  simp only [names, filterNames, List.mem_map, List.mem_filter]
  constructor
  · intro found
    obtain ⟨entry, ⟨member, kept⟩, rfl⟩ := found
    exact ⟨⟨entry, member, rfl⟩, kept⟩
  · intro found
    obtain ⟨⟨entry, member, rfl⟩, kept⟩ := found
    exact ⟨entry, ⟨member, kept⟩, rfl⟩

def latest? (pairs : List (String × α)) (name : String) : Option α :=
  (pairs.reverse.find? (fun pair => pair.1 = name)).map Prod.snd

theorem latest?_cons (pair : String × α) (pairs : List (String × α)) (name : String) :
    latest? (pair :: pairs) name =
      (latest? pairs name).or (if pair.1 = name then some pair.2 else none) := by
  simp only [latest?, List.reverse_cons, List.find?_append, Option.map_or]
  by_cases same : pair.1 = name <;> simp [same]

theorem latest?_concat (pairs : List (String × α)) (added : String) (value : α) (name : String) :
    latest? (pairs ++ [(added, value)]) name =
      if name = added then some value else latest? pairs name := by
  by_cases same : name = added <;> simp [latest?, same, Ne.symm]

theorem latest?_filter (pairs : List (String × α)) (name : String) :
    latest? (pairs.filter (fun pair => pair.1 = name)) name = latest? pairs name := by
  rw [latest?, latest?, ← List.filter_reverse, List.find?_filter]
  simp

theorem latest?_map (names : List String) (value : String → α) (wanted : String) :
    latest? (names.map (fun name => (name, value name))) wanted =
      if wanted ∈ names then some (value wanted) else none := by
  induction names using List.reverseRecOn with
  | nil => rfl
  | append_singleton before last ih =>
    rw [List.map_append, List.map_singleton, latest?_concat, ih]
    by_cases same : wanted = last <;> simp [same]

theorem latest?_eq_some_of_nodup {pairs : List (String × α)} (nodup : (pairs.map Prod.fst).Nodup)
    {name : String} {value : α} (member : (name, value) ∈ pairs) :
    latest? pairs name = some value := by
  have reversed : (pairs.reverse.map Prod.fst).Nodup := by
    rw [List.map_reverse]
    exact List.nodup_reverse.mpr nodup
  rw [latest?, find?_eq_some_of_nodup reversed (List.mem_reverse.mpr member), Option.map_some]

theorem isSome_latest?_iff {pairs : List (String × α)} {name : String} :
    (latest? pairs name).isSome ↔ name ∈ pairs.map Prod.fst := by
  simp [latest?]

theorem latest?_append (first second : List (String × α)) (name : String) :
    latest? (first ++ second) name = (latest? second name).or (latest? first name) := by
  simp only [latest?, List.reverse_append, List.find?_append, Option.map_or]

theorem find_eq_latest? {entries : List (String × α)} (name : String)
    (ascending : entries.Pairwise (fun earlier later => earlier.1 < later.1)) :
    find name entries = latest? entries name := by
  induction entries with
  | nil => rfl
  | cons head rest ih =>
    obtain ⟨other, held⟩ := head
    obtain ⟨above, ordered⟩ := List.pairwise_cons.mp ascending
    rw [find, latest?_cons, ih ordered]
    by_cases same : name = other
    · have absent : ¬(latest? rest name).isSome := by
        rw [isSome_latest?_iff, List.mem_map]
        intro found
        obtain ⟨entry, member, rfl⟩ := found
        exact String.ne_of_lt (above entry member) same.symm
      rw [Option.not_isSome_iff_eq_none.mp absent, if_pos same, if_pos same.symm, Option.none_or]
    · rw [if_neg same, if_neg (Ne.symm same), Option.or_none]

theorem get?_foldl_insert (pairs : List (String × α)) (map : OrderedMap α) (name : String) :
    (pairs.foldl (fun map pair => map.insert pair.1 pair.2) map).get? name =
      (latest? pairs name).or (map.get? name) := by
  induction pairs generalizing map with
  | nil => rfl
  | cons pair rest ih =>
    rw [List.foldl_cons, ih, latest?_cons, Option.or_assoc, get?_insert]
    by_cases same : pair.1 = name
    · simp [same]
    · simp [same, Ne.symm same]

theorem ofList_concat (pairs : List (String × α)) (name : String) (value : α) :
    ofList (pairs ++ [(name, value)]) = (ofList pairs).insert name value := by
  rw [ofList, List.foldl_append]
  rfl

theorem get?_ofList (pairs : List (String × α)) (name : String) :
    (ofList pairs).get? name = latest? pairs name := by
  rw [ofList, get?_foldl_insert, get?_empty, Option.or_none]

end OrderedMap

theorem nodup_eraseDups (names : List String) : names.eraseDups.Nodup := by
  induction length : names.length using Nat.strongRecOn generalizing names with
  | ind count ih =>
    cases names with
    | nil => simp
    | cons first rest =>
      have shorter : (rest.filter (fun name => !name == first)).length < count :=
        length ▸ Nat.lt_succ_of_le (List.length_filter_le ..)
      rw [List.eraseDups_cons, List.nodup_cons]
      exact ⟨by simp, ih _ shorter _ rfl⟩

namespace NameSet

theorem mem_names_insert {set : NameSet} {added name : String} :
    name ∈ (OrderedMap.insert set added ()).names ↔ name = added ∨ name ∈ set.names := by
  rw [OrderedMap.mem_names_iff, OrderedMap.get?_insert, OrderedMap.mem_names_iff]
  by_cases same : name = added <;> simp [same]

theorem mem_names_foldl_insert {added : List String} {set : NameSet} {name : String} :
    name ∈ (added.foldl (fun collected other => OrderedMap.insert collected other ()) set).names ↔
      name ∈ added ∨ name ∈ set.names := by
  induction added generalizing set with
  | nil => simp
  | cons head rest ih =>
    rw [List.foldl_cons, ih, mem_names_insert, List.mem_cons]
    tauto

theorem mem_names_ofNames {names : List String} {name : String} :
    name ∈ (ofNames names).names ↔ name ∈ names := by
  rw [ofNames, OrderedMap.ofList, List.foldl_map, mem_names_foldl_insert]
  simp [OrderedMap.names, OrderedMap.empty]

theorem mem_names_union {left right : NameSet} {name : String} :
    name ∈ (union left right).names ↔ name ∈ left.names ∨ name ∈ right.names := by
  rw [union, mem_names_foldl_insert, or_comm]

theorem mem_names_inter {left right : NameSet} {name : String} :
    name ∈ (inter left right).names ↔ name ∈ left.names ∧ name ∈ right.names := by
  rw [inter, OrderedMap.mem_names_filterNames, OrderedMap.contains_iff]

theorem mem_names_diff {left right : NameSet} {name : String} :
    name ∈ (diff left right).names ↔ name ∈ left.names ∧ name ∉ right.names := by
  rw [diff, OrderedMap.mem_names_filterNames, Bool.not_eq_true', ← Bool.not_eq_true,
    OrderedMap.contains_iff]

end NameSet

namespace JoinKeys

theorem mem_joinNames_plan {left right : NameSet} {name : String} :
    name ∈ (plan left right).joinNames ↔ name ∈ left.names ∧ name ∈ right.names :=
  NameSet.mem_names_inter

theorem mem_allNames_plan {left right : NameSet} {name : String} :
    name ∈ (plan left right).allNames ↔ name ∈ left.names ∨ name ∈ right.names := by
  simp only [plan, List.mem_append, NameSet.mem_names_inter, NameSet.mem_names_union,
    NameSet.mem_names_diff]
  tauto

end JoinKeys

end ContinuousQuery
