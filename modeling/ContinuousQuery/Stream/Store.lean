import ContinuousQuery.Solution

/-!
Key/value stores that hold the state of stages. Keys ascend by code point, so the keys
that start with a prefix are next to each other, and the least of them may be the
prefix itself. A scan starts there and ends at the first key without the prefix.
-/

namespace ContinuousQuery

abbrev Store := OrderedMap Solution

abbrev Stores := OrderedMap Store

namespace Store

def put (store : Store) (key : String) (solution : Solution) : Store :=
  OrderedMap.insert store key solution

def hasPrefix (start key : String) : Bool := start.toList.isPrefixOf key.toList

/-- The entries whose keys start with a prefix, in the order of the keys. -/
def scan (store : Store) (start : String) : List (String × Solution) :=
  (store.entries.dropWhile (fun entry => entry.1 < start)).takeWhile
    (fun entry => hasPrefix start entry.1)

end Store

namespace Stores

def ofNames (names : List String) : Stores :=
  OrderedMap.ofList (names.map (fun name => (name, OrderedMap.empty)))

def open? (stores : Stores) (attached : List String) (name : String) : Option Store :=
  if name ∈ attached then OrderedMap.get? stores name else none

theorem open?_eq_some_iff {stores : Stores} {attached : List String} {name : String}
    {store : Store} : open? stores attached name = some store ↔
      name ∈ attached ∧ OrderedMap.get? stores name = some store := by
  rw [open?, Option.ite_none_right_eq_some]

end Stores

end ContinuousQuery
