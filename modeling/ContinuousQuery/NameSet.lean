import ContinuousQuery.OrderedMap

/-!
Sets of names in ascending order. A set is determined by its members alone, so
whatever is planned from two sets does not depend on how they were collected.
-/

namespace ContinuousQuery

abbrev NameSet := OrderedMap Unit

namespace NameSet

def ofNames (names : List String) : NameSet :=
  OrderedMap.ofList (names.map (fun name => (name, ())))

def union (left right : NameSet) : NameSet :=
  right.names.foldl (fun collected name => OrderedMap.insert collected name ()) left

def inter (left right : NameSet) : NameSet :=
  OrderedMap.filterNames left (fun name => OrderedMap.contains right name)

def diff (left right : NameSet) : NameSet :=
  OrderedMap.filterNames left (fun name => !OrderedMap.contains right name)

end NameSet

end ContinuousQuery
