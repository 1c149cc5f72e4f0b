import ContinuousQuery.NameSet

/-!
The orders in which a join lists names when it builds the keys of its store. They
depend only on the two sets of names that the operands may bind.
-/

namespace ContinuousQuery

structure JoinKeys where
  /-- The names that both operands bind, in ascending order. A cross join has none. -/
  joinNames : List String
  /-- The join names, then all other names in ascending order. -/
  allNames : List String
deriving DecidableEq, Repr

namespace JoinKeys

def plan (left right : NameSet) : JoinKeys :=
  let shared := NameSet.inter left right
  let others := NameSet.union (NameSet.diff left right) (NameSet.diff right left)
  ⟨shared.names, shared.names ++ others.names⟩

def text (keys : JoinKeys) : String :=
  "join_vars=[" ++ ", ".intercalate keys.joinNames ++ "] all_vars=[" ++
    ", ".intercalate keys.allNames ++ "]"

end JoinKeys

end ContinuousQuery
