import ContinuousQuery.Join
import ContinuousQuery.Plan.JoinKeys
import ContinuousQuery.Stream.Store

/-!
The state of a join: the solutions that arrived on either side. The key of a solution
consists of the side, a mark for solutions that bind all join names, the values of the
join names, the values of all names and the visibility, each followed by a separator;
an unbound name has the empty value. So the partners of a solution that binds all join
names lie under a prefix with its own values, or do not bind all join names themselves.
-/

namespace ContinuousQuery

namespace JoinState

def separator : Char := '\x1f'

def components (parts : List String) : String :=
  String.join (parts.map (fun part => part ++ String.singleton separator))

def fullyBound : String := "b"

def partiallyBound : String := "p"

def valueText (solution : Solution) (name : String) : String :=
  ((OrderedMap.get? solution.content name).map Term.text).getD ""

end JoinState

namespace JoinKeys

open JoinState

/-- The first components of the keys on a side that share the join values of a solution, if it
binds all join names. -/
def joinPrefix? (keys : JoinKeys) (side : Side) (solution : Solution) : Option (List String) :=
  (keys.joinNames.mapM (fun name => (OrderedMap.get? solution.content name).map Term.text)).map
    (fun values => side.text :: fullyBound :: values)

/-- The components of the key of a solution that arrived on a side. -/
def keyParts (keys : JoinKeys) (side : Side) (solution : Solution) : List String :=
  let start := (keys.joinPrefix? side solution).getD
    (side.text :: partiallyBound :: keys.joinNames.map (valueText solution))
  start ++ keys.allNames.map (valueText solution) ++ [solution.visibility]

def key (keys : JoinKeys) (side : Side) (solution : Solution) : String :=
  components (keys.keyParts side solution)

/-- The store with a solution that arrived on a side, unless its key is there already. -/
def insert? (keys : JoinKeys) (store : Store) (side : Side) (solution : Solution) : Option Store :=
  let key := keys.key side solution
  if OrderedMap.contains store key then none else some (Store.put store key solution)

def candidates (keys : JoinKeys) (store : Store) (side : Side) (solution : Solution) :
    List Solution :=
  let other := side.opposite
  match keys.joinPrefix? other solution with
  | some start =>
    (Store.scan store (components start) ++
      Store.scan store (components [other.text, partiallyBound])).map (·.2)
  | none => (Store.scan store (components [other.text])).map (·.2)

end JoinKeys

end ContinuousQuery
