import ContinuousQuery.OrderedMap
import ContinuousQuery.Term
import ContinuousQuery.Visibility

/-!
Statements flow into a query and solutions flow out of it. A statement is a guarded
triple; a solution is a guarded set of bindings, which gives terms to names (query
variables without their question mark) and lists them in ascending order of the names.
-/

namespace ContinuousQuery

abbrev Bindings := OrderedMap Term

abbrev Statement := Guarded Triple

abbrev Solution := Guarded Bindings

namespace Bindings

def bind (bindings : Bindings) (name : String) (term : Term) : Option Bindings :=
  match OrderedMap.get? bindings name with
  | none => some (OrderedMap.insert bindings name term)
  | some bound => if bound = term then some bindings else none

def text (bindings : Bindings) : String :=
  let parts := bindings.entries.map (fun entry => "?" ++ entry.1 ++ "=" ++ entry.2.text)
  "\x7b" ++ ", ".intercalate parts ++ "\x7d"

end Bindings

def Statement.text (statement : Statement) : String := Guarded.textWith Triple.text statement

def Solution.text (solution : Solution) : String := Guarded.textWith Bindings.text solution

end ContinuousQuery
