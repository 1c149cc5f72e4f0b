/-!
Visibility expressions and the values they guard. A visibility is a boolean
expression over authorizations that this library never evaluates: it only builds
the expression that grants a result to those who may see all that led to it.
The empty expression grants a value to everyone.
-/

namespace ContinuousQuery

/-- The visibility of a result that two inputs contributed to. -/
def combineVisibilities (left right : String) : String :=
  if left = "" ∨ left = right then right
  else if right = "" then left
  else "(" ++ left ++ ")&(" ++ right ++ ")"

structure Guarded (α : Type) where
  content : α
  visibility : String
deriving DecidableEq, Repr

namespace Guarded

/-- The text of the content, then the visibility in brackets unless everyone may see the value. -/
def textWith {α : Type} (contentText : α → String) (guarded : Guarded α) : String :=
  if guarded.visibility = "" then contentText guarded.content
  else contentText guarded.content ++ " [" ++ guarded.visibility ++ "]"

end Guarded

end ContinuousQuery
