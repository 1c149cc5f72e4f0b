import ContinuousQuery.NameSet
import ContinuousQuery.Pattern
import ContinuousQuery.Projection

/-!
The operators of a streaming query. The operands of an operator are of any type:
numbers of nodes in a tree that is being built, or whole subtrees. An `Algebra`
is an operator tree whose nodes carry labels.
-/

namespace ContinuousQuery

inductive UnaryKind where
  /-- Restricts solutions to the given variables. -/
  | projection (names : List String)
  /-- Evaluates elements one after the other; a later one may read the target of an earlier one. -/
  | rebinding (elements : List Projection.Element)
  | filter
deriving DecidableEq, Repr

inductive BinaryKind where
  | naturalJoin
  | leftOuterJoin (filtered : Bool)
  | union
  | minus
deriving DecidableEq, Repr

inductive Operator (α : Type) where
  | pattern (triple : TriplePattern)
  | unary (kind : UnaryKind) (operand : α)
  | binary (kind : BinaryKind) (left right : α)
  /-- An operator of SPARQL that this algebra has no counterpart of. -/
  | unsupported (name : String)
deriving DecidableEq, Repr

namespace UnaryKind

def name : UnaryKind → String
  | .projection _ => "Projection"
  | .rebinding _ => "Rebinding"
  | .filter => "Filter"

def text : UnaryKind → String
  | .projection names =>
    "Projection [" ++ ", ".intercalate (names.map ("?" ++ ·)) ++ "]"
  | .rebinding elements =>
    "Rebinding [" ++ ", ".intercalate (elements.map Projection.Element.text) ++ "]"
  | .filter => "Filter"

def bindingNames (kind : UnaryKind) (operand : NameSet) : NameSet :=
  match kind with
  | .projection names => NameSet.ofNames names
  | .rebinding elements => NameSet.union operand (NameSet.ofNames (elements.map (·.target)))
  | .filter => operand

end UnaryKind

namespace BinaryKind

def name : BinaryKind → String
  | .naturalJoin => "NaturalJoin"
  | .leftOuterJoin false => "LeftOuterJoin"
  | .leftOuterJoin true => "LeftOuterJoin with filter"
  | .union => "Union"
  | .minus => "Minus"

def bindingNames (kind : BinaryKind) (left right : NameSet) : NameSet :=
  match kind with
  | .naturalJoin | .leftOuterJoin _ | .union => NameSet.union left right
  | .minus => left

end BinaryKind

namespace Operator

variable {α : Type}

def operands : Operator α → List α
  | .pattern _ | .unsupported _ => []
  | .unary _ operand => [operand]
  | .binary _ left right => [left, right]

def binaryOperands? : Operator α → Option (α × α)
  | .binary _ left right => some (left, right)
  | _ => none

def name : Operator α → String
  | .pattern _ => "Pattern"
  | .unary kind _ => kind.name
  | .binary kind _ _ => kind.name
  | .unsupported name => name

def text : Operator α → String
  | .pattern triple => "Pattern " ++ triple.text
  | .unary kind _ => kind.text
  | .binary kind _ _ => kind.name
  | .unsupported name => name

def bindingNames (operandNames : α → NameSet) : Operator α → NameSet
  | .pattern triple => NameSet.ofNames triple.bindingNames
  | .unary kind operand => kind.bindingNames (operandNames operand)
  | .binary kind left right => kind.bindingNames (operandNames left) (operandNames right)
  | .unsupported _ => OrderedMap.empty

end Operator

/-- An operator tree. A label stands at every node. -/
inductive Algebra (ι : Type) where
  | pattern (label : ι) (triple : TriplePattern)
  | unary (label : ι) (kind : UnaryKind) (operand : Algebra ι)
  | binary (label : ι) (kind : BinaryKind) (left right : Algebra ι)
  | unsupported (label : ι) (name : String)
deriving DecidableEq, Repr

namespace Algebra

variable {ι : Type}

def label : Algebra ι → ι
  | .pattern label _ | .unary label _ _ | .binary label _ _ _ | .unsupported label _ => label

def operator : Algebra ι → Operator (Algebra ι)
  | .pattern _ triple => .pattern triple
  | .unary _ kind operand => .unary kind operand
  | .binary _ kind left right => .binary kind left right
  | .unsupported _ name => .unsupported name

def labels : Algebra ι → List ι
  | .pattern label _ | .unsupported label _ => [label]
  | .unary label _ operand => label :: operand.labels
  | .binary label _ left right => label :: (left.labels ++ right.labels)

def lines (depth : Nat) : Algebra ι → List String
  | .pattern _ triple => [indented depth ("Pattern " ++ triple.text)]
  | .unary _ kind operand => indented depth kind.text :: operand.lines (depth + 1)
  | .binary _ kind left right =>
    indented depth kind.name :: (left.lines (depth + 1) ++ right.lines (depth + 1))
  | .unsupported _ name => [indented depth name]
where
  indented (depth : Nat) (line : String) : String :=
    String.ofList (List.replicate (2 * depth) ' ') ++ line

def text (algebra : Algebra ι) : String :=
  String.join ((algebra.lines 0).map (· ++ "\n"))

end Algebra

end ContinuousQuery
