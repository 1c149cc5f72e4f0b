import ContinuousQuery.NameSet
import ContinuousQuery.Sparql.Groups

/-!
The selection of a query and the clauses behind its pattern. They apply in a fixed
order: groups, conditions on groups, inline data, selected expressions, the order, the
projection, the removal of duplicates and last the slice.
-/

namespace ContinuousQuery.Sparql

open Lexical

inductive Selected where
  | variable (name : String)
  | expression (value : Expression) (name : String)
deriving DecidableEq, Repr

namespace Selected

def name : Selected → String
  | .variable name | .expression _ name => name

end Selected

inductive Duplicates where
  | kept
  | removed
  | reduced
deriving DecidableEq, Repr

structure Selection where
  duplicates : Duplicates
  /-- Without a list, all variables in scope are selected. -/
  members : Option (List Selected)
deriving DecidableEq, Repr

structure GroupKey where
  name : String
  value : Option Expression
deriving DecidableEq, Repr

structure Modifiers where
  groupKeys : Option (List GroupKey)
  having : Bool
  ordered : Bool
  sliced : Bool
  values : Option GraphPattern
deriving Repr

namespace Modifiers

/-- Whether the solutions are put into groups. Aggregates need groups. -/
def isGrouped (modifiers : Modifiers) (aggregates : List String) : Bool :=
  modifiers.groupKeys.isSome || !aggregates.isEmpty

def groups (modifiers : Modifiers) (aggregates : List String) (pattern : GraphPattern) :
    GraphPattern :=
  if modifiers.isGrouped aggregates then
    let keys := modifiers.groupKeys.getD []
    let extended := keys.foldl (fun pattern key =>
      match key.value with
      | some value => .extend pattern key.name value.source?
      | none => pattern) pattern
    .group extended (keys.map (·.name) ++ aggregates)
  else pattern

def source (modifiers : Modifiers) (aggregates : List String) (pattern : GraphPattern) :
    GraphPattern :=
  let grouped := modifiers.groups aggregates pattern
  let filtered := if modifiers.having then .filter grouped else grouped
  match modifiers.values with
  | some values => filtered.conjoin values
  | none => filtered

end Modifiers

namespace Selection

/-- Extends a pattern by the selected expressions, whose names must not be visible in it. Groups
offer the visible names and no others; the names of expressions do not become visible. -/
def extend? (grouped : Bool) (visible : List String) :
    GraphPattern → List Selected → Option GraphPattern
  | pattern, [] => some pattern
  | pattern, .variable name :: rest =>
    if grouped && !visible.contains name then none else extend? grouped visible pattern rest
  | pattern, .expression value name :: rest =>
    if visible.contains name || (grouped && !value.names.all visible.contains) then none
    else extend? grouped visible (.extend pattern name value.source?) rest

def projected? (selection : Selection) (grouped : Bool) (pattern : GraphPattern) :
    Option (GraphPattern × List String) :=
  match selection.members with
  | some members =>
    let names := members.map Selected.name
    if names.Nodup then
      (extend? grouped pattern.inScope pattern members).map (fun extended => (extended, names))
    else none
  | none => if grouped then none else some (pattern, (NameSet.ofNames pattern.inScope).names)

def pattern? (selection : Selection) (modifiers : Modifiers) (aggregates : List String)
    (inner : GraphPattern) : Option GraphPattern := do
  let grouped := modifiers.isGrouped aggregates
  let (extended, names) ← selection.projected? grouped (modifiers.source aggregates inner)
  let ordered : GraphPattern := if modifiers.ordered then .orderBy extended else extended
  let selected : GraphPattern := .project ordered names
  let reduced := match selection.duplicates with
    | .kept => selected
    | .removed => .distinct selected
    | .reduced => .reduced selected
  return if modifiers.sliced then .slice reduced else reduced

end Selection

namespace Parser

/-! Clauses -/

def selected (rules : Rules) : Parser Selected :=
  (.variable <$> variableName) <|> parenthesized (do
    let value ← rules.expression
    keyword "AS"
    return .expression value (← variableName))

def selection (rules : Rules) : Parser Selection := do
  keyword "SELECT"
  let scope ← scope
  setScope { scope with aggregates := [] :: scope.aggregates }
  let duplicates ← (do keyword "DISTINCT"; return Duplicates.removed) <|>
    (do keyword "REDUCED"; return .reduced) <|> return .kept
  let members ← (do symbol "*"; return none) <|> (some <$> Reader.manyOne (selected rules))
  return ⟨duplicates, members⟩

def takeAggregates : Parser (List String) := do
  let scope ← scope
  match scope.aggregates with
  | [] => return []
  | names :: outer =>
    setScope { scope with aggregates := outer }
    return names

def groupKey (rules : Rules) : Parser GroupKey := do
  let (value, name) ←
    ((·, none) <$> (builtIn rules <|> namedCall rules)) <|>
    parenthesized (do
      let value ← rules.expression
      let name ← (do keyword "AS"; some <$> variableName) <|> return none
      return (value, name)) <|>
    ((fun name => (.copy (.binding name), none)) <$> variableName)
  match value, name with
  | .copy (.binding key), _ => return ⟨key, none⟩
  | value, some key => return ⟨key, some value⟩
  | value, none => return ⟨← freshVariable, some value⟩

def orderKey (rules : Rules) : Parser Unit :=
  (do
    keyword "ASC" <|> keyword "DESC"
    let _ ← parenthesized rules.expression) <|>
  (do let _ ← constraint rules) <|>
  (do let _ ← variableName)

/-- A number of solutions, which fits into a word of 64 bits. -/
def solutionCount : Parser Unit := do
  let digits ← token Scanner.someDigits
  if digits.foldl (fun value digit => 10 * value + (digit.toNat - 48)) 0 < 0x10000000000000000 then
    pure ()
  else failure

def slice : Parser Unit :=
  let limit : Parser Unit := do keyword "LIMIT"; solutionCount
  let offset : Parser Unit := do keyword "OFFSET"; solutionCount
  (do limit; offset <|> pure ()) <|> (do offset; limit <|> pure ())

/-- Whether a value is followed by a blank, which the value takes along. -/
def endsInBlank {α : Type} (value : Parser α) : Parser Bool := do
  let before ← getThe (List Char)
  let _ ← value
  let after ← getThe (List Char)
  return (before.take (before.length - after.length)).getLast?.any isBlank

def adjacent {α : Type} (value : Parser α) : Parser Unit := do
  let gaps ← Reader.manyOne (endsInBlank value)
  if gaps.dropLast.any id then failure else pure ()

def present (clause : Parser Unit) : Parser Bool := (do clause; return true) <|> return false

def modifiers (rules : Rules) : Parser Modifiers := do
  let groupKeys ← (do
    keyword "GROUP"
    keyword "BY"
    some <$> Reader.manyOne (groupKey rules)) <|> return none
  let having ← present (do
    keyword "HAVING"
    adjacent (constraint rules))
  let ordered ← present (do
    keyword "ORDER"
    keyword "BY"
    let _ ← Reader.manyOne (orderKey rules))
  let sliced ← present slice
  let values ← (some <$> inlineData) <|> return none
  return ⟨groupKeys, having, ordered, sliced, values⟩

def whereClause (rules : Rules) : Parser GraphPattern := do
  keyword "WHERE" <|> pure ()
  rules.group

def selectFrom (rules : Rules) (selection : Selection) (inner : GraphPattern) :
    Parser GraphPattern := do
  let modifiers ← modifiers rules
  let aggregates ← takeAggregates
  match selection.pattern? modifiers aggregates inner with
  | some pattern => return pattern
  | none => failure

def subSelect (rules : Rules) : Parser GraphPattern := do
  let selection ← selection rules
  selectFrom rules selection (← whereClause rules)

end Parser

end ContinuousQuery.Sparql
