import ContinuousQuery.Sparql.Expressions
import ContinuousQuery.Sparql.Triples

/-!
Group graph patterns. The parts of a group extend the pattern of those before them;
its filters apply to the whole group, wherever they stand.
-/

namespace ContinuousQuery.Sparql

open Lexical

inductive GroupPart where
  | joined (pattern : GraphPattern)
  | optional (pattern : GraphPattern)
  | minus (pattern : GraphPattern)
  | binding (expression : Expression) (name : String)
  | filter
deriving Repr

namespace GroupPart

def isFilter : GroupPart → Bool
  | .filter => true
  | _ => false

/-- The pattern of the parts so far together with one more. A name must be new to be bound. The
condition of an optional part is that of a filter around all of it. -/
def extend? (before : GraphPattern) : GroupPart → Option GraphPattern
  | .joined pattern => some (before.conjoin pattern)
  | .optional (.filter inner) => some (.leftJoin before inner true)
  | .optional pattern => some (.leftJoin before pattern false)
  | .minus pattern => some (.minus before pattern)
  | .binding expression name =>
    if before.inScope.contains name then none else some (.extend before name expression.source?)
  | .filter => some before

def pattern? (parts : List GroupPart) : Option GraphPattern := do
  let pattern ← parts.foldlM extend? .unit
  return if parts.any isFilter then .filter pattern else pattern

end GroupPart

namespace Parser

/-! Inline data -/

def dataValue : Parser Unit :=
  (do let _ ← iri) <|> (do let _ ← literal) <|> keyword "UNDEF"

def dataBlock : Parser (List String) :=
  (do
    let name ← variableName
    symbol "\x7b"
    let _ ← Reader.many dataValue
    symbol "\x7d"
    return [name]) <|>
  (do
    let names ← parenthesized (Reader.many variableName)
    symbol "\x7b"
    let rows ← Reader.many (parenthesized (Reader.many dataValue))
    symbol "\x7d"
    if rows.all (fun row => row.length == names.length) then return names else failure)

def inlineData : Parser GraphPattern := do
  keyword "VALUES"
  return .values (← dataBlock)

/-! Groups -/

def groupOrUnion (rules : Rules) : Parser GraphPattern := do
  let first ← rules.group
  let rest ← Reader.many (do keyword "UNION"; rules.group)
  return rest.foldl .union first

def service (rules : Rules) : Parser GraphPattern := do
  keyword "SERVICE"
  (do keyword "SILENT"; let _ ← variableOrIri; return .service (← rules.group)) <|>
    (do let _ ← variableOrIri; return .service (← rules.group))

def groupPart (rules : Rules) : Parser GroupPart :=
  Reader.firstOf [
    .joined <$> groupOrUnion rules,
    (do keyword "OPTIONAL"; return .optional (← rules.group)),
    (do keyword "MINUS"; return .minus (← rules.group)),
    (do
      keyword "GRAPH"
      let name ← variableOrIri
      return .joined (.graph name (← rules.group))),
    .joined <$> service rules,
    (do keyword "FILTER"; let _ ← constraint rules; return .filter),
    (do
      keyword "BIND"
      parenthesized (do
        let value ← rules.expression
        keyword "AS"
        return .binding value (← variableName))),
    .joined <$> inlineData]

/-- What stands between the braces of a group. A dot may follow each part that is not a block of
triples. -/
def groupBody (rules : Rules) : Parser GraphPattern := do
  let block : Parser (List GroupPart) := (do return [.joined (← triplesBlock rules)]) <|> return []
  let first ← block
  let rest ← Reader.many (do
    let part ← groupPart rules
    symbol "." <|> pure ()
    return part :: (← block))
  match GroupPart.pattern? (first ++ rest.flatten) with
  | some pattern => return pattern
  | none => failure

end Parser

end ContinuousQuery.Sparql
