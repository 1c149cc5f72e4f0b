import ContinuousQuery.Sparql.Select

/-!
Whole queries. A query is read from the start of its text to the end. Of queries that
are no selections, and of the graphs that a query names, nothing more is kept.
-/

namespace ContinuousQuery.Sparql

open Lexical

inductive Query where
  /-- A selection, from all graphs or from a dataset that it names. -/
  | select (pattern : GraphPattern) (hasDataset : Bool)
  | construct
  | describe
  | ask
deriving Repr

namespace Parser

/-- What stands between the braces of a group, which shares no labels with what is around it. -/
def groupOf (body : Parser GraphPattern) : Parser GraphPattern := do
  symbol "\x7b"
  closeLabels
  let pattern ← body
  closeLabels
  symbol "\x7d"
  return pattern

def group (rules : Rules) : Parser GraphPattern :=
  groupOf (groupBody rules) <|> groupOf (subSelect rules)

end Parser

/-- The rules for texts that nest no deeper than the given depth. -/
def Rules.upTo : Nat → Rules
  | 0 => ⟨failure, failure, failure, fun _ => failure⟩
  | depth + 1 =>
    { expression := fun input => Parser.expression (upTo depth) input
      group := fun input => Parser.group (upTo depth) input
      path := fun input => Parser.path (upTo depth) input
      node := fun verb input => Parser.node (upTo depth) verb input }

namespace Parser

/-! Prologue and dataset -/

def prologue : Parser Unit := do
  let _ ← Reader.many
    ((do keyword "BASE"; declareBase) <|> (do keyword "PREFIX"; declarePrefix))

def dataset : Parser Bool := do
  let graphs ← Reader.many (do
    keyword "FROM"
    (do let _ ← iri) <|> (do keyword "NAMED"; let _ ← iri))
  return !graphs.isEmpty

/-! Forms -/

def selectQuery (rules : Rules) : Parser Query := do
  let selection ← selection rules
  let hasDataset ← dataset
  return .select (← selectFrom rules selection (← whereClause rules)) hasDataset

/-- The triples of a template, which have no paths. A dot may also follow none. -/
def template (rules : Rules) : Parser Unit := do
  symbol "\x7b"
  let _ ← Reader.separated (triplesOfSubject rules simpleVerb) (symbol ".") <|> return []
  symbol "." <|> pure ()
  symbol "\x7d"

def templateAsPattern (rules : Rules) : Parser Unit := do
  symbol "\x7b"
  let _ ← triples rules simpleVerb <|> return []
  symbol "\x7d"

def constructQuery (rules : Rules) : Parser Query :=
  (do
    keyword "CONSTRUCT"
    template rules
    let _ ← dataset
    let _ ← whereClause rules
    let _ ← modifiers rules
    return .construct) <|>
  (do
    keyword "CONSTRUCT"
    let _ ← dataset
    keyword "WHERE"
    templateAsPattern rules
    let _ ← modifiers rules
    return .construct)

def described : Parser Selected := do
  match ← variableOrIri with
  | .variable name => return .variable name
  | .iri value => return .expression (.copy (.constant (.iri value))) (← freshVariable)

def describeQuery (rules : Rules) : Parser Query :=
  (do
    keyword "DESCRIBE"
    symbol "*"
    let _ ← dataset
    let _ ← whereClause rules <|> return .unit
    let _ ← modifiers rules
    return .describe) <|>
  (do
    keyword "DESCRIBE"
    let members ← Reader.manyOne described
    let _ ← dataset
    let inner ← whereClause rules <|> return .unit
    let _ ← selectFrom rules ⟨.kept, some members⟩ inner
    return .describe)

def askQuery (rules : Rules) : Parser Query := do
  keyword "ASK"
  let _ ← dataset
  let _ ← whereClause rules
  let _ ← modifiers rules
  return .ask

def query (rules : Rules) : Parser Query := do
  blanks
  prologue
  selectQuery rules <|> constructQuery rules <|> describeQuery rules <|> askQuery rules

end Parser

namespace Query

/-- Reads a query. No rule nests deeper than the text is long. -/
def parse? (text : String) : Option Query :=
  let input := text.toList
  (Parser.query (Rules.upTo (input.length + 1))).all? Scope.initial input

end Query

end ContinuousQuery.Sparql
