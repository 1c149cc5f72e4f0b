import ContinuousQuery.Sparql.Rules

/-!
Expressions, from the weakest operator to the strongest. An expression in parentheses
is the expression itself. An aggregate stands for a variable that the query at hand
gets from its groups.
-/

namespace ContinuousQuery.Sparql.Parser

open Lexical

/-- Functions and the numbers of their arguments. Of several numbers, the largest is tried first. -/
def functions : List (String × Nat) :=
  [("STR", 1), ("LANG", 1), ("LANGMATCHES", 2), ("DATATYPE", 1), ("IRI", 1), ("URI", 1),
    ("RAND", 0), ("ABS", 1), ("CEIL", 1), ("FLOOR", 1), ("ROUND", 1), ("SUBSTR", 3),
    ("SUBSTR", 2), ("STRLEN", 1), ("REPLACE", 4), ("REPLACE", 3), ("UCASE", 1), ("LCASE", 1),
    ("CONTAINS", 2), ("STRSTARTS", 2), ("STRENDS", 2), ("STRBEFORE", 2), ("STRAFTER", 2),
    ("YEAR", 1), ("MONTH", 1), ("DAY", 1), ("HOURS", 1), ("MINUTES", 1), ("SECONDS", 1),
    ("TIMEZONE", 1), ("TZ", 1), ("NOW", 0), ("UUID", 0), ("STRUUID", 0), ("IF", 3),
    ("STRLANG", 2), ("STRDT", 2), ("ISIRI", 1), ("ISURI", 1), ("REGEX", 3), ("REGEX", 2)]

/-- Functions with no blank between the name and the bracket. -/
def tightFunctions : List (String × Nat) :=
  [("BNODE", 1), ("BNODE", 0), ("ENCODE_FOR_URI", 1), ("MD5", 1), ("SHA1", 1), ("SHA256", 1),
    ("SHA384", 1), ("SHA512", 1), ("SAMETERM", 2), ("ISBLANK", 1), ("ISLITERAL", 1),
    ("ISNUMERIC", 1)]

def aggregates : List String := ["COUNT", "SUM", "MIN", "MAX", "AVG", "SAMPLE"]

def argumentList (rules : Rules) : Parser (List Expression) :=
  parenthesized (Reader.separated rules.expression (symbol ",")) <|>
    (do emptyBrackets "(" ")"; return [])

def furtherArguments (rules : Rules) : Nat → Parser (List Expression)
  | 0 => return []
  | count + 1 => do
    symbol ","
    let first ← rules.expression
    return first :: (← furtherArguments rules count)

def arguments (rules : Rules) : Nat → Parser (List Expression)
  | 0 => do emptyBrackets "(" ")"; return []
  | count + 1 => parenthesized (do
    let first ← rules.expression
    return first :: (← furtherArguments rules count))

def perhapsDistinct (argument : Parser Unit) : Parser Unit :=
  parenthesized (do keyword "DISTINCT"; argument) <|> parenthesized argument

def separatorClause : Parser Unit := do
  symbol ";"
  keyword "SEPARATOR"
  symbol "="
  let _ ← token Scanner.quotedString

def aggregateCall (rules : Rules) : Parser Unit :=
  let argument : Parser Unit := do let _ ← rules.expression
  let concatenation (item : Parser Unit) : Parser Unit :=
    parenthesized (do item; separatorClause) <|> parenthesized item
  (do keyword "COUNT"; perhapsDistinct (symbol "*")) <|>
    Reader.firstOf (aggregates.map (fun name => do keyword name; perhapsDistinct argument)) <|>
    (do
      keyword "GROUP_CONCAT"
      concatenation (do keyword "DISTINCT"; argument) <|> concatenation argument) <|>
    (do
      let _ ← iri
      perhapsDistinct argument)

/-- The variable of a new aggregate. Outside of queries that may have groups there is none. -/
def aggregate (rules : Rules) : Parser Expression := do
  aggregateCall rules
  let name ← freshVariable
  let scope ← scope
  match scope.aggregates with
  | [] => failure
  | names :: outer =>
    setScope { scope with aggregates := (names ++ [name]) :: outer }
    return .copy (.binding name)

def functionCall (rules : Rules) : Parser Expression :=
  Reader.firstOf (functions.map (fun (name, count) => do
    keyword name
    return .apply (← arguments rules count))) <|>
  Reader.firstOf (tightFunctions.map (fun (name, count) => do
    Scanner.word name
    return .apply (← arguments rules count))) <|>
  (do Scanner.word "CONCAT"; return .apply (← argumentList rules))

/-- Functions that accept variables without a value, and conditions on groups. -/
def unconditional (rules : Rules) : Parser Unit :=
  (do keyword "BOUND"; let _ ← parenthesized variableName) <|>
    (do Scanner.word "COALESCE"; let _ ← argumentList rules) <|>
    (do keyword "NOT"; keyword "EXISTS"; let _ ← rules.group) <|>
    (do keyword "EXISTS"; let _ ← rules.group)

def builtIn (rules : Rules) : Parser Expression :=
  aggregate rules <|> functionCall rules <|> (do unconditional rules; return .computed [])

def namedCall (rules : Rules) : Parser Expression := do
  let _ ← iri
  return .apply (← argumentList rules)

def primary (rules : Rules) : Parser Expression :=
  parenthesized rules.expression <|>
    namedCall rules <|>
    ((fun iri => .copy (.constant (.iri iri))) <$> iri) <|>
    ((fun name => .copy (.binding name)) <$> variableName) <|>
    ((fun value => .copy (.constant (.literal value))) <$> literal) <|>
    builtIn rules

/-- A sign is an operator here, never a part of a number. -/
def unary (rules : Rules) : Parser Expression :=
  (do
    Reader.firstOf [symbol "!", symbol "+", symbol "-"]
    return .apply [← primary rules]) <|>
  primary rules

def chain (operators : List String) (operand : Parser Expression) : Parser Expression := do
  let first ← operand
  let rest ← Reader.many (do
    Reader.firstOf (operators.map symbol)
    operand)
  return if rest.isEmpty then first else .apply (first :: rest)

def multiplicative (rules : Rules) : Parser Expression := chain ["*", "/"] (unary rules)

def additive (rules : Rules) : Parser Expression := chain ["+", "-"] (multiplicative rules)

def comparison (rules : Rules) : Parser (List Expression) :=
  (do
    Reader.firstOf (["=", "!=", ">=", ">", "<=", "<"].map symbol)
    return [← additive rules]) <|>
  (do keyword "IN"; argumentList rules) <|>
  (do keyword "NOT"; keyword "IN"; argumentList rules)

def relational (rules : Rules) : Parser Expression := do
  let first ← additive rules
  (do return .apply (first :: (← comparison rules))) <|> return first

def expression (rules : Rules) : Parser Expression := chain ["||"] (chain ["&&"] (relational rules))

def constraint (rules : Rules) : Parser Expression :=
  parenthesized rules.expression <|> namedCall rules <|> builtIn rules

end ContinuousQuery.Sparql.Parser
