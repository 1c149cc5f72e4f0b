import ContinuousQuery.GraphPattern
import ContinuousQuery.Lexical.Iri
import ContinuousQuery.Lexical.LanguageTag
import ContinuousQuery.Lexical.Number
import ContinuousQuery.Lexical.Quoted

/-!
What a query has declared and used up to a point of its text, and the tokens whose
meaning depends on it. Each token takes the blanks and comments behind it along.
Keywords may be written in any case, and nothing needs to separate them from what follows.
A label that an alternative has used counts as used, even if that alternative fails.
-/

namespace ContinuousQuery.Sparql

open Lexical

structure Scope where
  base : Option Iri
  /-- Prefixes and their IRIs, the latest declaration first. -/
  prefixes : List (String × String)
  /-- Blank node labels of the group at hand, since its last brace. -/
  openLabels : List String
  /-- Blank node labels that must not be used again. -/
  closedLabels : List String
  /-- The names of the aggregates of each query that is being read, the innermost first. -/
  aggregates : List (List String)
  /-- The number of names made up so far. -/
  madeUp : Nat

def Scope.initial : Scope := ⟨none, [], [], [], [], 0⟩

abbrev Parser := Reader Char Scope

def isBlank (char : Char) : Bool := char == ' ' || char == '\t' || char == '\n' || char == '\r'

def skipBlanks : (inComment : Bool) → List Char → List Char
  | _, [] => []
  | true, char :: rest => skipBlanks (char != '\n' && char != '\r') rest
  | false, char :: rest =>
    if char = '#' then skipBlanks true rest
    else if isBlank char then skipBlanks false rest
    else char :: rest

namespace Parser

variable {α : Type}

def blanks : Parser Unit := modifyThe (List Char) (skipBlanks false)

def scope : Parser Scope := getThe Scope

def setScope (scope : Scope) : Parser Unit := set scope

def token (scanner : Scanner α) : Parser α := do
  let value ← scanner
  blanks
  return value

def symbol (text : String) : Parser Unit := token (Scanner.exact text)

def keyword (text : String) : Parser Unit := token (Scanner.word text)

def emptyBrackets (opening closing : String) : Parser Unit := token (do
  Scanner.exact opening
  let _ ← Scanner.run isBlank
  Scanner.exact closing)

def parenthesized (inner : Parser α) : Parser α := do
  symbol "("
  let value ← inner
  symbol ")"
  return value

def fresh : Parser Nat := do
  let scope ← scope
  setScope { scope with madeUp := scope.madeUp + 1 }
  return scope.madeUp

/-- The label of a blank node that has none. No other label has brackets. -/
def freshLabel : Parser String := do
  return "[" ++ toString (← fresh) ++ "]"

def freshBlank : Parser PatternTerm := .blank <$> freshLabel

/-- A variable that no query can name, as a name has no brackets. -/
def freshVariable : Parser String := do
  return "[" ++ toString (← fresh) ++ "]"

/-! Terms -/

def iriReference : Parser Iri := do
  let chars ← Scanner.bracketedIri true
  match Iri.ofChars? (← scope).base chars with
  | some iri =>
    blanks
    return iri
  | none => failure

/-- The IRI of a prefixed name. Where the local part yields no IRI, it does not belong to the
name. -/
def prefixedName : Parser String := do
  let name ← Scanner.namespacePrefix
  match (← scope).prefixes.lookup name with
  | none => failure
  | some expansion =>
    (do
      let text := expansion ++ (← token Scanner.localName)
      if (Iri.ofChars? none text.toList).isSome then return text else failure) <|>
    (do blanks; return expansion)

def iri : Parser String := (Iri.text <$> iriReference) <|> prefixedName

def declareBase : Parser Unit := do
  let iri ← iriReference
  let scope ← scope
  setScope { scope with base := some iri }

def declarePrefix : Parser Unit := do
  let name ← token Scanner.namespacePrefix
  let iri ← iriReference
  let scope ← scope
  setScope { scope with prefixes := (name, iri.text) :: scope.prefixes }

def variableName : Parser String :=
  token ((Scanner.exact "?" <|> Scanner.exact "$") *> Scanner.variableName)

def blankText : Scanner (List Char) := fun input =>
  let rest := skipBlanks false input
  some (input.take (input.length - rest.length), rest)

def number : Parser Literal := token (do
  let sign ← Scanner.sign
  let gap ← if sign.isEmpty then pure [] else blankText
  let (spelling, datatype) ← Scanner.unsignedNumber
  return .typed (String.ofList (sign ++ gap ++ spelling)) (xsd datatype))

def literal : Parser Literal :=
  (do
    let value ← token Scanner.quotedString
    (do
      symbol "^^"
      return .withDatatype value (← iri)) <|>
    (do return .tagged value (← token Scanner.languageTag)) <|>
    return .plain value) <|>
  number <|>
  (do symbol "true"; return .typed "true" (xsd "boolean")) <|>
  (do symbol "false"; return .typed "false" (xsd "boolean"))

def blankLabel : Parser String := do
  let label ← token (Scanner.exact "_:" *> Scanner.blankLabel)
  let scope ← scope
  if scope.closedLabels.contains label then failure
  else
    setScope { scope with openLabels := label :: scope.openLabels }
    return label

def blankNode : Parser String := blankLabel <|> (do emptyBrackets "[" "]"; freshLabel)

def closeLabels : Parser Unit := do
  let scope ← scope
  setScope { scope with
    openLabels := [], closedLabels := scope.openLabels ++ scope.closedLabels }

def patternTerm : Parser PatternTerm :=
  (.variable <$> variableName) <|> (.iri <$> iri) <|> (.literal <$> literal) <|>
    (.blank <$> blankNode) <|> (do emptyBrackets "(" ")"; return .iri (rdf "nil"))

def variableOrIri : Parser PatternPredicate :=
  (.variable <$> variableName) <|> (.iri <$> iri)

end Parser

end ContinuousQuery.Sparql
