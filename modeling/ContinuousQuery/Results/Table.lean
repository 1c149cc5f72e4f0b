import ContinuousQuery.Lexical.Number
import ContinuousQuery.Solution

/-!
Tables of solutions, with a column for each variable and a row for each solution.
Fields with commas keep only the values of terms; fields with tabs keep the terms
themselves, and numbers and booleans stand without quotes if they read back as such.
-/

namespace ContinuousQuery.Results

open Lexical

def row (columns : List String) (bindings : Bindings) : List (Option Term) :=
  columns.map (OrderedMap.get? bindings)

def table (separator lineEnd : String) (header : String → String) (field : Term → String)
    (columns : List String) (solutions : List Bindings) : String :=
  let lines := separator.intercalate (columns.map header) :: solutions.map (fun bindings =>
    separator.intercalate ((row columns bindings).map (fun value => (value.map field).getD "")))
  String.join (lines.map (· ++ lineEnd))

/-! Commas -/

/-- A field in quotes, if it has to be. A quote inside of it is written twice. -/
def commaField (value : String) : String :=
  if value.toList.any (fun char => "\",\n\r".toList.contains char) then
    "\"" ++ String.ofList (value.toList.flatMap (fun char =>
      if char = '"' then ['"', '"'] else [char])) ++ "\""
  else value

def commaTerm : Term → String
  | .iri value => value
  | .blank label => "_:" ++ label
  | .literal value => commaField value.value

def commaSeparated : List String → List Bindings → String := table "," "\r\n" id commaTerm

/-! Tabs -/

def tabEscape (char : Char) : List Char :=
  if char = '\t' then ['\\', 't']
  else if char = '\n' then ['\\', 'n']
  else if char = '\r' then ['\\', 'r']
  else if char = '"' then ['\\', '"']
  else if char = '\\' then ['\\', '\\']
  else [char]

def tabQuoted (value : String) : String :=
  "\"" ++ String.ofList (value.toList.flatMap tabEscape) ++ "\""

/-- Whether a value without quotes reads back with the given datatype. -/
def isBare (value datatype : String) : Bool :=
  let spelled (spelling : Scanner (List Char)) : Bool :=
    ((do let _ ← Scanner.sign; spelling) : Scanner (List Char)).all? value |>.isSome
  if datatype = xsd "boolean" then value == "true" || value == "false"
  else if datatype = xsd "integer" then spelled Scanner.someDigits
  else if datatype = xsd "decimal" then spelled Scanner.decimal
  else if datatype = xsd "double" then spelled Scanner.double
  else false

def tabLiteral : Literal → String
  | .plain value => tabQuoted value
  | .tagged value language => tabQuoted value ++ "@" ++ language
  | .typed value datatype =>
    if isBare value datatype then value else tabQuoted value ++ "^^<" ++ datatype ++ ">"

def tabTerm : Term → String
  | .iri value => "<" ++ value ++ ">"
  | .blank label => "_:" ++ label
  | .literal value => tabLiteral value

def tabSeparated : List String → List Bindings → String := table "\t" "\n" ("?" ++ ·) tabTerm

end ContinuousQuery.Results
