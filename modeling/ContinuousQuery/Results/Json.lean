import ContinuousQuery.Solution

/-!
Solutions as a JSON document on one line. Only the bound variables of a solution
appear in it, in the order of the projection.
-/

namespace ContinuousQuery.Results

def boundVariables (columns : List String) (bindings : Bindings) : List (String × Term) :=
  columns.filterMap (fun name => (OrderedMap.get? bindings name).map (fun term => (name, term)))

namespace Json

/-- Control characters, quotes and backslashes are escaped, by a letter if they have one and
otherwise by digits in lower case. -/
def escape (char : Char) : List Char :=
  if char = '"' then ['\\', '"']
  else if char = '\\' then ['\\', '\\']
  else if char = '\x08' then ['\\', 'b']
  else if char = '\t' then ['\\', 't']
  else if char = '\n' then ['\\', 'n']
  else if char = '\x0c' then ['\\', 'f']
  else if char = '\r' then ['\\', 'r']
  else if char.toNat < 0x20 then
    ['\\', 'u', '0', '0', hexDigit (char.toNat / 16), (hexDigit (char.toNat % 16)).toLower]
  else [char]

def string (value : String) : String :=
  "\"" ++ String.ofList (value.toList.flatMap escape) ++ "\""

def array (items : List String) : String := "[" ++ ",".intercalate items ++ "]"

def object (fields : List (String × String)) : String :=
  let members := fields.map (fun (name, value) => string name ++ ":" ++ value)
  "\x7b" ++ ",".intercalate members ++ "\x7d"

def term : Term → String
  | .iri value => object [("type", string "uri"), ("value", string value)]
  | .blank label => object [("type", string "bnode"), ("value", string label)]
  | .literal (.plain value) => object [("type", string "literal"), ("value", string value)]
  | .literal (.tagged value language) =>
    object [("type", string "literal"), ("value", string value), ("xml:lang", string language)]
  | .literal (.typed value datatype) =>
    object [("type", string "literal"), ("value", string value), ("datatype", string datatype)]

def solution (columns : List String) (bindings : Bindings) : String :=
  object ((boundVariables columns bindings).map (fun (name, value) => (name, term value)))

def document (columns : List String) (solutions : List Bindings) : String :=
  object [("head", object [("vars", array (columns.map string))]),
    ("results", object [("bindings", array (solutions.map (solution columns)))])]

end Json

end ContinuousQuery.Results
