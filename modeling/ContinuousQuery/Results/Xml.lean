import ContinuousQuery.Results.Json

/-!
Solutions as an XML document without white space between its tags. White space at the
ends of a literal is written as references, so that no reader strips it.
-/

namespace ContinuousQuery.Results.Xml

def escape (char : Char) : List Char :=
  if char = '<' then "&lt;".toList
  else if char = '>' then "&gt;".toList
  else if char = '&' then "&amp;".toList
  else if char = '\x27' then "&apos;".toList
  else if char = '"' then "&quot;".toList
  else [char]

def escaped (text : String) : String := String.ofList (text.toList.flatMap escape)

def isBlank (char : Char) : Bool := char == '\t' || char == '\n' || char == '\r' || char == ' '

def reference (char : Char) : List Char := ("&#" ++ toString char.toNat ++ ";").toList

/-- A text whose blanks at the start and the end are references. -/
def escapedLiteral (text : String) : String :=
  let (leading, rest) := text.toList.span isBlank
  let (trailing, core) := rest.reverse.span isBlank
  String.ofList (leading.flatMap reference ++ core.reverse.flatMap escape ++
    trailing.reverse.flatMap reference)

def element (tag attributes content : String) : String :=
  "<" ++ tag ++ attributes ++ ">" ++ content ++ "</" ++ tag ++ ">"

def attributeText (name value : String) : String := " " ++ name ++ "=\"" ++ escaped value ++ "\""

def term : Term → String
  | .iri value => element "uri" "" (escaped value)
  | .blank label => element "bnode" "" (escaped label)
  | .literal (.plain value) => element "literal" "" (escapedLiteral value)
  | .literal (.tagged value language) =>
    element "literal" (attributeText "xml:lang" language) (escapedLiteral value)
  | .literal (.typed value datatype) =>
    element "literal" (attributeText "datatype" datatype) (escapedLiteral value)

def result (columns : List String) (bindings : Bindings) : String :=
  element "result" "" (String.join ((boundVariables columns bindings).map (fun (name, value) =>
    element "binding" (attributeText "name" name) (term value))))

def document (columns : List String) (solutions : List Bindings) : String :=
  "<?xml version=\"1.0\"?>" ++
    element "sparql" (attributeText "xmlns" "http://www.w3.org/2005/sparql-results#")
      (element "head" "" (String.join (columns.map (fun name =>
          "<variable" ++ attributeText "name" name ++ "/>"))) ++
        element "results" "" (String.join (solutions.map (result columns))))

end ContinuousQuery.Results.Xml
