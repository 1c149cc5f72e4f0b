import ContinuousQuery.Lexical.MediaType
import ContinuousQuery.Results.Table
import ContinuousQuery.Results.Xml

/-!
The formats in which results can be written.
-/

namespace ContinuousQuery.Results

inductive Format where
  | commaSeparated
  | json
  | tabSeparated
  | xml
deriving DecidableEq, Repr

namespace Format

def extensions : List (String × Format) :=
  [("csv", .commaSeparated), ("json", .json), ("srj", .json), ("srx", .xml), ("tsv", .tabSeparated),
    ("txt", .commaSeparated), ("xml", .xml)]

def subtypes : List (String × Format) :=
  [("csv", .commaSeparated), ("json", .json), ("plain", .commaSeparated),
    ("sparql-results+json", .json), ("sparql-results+xml", .xml),
    ("tab-separated-values", .tabSeparated), ("tsv", .tabSeparated), ("xml", .xml)]

/-- The format that an extension or a media type names, whatever the parameters of the latter. -/
def ofName? (name : String) : Option Format :=
  Lexical.lookupIgnoringCase extensions name <|>
    (Lexical.MediaType.ofName? name).bind (Lexical.lookupIgnoringCase subtypes ·.subtype)

def write : Format → List String → List Bindings → String
  | .commaSeparated => Results.commaSeparated
  | .json => Json.document
  | .tabSeparated => Results.tabSeparated
  | .xml => Xml.document

end Format

end ContinuousQuery.Results
