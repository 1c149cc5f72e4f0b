/-!
The terms of RDF and the triples made of them. Every term has one written form,
in the manner of N-Triples; it serves as the text of answers and as a component
of store keys. Nothing is checked or normalised here, except that a literal whose
datatype is `xsd:string` is the plain literal.
-/

namespace ContinuousQuery

def xsd (localName : String) : String := "http://www.w3.org/2001/XMLSchema#" ++ localName

def rdf (localName : String) : String := "http://www.w3.org/1999/02/22-rdf-syntax-ns#" ++ localName

inductive Literal where
  | plain (value : String)
  | tagged (value language : String)
  | typed (value datatype : String)
deriving DecidableEq, Repr

namespace Literal

/-- A literal with a datatype. The datatype of strings is the one a plain literal has. -/
def withDatatype (value datatype : String) : Literal :=
  if datatype = xsd "string" then .plain value else .typed value datatype

def value : Literal → String
  | .plain value | .tagged value _ | .typed value _ => value

end Literal

inductive Term where
  | iri (value : String)
  | blank (label : String)
  | literal (value : Literal)
deriving DecidableEq, Repr

inductive Subject where
  | iri (value : String)
  | blank (label : String)
deriving DecidableEq, Repr

def Subject.toTerm : Subject → Term
  | .iri value => .iri value
  | .blank label => .blank label

structure Triple where
  subject : Subject
  predicate : String
  object : Term
deriving DecidableEq, Repr

/-! Written forms -/

def hexDigit (value : Nat) : Char :=
  Char.ofNat (if value < 10 then 48 + value else 55 + value)

namespace Literal

/-- Control characters, quotes and backslashes are escaped, by a letter if they have one. -/
def escapeChar (char : Char) : List Char :=
  if char = '\x08' then ['\\', 'b']
  else if char = '\t' then ['\\', 't']
  else if char = '\n' then ['\\', 'n']
  else if char = '\x0c' then ['\\', 'f']
  else if char = '\r' then ['\\', 'r']
  else if char = '"' then ['\\', '"']
  else if char = '\\' then ['\\', '\\']
  else if char.toNat < 0x20 ∨ char.toNat = 0x7f then
    ['\\', 'u', '0', '0', hexDigit (char.toNat / 16), hexDigit (char.toNat % 16)]
  else [char]

def quoted (value : String) : String :=
  "\"" ++ String.ofList (value.toList.flatMap escapeChar) ++ "\""

def text : Literal → String
  | .plain value => quoted value
  | .tagged value language => quoted value ++ "@" ++ language
  | .typed value datatype => quoted value ++ "^^<" ++ datatype ++ ">"

end Literal

namespace Term

def text : Term → String
  | .iri value => "<" ++ value ++ ">"
  | .blank label => "_:" ++ label
  | .literal value => value.text

end Term

def Triple.text (triple : Triple) : String :=
  triple.subject.toTerm.text ++ " <" ++ triple.predicate ++ "> " ++ triple.object.text

end ContinuousQuery
