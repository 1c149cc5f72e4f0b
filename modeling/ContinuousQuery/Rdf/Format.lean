import ContinuousQuery.Lexical.MediaType
import ContinuousQuery.Rdf.Lines
import ContinuousQuery.Rdf.Turtle

/-!
The formats of RDF documents by their names. Of the formats that extend Turtle, only
documents that are also Turtle can be read, and none at all of XML and JSON.
-/

namespace ContinuousQuery.Rdf

open Lexical

inductive Format where
  | nTriples
  | nQuads
  | turtle
  | triG
  | n3
  | rdfXml
  | jsonLd
deriving DecidableEq, Repr

inductive NameError where
  | unknown
  /-- A profile that is nothing but a quote. -/
  | unclosedProfile
deriving DecidableEq, Repr

namespace Format

def extensions : List (String × Format) :=
  [("json", .jsonLd), ("jsonld", .jsonLd), ("n3", .n3), ("nq", .nQuads), ("nt", .nTriples),
    ("rdf", .rdfXml), ("trig", .triG), ("ttl", .turtle), ("txt", .nTriples), ("xml", .rdfXml)]

def subtypes : List (String × Format) :=
  [("activity+json", .jsonLd), ("json", .jsonLd), ("jsonld", .jsonLd), ("ld+json", .jsonLd),
    ("n-quads", .nQuads), ("n-triples", .nTriples), ("n3", .n3), ("nquads", .nQuads),
    ("ntriples", .nTriples), ("plain", .nTriples), ("rdf+xml", .rdfXml), ("trig", .triG),
    ("turtle", .turtle), ("xml", .rdfXml)]

def ofExtension? : String → Option Format := lookupIgnoringCase extensions

def charsets : List String := ["ascii", "utf8", "utf-8"]

/-- Checks a parameter of a media type. A profile that begins with a quote needs another one. -/
def checkParameter (parameter : String × String) : Except NameError Unit :=
  if parameter.1 = "charset" ∧ (charsets.find? (sameIgnoringCase parameter.2)).isNone then
    .error .unknown
  else if parameter = ("profile", "\"") then .error .unclosedProfile
  else .ok ()

def ofMediaType (mediaType : MediaType) : Except NameError Format :=
  match mediaType.parameters?, lookupIgnoringCase subtypes mediaType.subtype with
  | some parameters, some format => do
    parameters.forM checkParameter
    return format
  | _, _ => .error .unknown

def ofName (name : String) : Except NameError Format :=
  match ofExtension? name, MediaType.ofName? name with
  | some format, _ => .ok format
  | none, some mediaType => ofMediaType mediaType
  | none, none => .error .unknown

def read? (format : Format) (text : String) : Option (List Triple) :=
  match format with
  | .nTriples => Lines.read? false text.toList
  | .nQuads => Lines.read? true text.toList
  | .turtle | .triG | .n3 => Turtle.read? text.toList
  | .rdfXml | .jsonLd => none

end Format

end ContinuousQuery.Rdf
