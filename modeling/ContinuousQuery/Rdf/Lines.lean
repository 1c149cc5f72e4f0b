import ContinuousQuery.Lexical.Iri
import ContinuousQuery.Rdf.Token
import ContinuousQuery.Term

/-!
Documents with one statement on a line, in which nothing is abbreviated. Statements of
one of the formats may name a graph, which is read and left out.
-/

namespace ContinuousQuery.Rdf.Lines

open Lexical

def iri? : Token → Option String
  | .reference text => (Iri.ofChars? none text).map Iri.text
  | _ => none

def subject? : Token → Option Subject
  | .blank label => some (.blank label)
  | token => (iri? token).map .iri

def object? : List Token → Option (Term × List Token)
  | .quoted value :: .tag language :: rest =>
    some (.literal (.tagged value (lowerCase language)), rest)
  | .quoted value :: .mark "^^" :: datatype :: rest =>
    (iri? datatype).map (fun datatype => (.literal (.withDatatype value datatype), rest))
  | .quoted value :: rest => some (.literal (.plain value), rest)
  | token :: rest => (subject? token).map (fun subject => (subject.toTerm, rest))
  | [] => none

def isEnd (withGraph : Bool) : List Token → Bool
  | [.mark "."] => true
  | [graph, .mark "."] => withGraph && (subject? graph).isSome
  | _ => false

def line? (withGraph : Bool) : List Token → Option (Option Triple)
  | [] => some none
  | subject :: predicate :: rest => do
    let subject ← subject? subject
    let predicate ← iri? predicate
    let (object, rest) ← object? rest
    if isEnd withGraph rest then some (some ⟨subject, predicate, object⟩) else none
  | [_] => none

def read? (withGraph : Bool) (input : List Char) : Option (List Triple) := do
  let tokens ← Token.ofChars? false input
  let lines ← (splitWhere (· == .lineEnd) tokens).mapM (line? withGraph)
  return lines.filterMap id

end ContinuousQuery.Rdf.Lines
