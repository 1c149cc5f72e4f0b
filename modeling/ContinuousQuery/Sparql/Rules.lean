import ContinuousQuery.Sparql.Scope

/-!
What the rules of the query language yield, and the rules that occur inside
themselves. A rule is read by means of the rules inside it, which are given as a
record; so each rule can be written down by itself.
-/

namespace ContinuousQuery.Sparql

/-- An expression, as far as a streaming query can tell: the copy of a source, or a value that
is computed from the values of some variables. -/
inductive Expression where
  | copy (source : Projection.Source)
  | computed (names : List String)
deriving DecidableEq, Repr

namespace Expression

def names : Expression → List String
  | .copy (.binding name) => [name]
  | .copy (.constant _) => []
  | .computed names => names

def source? : Expression → Option Projection.Source
  | .copy source => some source
  | .computed _ => none

def apply (operands : List Expression) : Expression := .computed (operands.flatMap names)

end Expression

/-- A property path, as far as it matters whether it is a chain of triples. -/
inductive Path where
  | step (predicate : String)
  | inverse (path : Path)
  | sequence (first second : Path)
  | other
deriving DecidableEq, Repr

inductive Verb where
  | variable (name : String)
  | path (path : Path)
deriving DecidableEq, Repr

inductive Link where
  | triple (triple : TriplePattern)
  | path (subject object : PatternTerm)
deriving DecidableEq, Repr

structure Described where
  term : PatternTerm
  links : List Link
deriving DecidableEq, Repr

/-- The rules that occur inside themselves. -/
structure Rules where
  expression : Parser Expression
  group : Parser GraphPattern
  path : Parser Path
  /-- A term, a nested blank node or a collection, with verbs of the given kind. -/
  node : Parser Verb → Parser Described

end ContinuousQuery.Sparql
