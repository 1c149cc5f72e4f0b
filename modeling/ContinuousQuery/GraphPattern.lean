import ContinuousQuery.Pattern
import ContinuousQuery.Projection

/-!
Graph patterns, the algebra of SPARQL. Of expressions only that is kept which
matters to a streaming query: whether a join has a condition, and which name or
constant an extension copies, if it copies one at all.
-/

namespace ContinuousQuery

inductive GraphPattern where
  | basic (patterns : List TriplePattern)
  /-- A property path that is more than a chain of triples. -/
  | path (subject object : PatternTerm)
  | join (left right : GraphPattern)
  /-- An `OPTIONAL`, which may be filtered by a condition on both operands. -/
  | leftJoin (left right : GraphPattern) (filtered : Bool)
  | union (left right : GraphPattern)
  | minus (left right : GraphPattern)
  | filter (inner : GraphPattern)
  | graph (name : PatternPredicate) (inner : GraphPattern)
  | service (inner : GraphPattern)
  /-- Binds a name to a source, or to a computed value if there is no source. -/
  | extend (inner : GraphPattern) (name : String) (source : Option Projection.Source)
  | values (names : List String)
  | group (inner : GraphPattern) (names : List String)
  | orderBy (inner : GraphPattern)
  | project (inner : GraphPattern) (names : List String)
  | distinct (inner : GraphPattern)
  | reduced (inner : GraphPattern)
  | slice (inner : GraphPattern)
deriving Repr

namespace PatternTerm

/-- The variable in this position. Blank nodes bind names, but are no variables. -/
def variableName? : PatternTerm → Option String
  | .variable name => some name
  | _ => none

end PatternTerm

namespace TriplePattern

def variableNames (pattern : TriplePattern) : List String :=
  [pattern.subject.variableName?, pattern.predicate.bindingName?,
    pattern.object.variableName?].filterMap id

end TriplePattern

namespace GraphPattern

def unit : GraphPattern := .basic []

/-- The variables that `SELECT *` selects, with repetitions. -/
def inScope : GraphPattern → List String
  | .basic patterns => patterns.flatMap TriplePattern.variableNames
  | .path subject object => [subject.variableName?, object.variableName?].filterMap id
  | .join left right | .leftJoin left right _ | .union left right => left.inScope ++ right.inScope
  | .minus left _ => left.inScope
  | .graph name inner => name.bindingName?.toList ++ inner.inScope
  | .extend inner name _ => name :: inner.inScope
  | .values names | .group _ names | .project _ names => names
  | .filter inner | .service inner | .orderBy inner | .distinct inner | .reduced inner
  | .slice inner => inner.inScope

/-- Joins two parts of a group. The unit pattern is dropped and basic patterns are merged. -/
def conjoin : GraphPattern → GraphPattern → GraphPattern
  | .basic [], right => right
  | left, .basic [] => left
  | .basic first, .basic second => .basic (first ++ second)
  | left, right => .join left right

end GraphPattern

end ContinuousQuery
