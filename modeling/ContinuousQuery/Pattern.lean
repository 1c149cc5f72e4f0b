import ContinuousQuery.Solution

/-!
Triple patterns and their matches. A pattern asks for a triple with given terms in
some positions and names for the others; a name that occurs twice asks for the same
term twice. A blank node of a pattern asks for the anonymous name of its label, which a
variable of the pattern may happen to have as well.
-/

namespace ContinuousQuery

inductive PatternTerm where
  | variable (name : String)
  | blank (label : String)
  | iri (value : String)
  | literal (value : Literal)
deriving DecidableEq, Repr

inductive PatternPredicate where
  | variable (name : String)
  | iri (value : String)
deriving DecidableEq, Repr

structure TriplePattern where
  subject : PatternTerm
  predicate : PatternPredicate
  object : PatternTerm
deriving DecidableEq, Repr

/-- The name that a blank node of a pattern binds. -/
def anonymousName (label : String) : String := "_anon_" ++ label

namespace PatternTerm

def bindingName? : PatternTerm → Option String
  | .variable name => some name
  | .blank label => some (anonymousName label)
  | .iri _ | .literal _ => none

def accept (pattern : PatternTerm) (term : Term) (bindings : Bindings) : Option Bindings :=
  match pattern with
  | .variable name => Bindings.bind bindings name term
  | .blank label => Bindings.bind bindings (anonymousName label) term
  | .iri value => if term = .iri value then some bindings else none
  | .literal value => if term = .literal value then some bindings else none

def text : PatternTerm → String
  | .variable name => "?" ++ name
  | .blank label => (Term.blank label).text
  | .iri value => (Term.iri value).text
  | .literal value => value.text

end PatternTerm

namespace PatternPredicate

def bindingName? : PatternPredicate → Option String
  | .variable name => some name
  | .iri _ => none

def accept (pattern : PatternPredicate) (predicate : String) (bindings : Bindings) :
    Option Bindings :=
  match pattern with
  | .variable name => Bindings.bind bindings name (.iri predicate)
  | .iri value => if predicate = value then some bindings else none

def text : PatternPredicate → String
  | .variable name => "?" ++ name
  | .iri value => (Term.iri value).text

end PatternPredicate

namespace TriplePattern

def bindingNames (pattern : TriplePattern) : List String :=
  ([pattern.subject.bindingName?, pattern.predicate.bindingName?,
    pattern.object.bindingName?].filterMap id).eraseDups

/-- The bindings that turn the pattern into the triple. -/
def matchTriple (pattern : TriplePattern) (triple : Triple) : Option Bindings := do
  let bindings ← pattern.subject.accept triple.subject.toTerm OrderedMap.empty
  let bindings ← pattern.predicate.accept triple.predicate bindings
  pattern.object.accept triple.object bindings

def matchStatement (pattern : TriplePattern) (statement : Statement) : Option Solution :=
  (pattern.matchTriple statement.content).map (fun bindings => ⟨bindings, statement.visibility⟩)

def text (pattern : TriplePattern) : String :=
  pattern.subject.text ++ " " ++ pattern.predicate.text ++ " " ++ pattern.object.text

end TriplePattern

end ContinuousQuery
