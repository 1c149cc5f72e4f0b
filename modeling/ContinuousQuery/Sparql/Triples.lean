import ContinuousQuery.Sparql.Rules

/-!
Triples as queries write them: subjects with lists of predicates and objects, nested
blank nodes, collections and property paths. A path of inverse steps and sequences is
a chain of triples through blank nodes; every other path stays a path. The triples of
a nested node come before the triple that uses it.
-/

namespace ContinuousQuery.Sparql

open Lexical

def Path.connect : Path → PatternTerm → PatternTerm → Parser (List Link)
  | .step predicate, subject, object => return [.triple ⟨subject, .iri predicate, object⟩]
  | .inverse inner, subject, object => inner.connect object subject
  | .sequence first second, subject, object => do
    let middle ← Parser.freshBlank
    return (← first.connect subject middle) ++ (← second.connect middle object)
  | .other, subject, object => return [.path subject object]

def Verb.connect : Verb → PatternTerm → PatternTerm → Parser (List Link)
  | .variable name, subject, object => return [.triple ⟨subject, .variable name, object⟩]
  | .path steps, subject, object => steps.connect subject object

namespace Link

/-- Adds a link in front of a sequence of patterns, to the triples that it begins with. -/
def prepend (link : Link) (patterns : List GraphPattern) : List GraphPattern :=
  match link, patterns with
  | .triple first, .basic triples :: rest => .basic (first :: triples) :: rest
  | .triple first, patterns => .basic [first] :: patterns
  | .path subject object, patterns => .path subject object :: patterns

def pattern (links : List Link) : GraphPattern :=
  (links.foldr prepend []).foldl GraphPattern.conjoin .unit

end Link

/-- What follows a subject: the links of nested nodes, and the verbs with their objects. -/
structure PropertyList where
  links : List Link
  facts : List (Verb × PatternTerm)

namespace PropertyList

def empty : PropertyList := ⟨[], []⟩

def connect (properties : PropertyList) (subject : PatternTerm) : Parser (List Link) := do
  let links ← properties.facts.mapM (fun (verb, object) => verb.connect subject object)
  return properties.links ++ links.flatten

end PropertyList

namespace Parser

/-! Paths -/

def predicate : Parser String := iri <|> (do symbol "a"; return rdf "type")

def excludedPredicate : Parser Unit := do
  symbol "^" <|> pure ()
  let _ ← predicate

def excludedPredicates : Parser Unit :=
  parenthesized (do let _ ← Reader.separated excludedPredicate (symbol "|")) <|> excludedPredicate

def pathPrimary (rules : Rules) : Parser Path :=
  (.step <$> predicate) <|> (do symbol "!"; excludedPredicates; return .other) <|>
    parenthesized rules.path

/-- A mark of repetition. The question mark of a variable is none. -/
def repetition : Parser Unit :=
  symbol "*" <|> symbol "+" <|> token (do
    Scanner.exact "?"
    Scanner.notBefore isNameStart)

def pathElement (rules : Rules) : Parser Path := do
  let path ← pathPrimary rules
  (do repetition; return .other) <|> return path

def pathStep (rules : Rules) : Parser Path :=
  (do symbol "^"; return .inverse (← pathElement rules)) <|> pathElement rules

def pathSequence (rules : Rules) : Parser Path := do
  let first ← pathStep rules
  let rest ← Reader.many (do symbol "/"; pathStep rules)
  return rest.foldl .sequence first

def path (rules : Rules) : Parser Path := do
  let first ← pathSequence rules
  let rest ← Reader.many (do symbol "|"; pathSequence rules)
  return if rest.isEmpty then first else .other

def pathVerb (rules : Rules) : Parser Verb :=
  (.path <$> path rules) <|> (.variable <$> variableName)

def simpleVerb : Parser Verb :=
  (.variable <$> variableName) <|> ((fun iri => .path (.step iri)) <$> predicate)

/-! Subjects and objects -/

def properties (rules : Rules) (verb : Parser Verb) : Parser PropertyList := do
  let verb' ← verb
  let objects ← Reader.separated (rules.node verb) (symbol ",")
  return ⟨objects.flatMap (·.links), objects.map (fun object => (verb', object.term))⟩

def propertyList (rules : Rules) (verb : Parser Verb) : Parser PropertyList := do
  let first ← properties rules verb
  let rest ← Reader.many (do
    symbol ";"
    properties rules verb <|> return .empty)
  let lists := first :: rest
  return ⟨lists.flatMap (·.links), lists.flatMap (·.facts)⟩

/-- The nodes of a list, the last one first: each has an element and refers to the one after it. -/
def collection : List Described → Parser Described
  | [] => return ⟨.iri (rdf "nil"), []⟩
  | first :: rest => do
    let next ← collection rest
    let node ← freshBlank
    return ⟨node, next.links ++ [.triple ⟨node, .iri (rdf "first"), first.term⟩,
      .triple ⟨node, .iri (rdf "rest"), next.term⟩] ++ first.links⟩

def nested (rules : Rules) (verb : Parser Verb) : Parser Described :=
  (do
    let items ← parenthesized (Reader.manyOne (rules.node verb))
    collection items) <|>
  (do
    symbol "["
    let properties ← propertyList rules verb
    symbol "]"
    let node ← freshBlank
    return ⟨node, ← properties.connect node⟩)

def node (rules : Rules) (verb : Parser Verb) : Parser Described :=
  ((⟨·, []⟩) <$> patternTerm) <|> nested rules verb

def triplesOfSubject (rules : Rules) (verb : Parser Verb) : Parser (List Link) :=
  (do
    let subject ← patternTerm
    let properties ← propertyList rules verb
    properties.connect subject) <|>
  (do
    let subject ← nested rules verb
    let properties ← propertyList rules verb <|> return .empty
    return subject.links ++ (← properties.connect subject.term))

def triples (rules : Rules) (verb : Parser Verb) : Parser (List Link) := do
  let links ← Reader.separated (triplesOfSubject rules verb) (symbol ".")
  symbol "." <|> pure ()
  return links.flatten

def triplesBlock (rules : Rules) : Parser GraphPattern := do
  return Link.pattern (← triples rules (pathVerb rules))

end Parser

end ContinuousQuery.Sparql
