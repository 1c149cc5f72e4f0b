import ContinuousQuery.Lexical.Iri
import ContinuousQuery.Rdf.Token
import ContinuousQuery.Term

/-!
Turtle documents. The triples come in the order in which the tokens complete them, and
those completed by the same token in reverse. The triples of a nested node are complete
before the one that refers to it, those of a collection behind it. The labels of nodes
without one are longer than all labels in the document, so no two nodes become one.
-/

namespace ContinuousQuery.Rdf.Turtle

open Lexical

structure Declarations where
  base : Option Iri
  /-- Prefixes and their IRIs, the latest declaration first. -/
  prefixes : List (String × Iri)
  /-- What labels begin with that are made up. -/
  labelStart : String
  /-- The number of labels made up so far. -/
  madeUp : Nat

abbrev Parser := Reader Token Declarations

/-! Tokens -/

def tokenAs {α : Type} (meaning? : Token → Option α) : Parser α := do
  match ← getThe (List Token) with
  | token :: rest =>
    match meaning? token with
    | some value =>
      set rest
      return value
    | none => failure
  | [] => failure

def mark (text : String) : Parser Unit :=
  tokenAs (fun token => if token = .mark text then some () else none)

def word (name : String) : Parser Unit :=
  tokenAs (fun token => if token = .word name then some () else none)

def keyword (name : String) : Parser Unit := tokenAs (fun token =>
  match token with
  | .word found => if sameIgnoringCase name found then some () else none
  | _ => none)

def tag (name : String) : Parser Unit :=
  tokenAs (fun token => if token = .tag name then some () else none)

def tokensLeft : Parser Nat := do
  return (← getThe (List Token)).length

def reference : Parser Iri := do
  let declared ← getThe Declarations
  tokenAs (fun token =>
    match token with
    | .reference text => Iri.ofChars? declared.base text
    | _ => none)

/-- The IRI of a name with a declared prefix. It need not be well formed, unless its local part is
doubtful or continues something else than a path. -/
def prefixedName : Parser String := do
  let declared ← getThe Declarations
  tokenAs (fun token =>
    match token with
    | .name space localPart doubtful => do
      let expansion ← declared.prefixes.lookup space
      let text := expansion.text ++ localPart
      if (doubtful || expansion.path.isEmpty) && (Iri.ofChars? none text.toList).isNone then none
      else some text
    | _ => none)

def iri : Parser String := (Iri.text <$> reference) <|> prefixedName

def freshLabel : Parser String := do
  let declared ← getThe Declarations
  set { declared with madeUp := declared.madeUp + 1 }
  return declared.labelStart ++ toString declared.madeUp

def blankLabel : Parser String := tokenAs (fun token =>
  match token with
  | .blank label => some label
  | _ => none)

def blankNode : Parser String := blankLabel <|> (do mark "["; mark "]"; freshLabel)

def languageTag : Parser String := tokenAs (fun token =>
  match token with
  | .tag name => some (lowerCase name)
  | _ => none)

def quoted : Parser String := tokenAs (fun token =>
  match token with
  | .quoted value => some value
  | _ => none)

def number : Parser Literal := tokenAs (fun token =>
  match token with
  | .number spelling datatype => some (.typed spelling (xsd datatype))
  | _ => none)

def literal : Parser Literal :=
  (do
    let value ← quoted
    (do return .tagged value (← languageTag)) <|>
    (do mark "^^"; return .withDatatype value (← iri))) <|>
  number <|>
  (do word "true"; return .typed "true" (xsd "boolean")) <|>
  (do word "false"; return .typed "false" (xsd "boolean"))

/-! Triples -/

/-- A triple and the number of tokens that were left when it was complete. -/
structure Found where
  triple : Triple
  left : Nat

/-- The triples in the order of their completion, the latest of a token first. -/
def inOrder (found : List Found) : List Triple :=
  (found.splitBy (fun first second => first.left == second.left)).flatMap
    (fun group => (group.map Found.triple).reverse)

structure Object where
  term : Term
  /-- The number of tokens that are left when that triple is complete. -/
  left : Nat
  before : List Found
  after : List Found

namespace Object

def found (subject : Subject) (predicate : String) (object : Object) : List Found :=
  object.before ++ ⟨⟨subject, predicate, object.term⟩, object.left⟩ :: object.after

end Object

def verb : Parser String := iri <|> (do word "a"; return rdf "type")

def properties (object : Parser Object) (subject : Subject) : Parser (List Found) := do
  let predicate ← verb
  let objects ← Reader.separated object (mark ",")
  return objects.flatMap (Object.found subject predicate)

def propertyList (object : Parser Object) (subject : Subject) : Parser (List Found) := do
  let first ← properties object subject
  let rest ← Reader.many (do
    mark ";"
    properties object subject <|> return [])
  return first ++ rest.flatten

def item (object : Parser Object) : Parser (Object × Nat) := do
  let found ← object
  return (found, ← tokensLeft)

/-- The blank node of a list and the triples of the list. The token behind an item tells whether
another one follows. -/
def collection : List (Object × Nat) → Parser (Subject × List Found)
  | [] => return (.iri (rdf "nil"), [])
  | (first, left) :: rest => do
    let label ← freshLabel
    let (next, found) ← collection rest
    return (.blank label, first.found (.blank label) (rdf "first") ++
      ⟨⟨.blank label, rdf "rest", next.toTerm⟩, left - 1⟩ :: found)

def collectionOf (object : Parser Object) : Parser (Subject × List Found) := do
  mark "("
  let items ← Reader.many (item object)
  mark ")"
  collection items

def nested (object : Parser Object) : Parser (Subject × List Found) := do
  mark "["
  let label ← freshLabel
  let found ← propertyList object (.blank label)
  mark "]"
  return (.blank label, found)

/-! Objects -/

def simpleObject (term : Parser Term) : Parser Object := do
  return ⟨← term, ← tokensLeft, [], []⟩

/-- A string with neither a language nor a datatype, which only the token behind it shows. -/
def stringObject : Parser Object := do
  let value ← quoted
  return ⟨.literal (.plain value), (← tokensLeft) - 1, [], []⟩

def emptyCollection : Parser Term := do
  mark "("
  mark ")"
  return .iri (rdf "nil")

/-- A collection with an item, the first token of which completes the triple around it. -/
def collectionObject (object : Parser Object) : Parser Object := do
  let left ← tokensLeft
  let (node, found) ← collectionOf object
  return ⟨node.toTerm, left - 2, [], found⟩

def nestedObject (object : Parser Object) : Parser Object := do
  let (node, found) ← nested object
  return ⟨node.toTerm, ← tokensLeft, found, []⟩

def objectWithin (object : Parser Object) : Parser Object :=
  simpleObject (.iri <$> iri) <|> simpleObject (.blank <$> blankNode) <|>
    simpleObject (.literal <$> literal) <|> stringObject <|> simpleObject emptyCollection <|>
    collectionObject object <|> nestedObject object

def objectUpTo : Nat → Parser Object
  | 0 => failure
  | depth + 1 => fun input => objectWithin (objectUpTo depth) input

def triples (object : Parser Object) : Parser (List Found) :=
  (do
    let subject ← (.iri <$> iri) <|> (.blank <$> blankNode)
    propertyList object subject) <|>
  (do
    let (subject, found) ← collectionOf object
    return found ++ (← propertyList object subject)) <|>
  (do
    let (subject, found) ← nested object
    let rest ← propertyList object subject <|> return []
    return found ++ rest)

/-! Documents -/

def declareBase : Parser Unit := do
  let iri ← reference
  let declared ← getThe Declarations
  set { declared with base := some iri }

def declarePrefix : Parser Unit := do
  let name ← tokenAs (fun token =>
    match token with
    | .name space "" _ => some space
    | _ => none)
  let iri ← reference
  let declared ← getThe Declarations
  set { declared with prefixes := (name, iri) :: declared.prefixes }

def declaration : Parser Unit :=
  (do tag "prefix"; declarePrefix; mark ".") <|>
    (do tag "base"; declareBase; mark ".") <|>
    (do keyword "PREFIX"; declarePrefix) <|>
    (do keyword "BASE"; declareBase)

def document (object : Parser Object) : Parser (List Triple) := do
  let statements ← Reader.many
    ((do declaration; return []) <|> (do let found ← triples object; mark "."; return found))
  return inOrder statements.flatten

/-- Letters that make a label longer than those among some tokens. -/
def longStart (tokens : List Token) : String :=
  let lengths := tokens.filterMap (fun token =>
    match token with
    | .blank label => some label.length
    | _ => none)
  String.ofList (List.replicate (lengths.foldl max 0 + 1) 'b')

def read? (input : List Char) : Option (List Triple) := do
  let tokens := (← Token.ofChars? true input).filter (· != .lineEnd)
  (document (objectUpTo (tokens.length + 1))).all? ⟨none, [], longStart tokens, 0⟩ tokens

end ContinuousQuery.Rdf.Turtle
