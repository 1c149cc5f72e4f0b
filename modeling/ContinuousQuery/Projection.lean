import ContinuousQuery.Solution

/-!
Projections rename, copy and drop bindings and add constants. All elements of a
projection read the same input. Rebindings are read one after the other instead;
`resolve` turns a chain of them into sources that all read the input of the chain.
-/

namespace ContinuousQuery

namespace Projection

inductive Source where
  | binding (name : String)
  | constant (term : Term)
deriving DecidableEq, Repr

structure Element where
  source : Source
  target : String
deriving DecidableEq, Repr

namespace Source

def text : Source → String
  | .binding name => "?" ++ name
  | .constant term => term.text

def value? (source : Source) (bindings : Bindings) : Option Term :=
  match source with
  | .binding name => OrderedMap.get? bindings name
  | .constant term => some term

end Source

namespace Element

def keep (name : String) : Element := ⟨.binding name, name⟩

def text (element : Element) : String :=
  if element.source = .binding element.target then element.source.text
  else element.source.text ++ " AS ?" ++ element.target

end Element

/-- The source of a name after a chain of rebindings, given from the last one to the first. -/
def resolve : List Element → String → Source
  | [], name => .binding name
  | last :: earlier, name =>
    if last.target = name then
      match last.source with
      | .binding source => resolve earlier source
      | .constant term => .constant term
    else resolve earlier name

end Projection

/-- A list of elements, of which a later one wins over an earlier one of the same target. -/
structure Projection where
  elements : List Projection.Element
deriving DecidableEq, Repr

namespace Projection

/-- The projection onto names of what a chain of rebindings makes of its input. -/
def ofRebindings (rebindings : List Element) (names : List String) : Projection :=
  ⟨names.map (fun name => ⟨resolve rebindings.reverse name, name⟩)⟩

/-- Sets the target of an element, if its source has a value in the input. -/
def assign (input : Bindings) (output : Bindings) (element : Element) : Bindings :=
  match element.source.value? input with
  | some term => OrderedMap.insert output element.target term
  | none => output

def projectBindings (projection : Projection) (input : Bindings) : Bindings :=
  projection.elements.foldl (assign input) OrderedMap.empty

def project (projection : Projection) (input : Solution) : Solution :=
  ⟨projection.projectBindings input.content, input.visibility⟩

def text (projection : Projection) : String :=
  ", ".intercalate (projection.elements.map Element.text)

end Projection

end ContinuousQuery
