/-!
Scanners read a value from the front of a text, or fail and leave the text as it was.
Readers read from a list of characters or tokens and carry a state besides. A failure
gives back what a reader has read, but not its state: what an alternative has noted
down stays, even if another one succeeds in its place. The alternatives of a choice
are tried in order and the first success counts.
-/

namespace ContinuousQuery.Lexical

abbrev Scanner := StateT (List Char) Option

/-- Reads a value from the front of a list and keeps a state of type `σ`, also on failure. -/
abbrev Reader (τ σ : Type) := StateT (List τ) (OptionT (StateM σ))

def inRanges (ranges : List (Nat × Nat)) (char : Char) : Bool :=
  ranges.any (fun range => range.1 ≤ char.toNat && char.toNat ≤ range.2)

def lowerCase (text : String) : String := text.map Char.toLower

def sameIgnoringCase (left right : String) : Bool := lowerCase left == lowerCase right

def splitWhere {α : Type} (isMark : α → Bool) : List α → List (List α)
  | [] => [[]]
  | first :: rest =>
    if isMark first then [] :: splitWhere isMark rest
    else match splitWhere isMark rest with
      | [] => [[first]]
      | part :: parts => (first :: part) :: parts

def splitAt (mark : Char) (text : List Char) : List (List Char) := splitWhere (· == mark) text

def dropWord : List Char → List Char → Option (List Char)
  | [], rest => some rest
  | _ :: _, [] => none
  | wanted :: word, char :: rest =>
    if wanted.toLower = char.toLower then dropWord word rest else none

def dropExact : List Char → List Char → Option (List Char)
  | [], rest => some rest
  | _ :: _, [] => none
  | wanted :: word, char :: rest => if wanted = char then dropExact word rest else none

namespace Scanner

def satisfy (accepts : Char → Bool) : Scanner Char := fun input =>
  match input with
  | char :: rest => if accepts char then some (char, rest) else none
  | [] => none

def run (accepts : Char → Bool) : Scanner (List Char) := fun input =>
  some (input.span accepts)

def runOfSome (accepts : Char → Bool) : Scanner (List Char) := fun input =>
  match input.span accepts with
  | ([], _) => none
  | found => some found

def exact (text : String) : Scanner Unit := fun input =>
  (dropExact text.toList input).map (fun rest => ((), rest))

def word (text : String) : Scanner Unit := fun input =>
  (dropWord text.toList input).map (fun rest => ((), rest))

def notBefore (refused : Char → Bool) : Scanner Unit := fun input =>
  match input with
  | char :: _ => if refused char then none else some ((), input)
  | [] => some ((), [])

def all? {α : Type} (scanner : Scanner α) (text : String) : Option α :=
  match scanner text.toList with
  | some (value, []) => some value
  | _ => none

end Scanner

namespace Reader

variable {τ σ α : Type}

/-- Scanners do not touch the state. -/
instance : MonadLift Scanner (Reader Char σ) where
  monadLift scanner := fun input state => (scanner input, state)

/-- Reads a value as often as possible, but no more often than the list is long. -/
def atMost : List τ → Reader τ σ α → Reader τ σ (List α)
  | [], _ => pure []
  | _ :: bound, item => (do
      let first ← item
      let rest ← atMost bound item
      return first :: rest) <|> pure []

/-- Reads a value as often as possible. Each value takes at least one character or token. -/
def many (item : Reader τ σ α) : Reader τ σ (List α) := do
  atMost (← getThe (List τ)) item

def manyOne (item : Reader τ σ α) : Reader τ σ (List α) := do
  let first ← item
  let rest ← many item
  return first :: rest

def separated (item : Reader τ σ α) (separator : Reader τ σ Unit) : Reader τ σ (List α) := do
  let first ← item
  let rest ← many (do separator; item)
  return first :: rest

def firstOf : List (Reader τ σ α) → Reader τ σ α
  | [] => failure
  | reader :: rest => reader <|> firstOf rest

def all? (reader : Reader τ σ α) (start : σ) (input : List τ) : Option α :=
  match (reader input start).1 with
  | some (value, []) => some value
  | _ => none

end Reader

end ContinuousQuery.Lexical
