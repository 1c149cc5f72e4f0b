/-!
Names of stages. An id source is a state machine that is asked for one id after the
other and told the kind of stage that each id is for.
-/

namespace ContinuousQuery

inductive StageKind where
  | pattern
  | join
  | projection
deriving DecidableEq, Repr

namespace StageKind

def idPrefix : StageKind → String
  | .pattern => "SP_"
  | .join => "JOIN_"
  | .projection => "PROJECTION_"

def text : StageKind → String
  | .pattern => "statement pattern"
  | .join => "join"
  | .projection => "projection"

def all : List StageKind := [.pattern, .join, .projection]

end StageKind

/-- Yields ids from states of type `σ`. -/
structure IdSource (σ : Type) where
  next : StageKind → σ → String × σ

namespace IdSource

def sequential : IdSource Nat where
  next kind count := (kind.idPrefix ++ toString count, count + 1)

def cycle (ids : List String) : IdSource Nat where
  next _ count := (ids.getD (count % ids.length) "", count + 1)

def withPrefix {σ : Type} (source : IdSource σ) : IdSource σ where
  next kind state :=
    let (suffix, later) := source.next kind state
    (kind.idPrefix ++ suffix, later)

def draw {σ : Type} (source : IdSource σ) : List StageKind → σ → List String
  | [], _ => []
  | kind :: rest, state =>
    let (id, later) := source.next kind state
    id :: source.draw rest later

end IdSource

structure Seed where
  word : UInt64
deriving Repr

namespace Seed

/-- Steps through an odd stride and mixes the bits of the state. -/
def next (seed : Seed) : UInt64 × Seed :=
  let state := seed.word + 0x9e3779b97f4a7c15
  let mixed := (state ^^^ (state >>> 30)) * 0xbf58476d1ce4e5b9
  let mixed := (mixed ^^^ (mixed >>> 27)) * 0x94d049bb133111eb
  (mixed ^^^ (mixed >>> 31), ⟨state⟩)

def hexDigits (count value : Nat) : List Char :=
  (List.range count).reverse.map (fun place => Nat.digitChar ((value >>> (4 * place)) % 16))

/-- A random UUID, which is of version 4 and of the usual variant. -/
def uuid (seed : Seed) : String × Seed :=
  let (high, seed) := seed.next
  let (low, seed) := seed.next
  let high := high.toNat
  let low := low.toNat
  let groups := [hexDigits 8 (high >>> 32), hexDigits 4 (high >>> 16), '4' :: hexDigits 3 high,
    hexDigits 4 (0x8000 + (low >>> 48) % 0x4000), hexDigits 12 low]
  ("-".intercalate (groups.map String.ofList), seed)

end Seed

def IdSource.random : IdSource Seed :=
  IdSource.withPrefix ⟨fun _ seed => seed.uuid⟩

end ContinuousQuery
