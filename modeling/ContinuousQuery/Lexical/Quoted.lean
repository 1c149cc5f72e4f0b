import ContinuousQuery.Lexical.Name

/-!
Quoted strings and IRIs in angle brackets, with their escapes. A short string ends at
its quote and stays on its line; a long one ends at three quotes.
-/

namespace ContinuousQuery.Lexical

def hexValue (char : Char) : Nat :=
  if char.isDigit then char.toNat - 48 else (char.toLower).toNat - 87

/-- The digits of a number that may be signed, so that a plus sign stands for the first of them. -/
def withoutSign (signed : Bool) : List Char → List Char
  | '+' :: digits => if signed then digits else '+' :: digits
  | digits => digits

def codePoint? (digits : List Char) : Option Char :=
  if digits.all isHexDigit then
    let value := digits.foldl (fun value digit => 16 * value + hexValue digit) 0
    if value.isValidChar then some (Char.ofNat value) else none
  else none

def codePointEscape (signed : Bool) : List Char → Option (Char × List Char)
  | 'u' :: a :: b :: c :: d :: rest => (codePoint? (withoutSign signed [a, b, c, d])).map (·, rest)
  | 'U' :: a :: b :: c :: d :: e :: f :: g :: h :: rest =>
    (codePoint? (withoutSign signed [a, b, c, d, e, f, g, h])).map (·, rest)
  | _ => none

def letterEscape? : Char → Option Char
  | 't' => some '\t'
  | 'b' => some '\x08'
  | 'n' => some '\n'
  | 'r' => some '\r'
  | 'f' => some '\x0c'
  | '"' => some '"'
  | '\x27' => some '\x27'
  | '\\' => some '\\'
  | _ => none

def stringEscape : List Char → Option (Char × List Char)
  | [] => none
  | char :: rest =>
    match letterEscape? char with
    | some escaped => some (escaped, rest)
    | none => codePointEscape false (char :: rest)

theorem length_codePointEscape {signed : Bool} {input rest : List Char} {char : Char}
    (found : codePointEscape signed input = some (char, rest)) : rest.length < input.length := by
  unfold codePointEscape at found
  split at found
  all_goals simp only [Option.map_eq_some_iff, Prod.mk.injEq, reduceCtorEq] at found
  all_goals
    obtain ⟨_, _, _, same⟩ := found
    subst same
    simp only [List.length_cons]
    omega

theorem length_stringEscape {input rest : List Char} {char : Char}
    (found : stringEscape input = some (char, rest)) : rest.length < input.length := by
  unfold stringEscape at found
  split at found
  next => simp at found
  next =>
    split at found
    next =>
      simp only [Option.some.injEq, Prod.mk.injEq] at found
      obtain ⟨_, same⟩ := found
      subst same
      simp
    next => exact length_codePointEscape found

def shortBody (quote : Char) (input : List Char) : Option (List Char × List Char) :=
  match input with
  | [] => none
  | '\\' :: rest =>
    match found : stringEscape rest with
    | none => none
    | some (char, left) =>
      have := length_stringEscape found
      (shortBody quote left).map (fun (body, left) => (char :: body, left))
  | char :: rest =>
    if char = quote then some ([], rest)
    else if char = '\n' ∨ char = '\r' then none
    else (shortBody quote rest).map (fun (body, left) => (char :: body, left))
termination_by input.length

def longBody (quote : Char) (input : List Char) : Option (List Char × List Char) :=
  match input with
  | [] => none
  | '\\' :: rest =>
    match found : stringEscape rest with
    | none => none
    | some (char, left) =>
      have := length_stringEscape found
      (longBody quote left).map (fun (body, left) => (char :: body, left))
  | char :: rest =>
    match dropExact [quote, quote, quote] (char :: rest) with
    | some left => some ([], left)
    | none => (longBody quote rest).map (fun (body, left) => (char :: body, left))
termination_by input.length

/-- The text of an IRI with its escapes decoded, whose digits may be signed. -/
def iriBody (signed : Bool) (input : List Char) : Option (List Char × List Char) :=
  match input with
  | [] => none
  | '>' :: rest => some ([], rest)
  | '\\' :: rest =>
    match found : codePointEscape signed rest with
    | none => none
    | some (char, left) =>
      have := length_codePointEscape found
      (iriBody signed left).map (fun (body, left) => (char :: body, left))
  | char :: rest => (iriBody signed rest).map (fun (body, left) => (char :: body, left))
termination_by input.length

namespace Scanner

def shortString (quote : Char) : Scanner String := do
  exact (String.singleton quote)
  return String.ofList (← shortBody quote)

def longString (quote : Char) : Scanner String := do
  exact (String.ofList [quote, quote, quote])
  return String.ofList (← longBody quote)

def quotedString : Scanner String :=
  longString '\x27' <|> longString '"' <|> shortString '\x27' <|> shortString '"'

def bracketedIri (signed : Bool) : Scanner (List Char) := do
  exact "<"
  iriBody signed

end Scanner

end ContinuousQuery.Lexical
