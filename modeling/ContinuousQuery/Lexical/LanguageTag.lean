import ContinuousQuery.Lexical.Scanner

/-!
Language tags of the form that BCP 47 gives them: a language with extensions, a script,
a region, variants, further extensions and a private part, or one of the old tags that
are listed by name. Tags are compared without regard to case and kept in lower case.
-/

namespace ContinuousQuery.Lexical

namespace LanguageTag

inductive Position where
  | language
  | extendedLanguage
  | script
  | region
  /-- A singleton needs at least one subtag after it. -/
  | extension (complete : Bool)
  | privateUse (complete : Bool)
deriving DecidableEq, Repr

def irregular : List String :=
  ["art-lojban", "cel-gaulish", "en-gb-oed", "i-ami", "i-bnn", "i-default", "i-enochian", "i-hak",
    "i-klingon", "i-lux", "i-mingo", "i-navajo", "i-pwn", "i-tao", "i-tay", "i-tsu", "no-bok",
    "no-nyn", "sgn-be-fr", "sgn-be-nl", "sgn-ch-de", "zh-guoyu", "zh-hakka", "zh-min",
    "zh-min-nan", "zh-xiang"]

/-- The position of a subtag after those before it, if it may stand there. The count is that of
the extended languages so far. -/
def advance (position : Position) (extended : Nat) (subtag : List Char) : Option (Position × Nat) :=
  let letters := subtag.all Char.isAlpha
  let numbers := subtag.all Char.isDigit
  let length := subtag.length
  let early := position = .language ∨ position = .extendedLanguage
  match position with
  | .privateUse _ => some (.privateUse true, extended)
  | _ =>
    if subtag = ['x'] then
      if position = .extension false then none else some (.privateUse false, extended)
    else if length = 1 then
      if position = .extension false then none else some (.extension false, extended)
    else if position = .extension true ∨ position = .extension false then
      some (.extension true, extended)
    else if position = .language ∧ length = 3 ∧ letters then
      if extended < 3 then some (.language, extended + 1) else none
    else if early ∧ length = 4 ∧ letters then some (.script, extended)
    else if (early ∨ position = .script) ∧ (length = 2 ∧ letters ∨ length = 3 ∧ numbers) then
      some (.region, extended)
    else if (5 ≤ length ∧ (subtag.take 1).all Char.isAlpha) ∨
        (4 ≤ length ∧ (subtag.take 1).all Char.isDigit) then
      some (.region, extended)
    else none

def isSubtag (subtag : List Char) : Bool :=
  1 ≤ subtag.length && subtag.length ≤ 8 && subtag.all Char.isAlphanum

def mayFollow (position : Position) (extended : Nat) : List (List Char) → Bool
  | [] => position ≠ .extension false ∧ position ≠ .privateUse false
  | subtag :: rest =>
    match advance position extended subtag with
    | some (next, count) => isSubtag subtag && mayFollow next count rest
    | none => false

def isValid (tag : String) : Bool :=
  if irregular.contains tag then true
  else match splitAt '-' tag.toList with
    | ['x'] :: rest => !rest.isEmpty && rest.all isSubtag
    | language :: rest =>
      2 ≤ language.length && language.length ≤ 8 && language.all Char.isAlpha &&
        mayFollow (if language.length < 4 then .language else .extendedLanguage) 0 rest
    | [] => false

end LanguageTag

/-- The longest run of subtags, each after a dash. Inside a subtag, it may go on first. -/
def subtagRun (inside : Bool) : List Char → List Char × List Char
  | '-' :: char :: rest =>
    if char.isAlphanum then
      let (run, left) := subtagRun true rest
      ('-' :: char :: run, left)
    else ([], '-' :: char :: rest)
  | char :: rest =>
    if inside && char.isAlphanum then
      let (run, left) := subtagRun true rest
      (char :: run, left)
    else ([], char :: rest)
  | [] => ([], [])

namespace Scanner

def languageTag : Scanner String := do
  exact "@"
  let language ← runOfSome Char.isAlpha
  let rest ← fun input => some (subtagRun false input)
  let tag := lowerCase (String.ofList (language ++ rest))
  if LanguageTag.isValid tag then return tag else failure

end Scanner

end ContinuousQuery.Lexical
