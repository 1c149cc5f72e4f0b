import ContinuousQuery.Lexical.Scanner

/-!
Names as queries write them: variables, blank node labels, prefixes and local parts. Dots
may stand inside a name, but not at its end; in a local part they all stand together.
Escapes in a local part are bytes, which keep their spelling, or marks.
-/

namespace ContinuousQuery.Lexical

def isNameBase : Char → Bool := inRanges
  [(0x41, 0x5a), (0x61, 0x7a), (0xc0, 0xd6), (0xd8, 0xf6), (0xf8, 0x2ff), (0x370, 0x37d),
    (0x37f, 0x1fff), (0x200c, 0x200d), (0x2070, 0x218f), (0x2c00, 0x2fef), (0x3001, 0xd7ff),
    (0xf900, 0xfdcf), (0xfdf0, 0xfffd)]

def isNameLetter (char : Char) : Bool := isNameBase char || char == '_'

def isNameStart (char : Char) : Bool := isNameLetter char || char.isDigit

def isVariableChar (char : Char) : Bool :=
  isNameStart char || inRanges [(0xb7, 0xb7), (0x300, 0x36f), (0x203f, 0x2040)] char

def isNameChar (char : Char) : Bool := isVariableChar char || char == '-'

def isHexDigit (char : Char) : Bool := inRanges [(0x30, 0x39), (0x41, 0x46), (0x61, 0x66)] char

def isEscapable (char : Char) : Bool := "_~.-!$&'()*+,;=/?#@%".toList.contains char

/-- The longest run of accepted characters and dots that does not end with a dot. -/
def dottedRun (accepts : Char → Bool) : List Char → List Char × List Char
  | [] => ([], [])
  | char :: rest =>
    let (run, left) := dottedRun accepts rest
    if char = '.' then
      if run.isEmpty then ([], char :: rest) else (char :: run, left)
    else if accepts char then (char :: run, left)
    else ([], char :: rest)

inductive LocalPiece where
  | plain (char : Char)
  /-- A byte in two hexadecimal digits, which are kept. -/
  | byte (high low : Char)
  /-- A mark behind a backslash, which is left out. -/
  | escaped (mark : Char)
deriving DecidableEq, Repr

def LocalPiece.text : LocalPiece → List Char
  | .plain char => [char]
  | .byte high low => ['%', high, low]
  | .escaped mark => [mark]

def LocalPiece.isEscaped : LocalPiece → Bool
  | .escaped _ => true
  | _ => false

def localPieces (accepts : Char → Bool) : List Char → List LocalPiece × List Char
  | '%' :: high :: low :: rest =>
    if isHexDigit high && isHexDigit low then
      let (pieces, left) := localPieces accepts rest
      (.byte high low :: pieces, left)
    else ([], '%' :: high :: low :: rest)
  | '\\' :: mark :: rest =>
    if isEscapable mark then
      let (pieces, left) := localPieces accepts rest
      (.escaped mark :: pieces, left)
    else ([], '\\' :: mark :: rest)
  | char :: rest =>
    if accepts char then
      let (pieces, left) := localPieces accepts rest
      (.plain char :: pieces, left)
    else ([], char :: rest)
  | [] => ([], [])

def beginsLocal (accepts : Char → Bool) : List Char → Bool
  | char :: _ => accepts char || char == ':' || char == '%' || char == '\\'
  | [] => false

namespace Scanner

def variableName : Scanner String := do
  let first ← satisfy isNameStart
  let rest ← run isVariableChar
  return String.ofList (first :: rest)

def blankLabel : Scanner String := do
  let first ← satisfy isNameStart
  let rest ← fun input => some (dottedRun isNameChar input)
  return String.ofList (first :: rest)

def namespacePrefix : Scanner String := do
  let name ← (do
    let first ← satisfy isNameBase
    let rest ← fun input => some (dottedRun isNameChar input)
    return first :: rest) <|> pure []
  exact ":"
  return String.ofList name

def localRun : Scanner (List Char) := fun input =>
  match localPieces (fun char => isNameChar char || char == ':') input with
  | ([], _) => none
  | (pieces, left) => some (pieces.flatMap LocalPiece.text, left)

/-- The local part of a prefixed name. Its dots stand between no more than two runs. -/
def localName : Scanner String := fun input =>
  if beginsLocal isNameStart input then
    (do
      let first ← localRun
      let rest ← (do
        let dots ← runOfSome (· == '.')
        return dots ++ (← localRun)) <|> pure []
      return String.ofList (first ++ rest)) input
  else none

end Scanner

end ContinuousQuery.Lexical
