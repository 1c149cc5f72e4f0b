import ContinuousQuery.Lexical.LanguageTag
import ContinuousQuery.Lexical.Name
import ContinuousQuery.Lexical.Number
import ContinuousQuery.Lexical.Quoted

/-!
The tokens of RDF documents. Blanks and comments stand between tokens; the end of a line
is a token, as it matters to some formats. Names have more letters here than in queries.
Dots at the end of a label, a name or a word do not belong to it.
-/

namespace ContinuousQuery.Rdf

open Lexical

inductive Token where
  | reference (text : List Char)
  /-- A name with a prefix. What its local part consists of may be doubtful in an IRI. -/
  | name (space localPart : String) (doubtful : Bool)
  | blank (label : String)
  | quoted (value : String)
  | number (spelling datatype : String)
  | tag (name : String)
  | word (name : String)
  | mark (text : String)
  | lineEnd
deriving DecidableEq, Repr

namespace Token

/-! Characters -/

def isRareLetter : Char → Bool := inRanges [(0x10000, 0xeffff)]

def isBase (char : Char) : Bool := isNameBase char || isRareLetter char

def isStart (char : Char) : Bool := isNameStart char || isRareLetter char

def isInner (char : Char) : Bool := isNameChar char || isRareLetter char

/-! Readers of tokens -/

def labelRun : List Char → List Char × List Char
  | '.' :: char :: rest =>
    if isInner char then
      let (run, left) := labelRun (char :: rest)
      ('.' :: run, left)
    else ([], '.' :: char :: rest)
  | char :: rest =>
    if isInner char then
      let (run, left) := labelRun rest
      (char :: run, left)
    else ([], char :: rest)
  | [] => ([], [])

/-- A label. The dot behind it must not be the end of the text. -/
def readBlank : Scanner Token := do
  Scanner.exact "_:"
  let first ← Scanner.satisfy isStart
  let rest ← fun input => some (labelRun input)
  if (← get) = ['.'] then failure else return .blank (String.ofList (first :: rest))

def readQuoted (long : Bool) (quote : Char) : Scanner Token := fun input =>
  if long && (dropExact [quote, quote, quote] input).isSome then
    (.quoted <$> Scanner.longString quote) input
  else (.quoted <$> Scanner.shortString quote) input

def tagRun : List Char → List Char × List Char
  | '-' :: char :: rest =>
    if char.isAlpha then
      let (run, left) := tagRun (char :: rest)
      ('-' :: run, left)
    else ([], '-' :: char :: rest)
  | char :: rest =>
    if char.isAlpha then
      let (run, left) := tagRun rest
      (char :: run, left)
    else ([], char :: rest)
  | [] => ([], [])

def readTag : Scanner Token := do
  Scanner.exact "@"
  let first ← Scanner.satisfy Char.isAlpha
  let rest ← fun input => some (tagRun input)
  let tag := String.ofList (first :: rest)
  if LanguageTag.isValid (lowerCase tag) then return .tag tag else failure

def readExponent : Scanner (List Char) := fun input =>
  match input with
  | char :: _ => if char == 'e' || char == 'E' then Scanner.exponent input else some ([], input)
  | [] => some ([], [])

/-- A number. A point without digits behind it belongs to doubles only. -/
def readNumber : Scanner Token := do
  let sign ← Scanner.sign
  let whole ← Scanner.digits
  let afterWhole ← get
  let point ← (do Scanner.exact "."; return ['.']) <|> return []
  let fraction ← if point.isEmpty then pure [] else Scanner.digits
  let exponent ← readExponent
  let spelling (parts : List Char) : String := String.ofList (sign ++ whole ++ parts)
  if whole.isEmpty && fraction.isEmpty then failure
  else if !exponent.isEmpty then
    return .number (spelling (point ++ fraction ++ exponent)) "double"
  else if !fraction.isEmpty then return .number (spelling (point ++ fraction)) "decimal"
  else
    set afterWhole
    return .number (spelling []) "integer"

def readMark : Scanner Token :=
  [".", ",", ";", "[", "]", "(", ")", "^^"].foldr (fun text others =>
    (do Scanner.exact text; return .mark text) <|> others) failure

/-- Letters for the sake of which an IRI is looked at more closely: the last ones of the first
plane, and behind it the multiples of the two code points that end it. -/
def isDoubtfulLetter (char : Char) : Bool :=
  inRanges [(0xfff0, 0xfffd)] char || char.toNat % 0xfffe == 0 || char.toNat % 0xffff == 0

def isDoubtful : LocalPiece → Bool
  | .plain char => char == ':' || isDoubtfulLetter char
  | .byte _ _ => false
  | .escaped char => "/?#@%".toList.contains char

def lengthBefore {α : Type} [BEq α] (last : α) (list : List α) : Nat :=
  (list.reverse.dropWhile (· == last)).length

def localPart (pieces : List LocalPiece) (left : List Char) : List Char × List Char :=
  let length := lengthBefore (.plain '.') pieces
  ((pieces.take length).flatMap LocalPiece.text,
    (pieces.drop length).flatMap LocalPiece.text ++ left)

/-- A local part with escapes that reaches the end of a document, and what is left of the document.
It ends with its last escape. Dots at that end do not belong to it; in their place, as many
characters are left at the end of the document. -/
def localPartAtEnd (pieces : List LocalPiece) (input : List Char) : List Char × List Char :=
  let text := (pieces.reverse.dropWhile (!·.isEscaped)).reverse.flatMap LocalPiece.text
  let length := lengthBefore '.' text
  (text.take length, input.drop (input.length - (text.length - length)))

def readLocal : Scanner (String × Bool) := fun input =>
  if beginsLocal isStart input then
    let (pieces, left) :=
      localPieces (fun char => isInner char || char == ':' || char == '.') input
    let (text, left) :=
      if left.isEmpty && pieces.any LocalPiece.isEscaped then localPartAtEnd pieces input
      else localPart pieces left
    some ((String.ofList text, pieces.any isDoubtful), left)
  else some (("", false), input)

/-- A name, or a word if there is no colon. Dots at the end of a word do not belong to it, and a
prefix must not end with one. -/
def readName : Scanner Token := do
  let start ← (do
    let first ← Scanner.satisfy isBase
    let rest ← Scanner.run (fun char => isInner char || char == '.')
    return first :: rest) <|> return []
  match ← get with
  | ':' :: rest =>
    if start.getLast? = some '.' then failure
    else
      set rest
      let (localPart, doubtful) ← readLocal
      return .name (String.ofList start) localPart doubtful
  | rest =>
    let length := lengthBefore '.' start
    if length = 0 then failure
    else
      set (start.drop length ++ rest)
      return .word (String.ofList (start.take length))

def readLineEnd : Scanner Token := do
  let _ ← Scanner.satisfy (fun char => char == '\n' || char == '\r')
  return .lineEnd

def read (abbreviated : Bool) : Scanner Token :=
  let always : Scanner Token :=
    readLineEnd <|> (.reference <$> Scanner.bracketedIri false) <|> readBlank <|>
      readQuoted abbreviated '"' <|> readTag
  let abbreviations : Scanner Token :=
    if abbreviated then readQuoted true '\x27' <|> readNumber else failure
  always <|> abbreviations <|> readMark <|> readName

def skipBlanks : (inComment : Bool) → List Char → List Char
  | _, [] => []
  | true, char :: rest =>
    if char = '\n' ∨ char = '\r' then char :: rest else skipBlanks true rest
  | false, char :: rest =>
    if char = '#' then skipBlanks true rest
    else if char = ' ' ∨ char = '\t' then skipBlanks false rest
    else char :: rest

def readUpTo (abbreviated : Bool) : Nat → List Char → Option (List Token)
  | 0, input => if (skipBlanks false input).isEmpty then some [] else none
  | bound + 1, input =>
    match skipBlanks false input with
    | [] => some []
    | rest => do
      let (token, rest) ← read abbreviated rest
      return token :: (← readUpTo abbreviated bound rest)

def ofChars? (abbreviated : Bool) (input : List Char) : Option (List Token) :=
  readUpTo abbreviated input.length input

end Token

end ContinuousQuery.Rdf
