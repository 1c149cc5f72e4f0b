import ContinuousQuery.Lexical.Scanner

/-!
Names of formats: extensions of file names and media types. Both are compared without
regard to the case of ASCII letters.
-/

namespace ContinuousQuery.Lexical

def isWhiteSpace : Char → Bool := inRanges
  [(0x9, 0xd), (0x20, 0x20), (0x85, 0x85), (0xa0, 0xa0), (0x1680, 0x1680), (0x2000, 0x200a),
    (0x2028, 0x2029), (0x202f, 0x202f), (0x205f, 0x205f), (0x3000, 0x3000)]

def trim (text : List Char) : List Char :=
  ((text.dropWhile isWhiteSpace).reverse.dropWhile isWhiteSpace).reverse

def splitAtFirst? (mark : Char) (text : List Char) : Option (List Char × List Char) :=
  match text.span (· != mark) with
  | (before, _ :: after) => some (before, after)
  | (_, []) => none

structure MediaType where
  /-- The subtype, without the mark of an experiment. -/
  subtype : String
  /-- What follows the first semicolon. -/
  parameterText : List Char
deriving DecidableEq, Repr

namespace MediaType

/-- Reads a media type, unless it is for something else than applications and texts. -/
def ofName? (name : String) : Option MediaType := do
  let (type, parameters) := (splitAtFirst? ';' name.toList).getD (name.toList, [])
  let (kind, subtype) ← splitAtFirst? '/' type
  let kind := String.ofList (trim kind)
  if sameIgnoringCase kind "application" || sameIgnoringCase kind "text" then
    let subtype := trim subtype
    return ⟨String.ofList ((dropExact ['x', '-'] subtype).getD subtype), parameters⟩
  else none

def parameters? (mediaType : MediaType) : Option (List (String × String)) :=
  let text := trim mediaType.parameterText
  if text.isEmpty then some []
  else (splitAt ';' text).mapM (fun part =>
    (splitAtFirst? '=' part).map (fun (name, value) =>
      (String.ofList (trim name), String.ofList (trim value))))

end MediaType

def lookupIgnoringCase {α : Type} (table : List (String × α)) (name : String) : Option α :=
  (table.find? (fun entry => sameIgnoringCase entry.1 name)).map (·.2)

end ContinuousQuery.Lexical
