import ContinuousQuery.Lexical.Name

/-!
IRIs, their well-formedness and the resolution of references against a base. A
reference replaces the components of the base from the first one that it has. A path
that continues the one of the base is freed of its dot segments, which climb and
vanish; every other path is kept as it is, and so is that of the base itself. Without
an authority, no path may come to begin with two slashes.
-/

namespace ContinuousQuery.Lexical

structure Iri where
  scheme : List Char
  authority : Option (List Char)
  path : List Char
  query : Option (List Char)
  fragment : Option (List Char)
deriving DecidableEq, Repr

namespace Iri

def text (iri : Iri) : String :=
  let marked (mark : String) (part : Option (List Char)) : String :=
    (part.map (fun part => mark ++ String.ofList part)).getD ""
  String.ofList iri.scheme ++ ":" ++ marked "//" iri.authority ++ String.ofList iri.path ++
    marked "?" iri.query ++ marked "#" iri.fragment

/-! Characters -/

def isUnreservedAscii (char : Char) : Bool :=
  char.isAlphanum || "!$&'()*+,-.;=_~".toList.contains char

def isOrdinary (char : Char) : Bool :=
  isUnreservedAscii char || inRanges
    [(0xa0, 0xd7ff), (0xf900, 0xfdcf), (0xfdf0, 0xffef), (0x10000, 0x1fffd), (0x20000, 0x2fffd),
      (0x30000, 0x3fffd), (0x40000, 0x4fffd), (0x50000, 0x5fffd), (0x60000, 0x6fffd),
      (0x70000, 0x7fffd), (0x80000, 0x8fffd), (0x90000, 0x9fffd), (0xa0000, 0xafffd),
      (0xb0000, 0xbfffd), (0xc0000, 0xcfffd), (0xd0000, 0xdfffd), (0xe1000, 0xefffd)] char

def isPathChar (char : Char) : Bool := isOrdinary char || ":@/".toList.contains char

def isFragmentChar (char : Char) : Bool := isPathChar char || char == '?'

def isQueryChar (char : Char) : Bool :=
  isFragmentChar char || inRanges [(0xe000, 0xf8ff), (0xf0000, 0xffffd), (0x100000, 0x10fffd)] char

def allAccepted (accepts : Char → Bool) : List Char → Bool
  | '%' :: high :: low :: rest => isHexDigit high && isHexDigit low && allAccepted accepts rest
  | char :: rest => accepts char && allAccepted accepts rest
  | [] => true

/-! Authorities -/

def isIpV4 (address : List Char) : Bool :=
  let parts := splitAt '.' address
  parts.length == 4 && parts.all (fun part =>
    1 ≤ part.length && part.length ≤ 3 && part.all Char.isDigit &&
      (part.length == 1 || part.head? != some '0') &&
      part.foldl (fun value digit => 10 * value + (digit.toNat - 48)) 0 < 256)

def groupCount? (lastMayBeV4 : Bool) : List (List Char) → Option Nat
  | [] => some 0
  | [last] =>
    if 1 ≤ last.length ∧ last.length ≤ 4 ∧ last.all isHexDigit then some 1
    else if lastMayBeV4 && isIpV4 last then some 2
    else none
  | group :: rest =>
    if 1 ≤ group.length ∧ group.length ≤ 4 ∧ group.all isHexDigit then
      (groupCount? lastMayBeV4 rest).map (· + 1)
    else none

def splitAtDoubleColon : List Char → Option (List Char × List Char)
  | ':' :: ':' :: rest => some ([], rest)
  | char :: rest => (splitAtDoubleColon rest).map (fun (before, after) => (char :: before, after))
  | [] => none

def groups (part : List Char) : List (List Char) :=
  if part.isEmpty then [] else splitAt ':' part

def isIpV6 (address : List Char) : Bool :=
  match splitAtDoubleColon address with
  | some (before, after) =>
    match groupCount? false (groups before), groupCount? true (groups after) with
    | some first, some second => first + second ≤ 7
    | _, _ => false
  | none => groupCount? true (groups address) == some 8

def isFutureIp : List Char → Bool
  | mark :: rest =>
    let (version, address) := rest.span (· != '.')
    mark.toLower == 'v' && !version.isEmpty && version.all isHexDigit && 2 ≤ address.length &&
      (address.drop 1).all (fun char => isUnreservedAscii char || char == ':')
  | [] => false

def isNumberPart : List Char → Bool
  | [] => true
  | mark :: number => mark == ':' && number.all Char.isDigit

def isHostPart : List Char → Bool
  | '[' :: rest =>
    let (address, after) := rest.span (· != ']')
    (if (address.head?.map Char.toLower) == some 'v' then isFutureIp address else isIpV6 address) &&
      match after with
      | _ :: number => isNumberPart number
      | [] => false
  | host =>
    let (name, number) := host.span (· != ':')
    allAccepted isOrdinary name && isNumberPart number

def isAuthority (authority : List Char) : Bool :=
  let (user, rest) := authority.span (fun char => char != '@' && char != '[')
  match rest with
  | '@' :: host => allAccepted (fun char => isOrdinary char || char == ':') user && isHostPart host
  | _ => isHostPart authority

/-! References -/

/-- A reference: an IRI that may lack its scheme. -/
structure Reference where
  scheme : Option (List Char)
  authority : Option (List Char)
  path : List Char
  query : Option (List Char)
  fragment : Option (List Char)
deriving DecidableEq, Repr

def splitScheme (input : List Char) : Option (List Char) × List Char :=
  let (scheme, rest) := input.span
    (fun char => char.isAlphanum || char == '+' || char == '-' || char == '.')
  match scheme, rest with
  | first :: _, ':' :: rest => if first.isAlpha then (some scheme, rest) else (none, input)
  | _, _ => (none, input)

def splitAuthority : List Char → Option (List Char) × List Char
  | '/' :: '/' :: rest =>
    let (authority, rest) := rest.span (fun char => !("/?#".toList.contains char))
    (some authority, rest)
  | input => (none, input)

def Reference.ofChars (input : List Char) : Reference :=
  let (scheme, rest) := splitScheme input
  let (authority, rest) := splitAuthority rest
  let (path, rest) := rest.span (fun char => char != '?' && char != '#')
  let (query, rest) := match rest with
    | '?' :: rest =>
      let (query, rest) := rest.span (· != '#')
      (some query, rest)
    | rest => (none, rest)
  ⟨scheme, authority, path, query, (match rest with
    | '#' :: fragment => some fragment
    | _ => none)⟩

/-- Whether the first part of a path without a slash before it has a colon. It would pass for a
scheme, so no reference may begin with it. -/
def startsWithColonPart (path : List Char) : Bool :=
  (path.takeWhile (· != '/')).contains ':'

def Reference.isValid (reference : Reference) : Bool :=
  (reference.scheme.isSome || reference.authority.isSome ||
      !startsWithColonPart reference.path) &&
    reference.authority.all isAuthority && allAccepted isPathChar reference.path &&
    reference.query.all (allAccepted isQueryChar) &&
    reference.fragment.all (allAccepted isFragmentChar)

/-- The segments without the last one. The path after an authority never loses its first slash. -/
def above (rooted : Bool) (segments : List (List Char)) : List (List Char) :=
  let rest := segments.dropLast
  if rooted && rest.isEmpty then [[]] else rest

/-- Some segments, each with a slash behind it, unless they would pass for an authority. -/
def settled? (rooted : Bool) : List (List Char) → Option (List (List Char))
  | [] :: [] :: rest => if rooted then some ([] :: [] :: rest) else none
  | segments => some segments

/-- Appends segments to those of a path. Two dots climb and a single dot vanishes; at the end they
leave the slash before them. The path so far is looked at behind each dot segment and at the end. -/
def climb? (rooted : Bool) (done : List (List Char)) :
    List (List Char) → Option (List (List Char))
  | [] => some done
  | segment :: rest =>
    if segment = ['.'] ∨ segment = ['.', '.'] then do
      let done ← settled? rooted (if segment = ['.'] then done else above rooted done)
      if rest.isEmpty then some (done ++ [[]]) else climb? rooted done rest
    else if rest.isEmpty then (settled? rooted done).map (· ++ [segment])
    else climb? rooted (done ++ [segment]) rest

def joinSegments (segments : List (List Char)) : List Char := ['/'].intercalate segments

def baseSegments (base : Iri) : List (List Char) :=
  if base.path.isEmpty then (if base.authority.isSome then [[]] else [])
  else (splitAt '/' base.path).dropLast

def resolvePath? (base : Iri) (path : List Char) : Option (List Char) :=
  if path.isEmpty then some base.path
  else
    let done := if path.head? = some '/' then [] else baseSegments base
    (climb? base.authority.isSome done (splitAt '/' path)).map joinSegments

def resolveAgainst? (base : Iri) (reference : Reference) : Option Iri :=
  match reference.scheme, reference.authority with
  | some scheme, authority =>
    some ⟨scheme, authority, reference.path, reference.query, reference.fragment⟩
  | none, some authority =>
    some ⟨base.scheme, some authority, reference.path, reference.query, reference.fragment⟩
  | none, none =>
    let query := if reference.path.isEmpty then reference.query <|> base.query else reference.query
    (resolvePath? base reference.path).map (fun path =>
      ⟨base.scheme, base.authority, path, query, reference.fragment⟩)

def ofChars? (base : Option Iri) (input : List Char) : Option Iri :=
  let reference := Reference.ofChars input
  if reference.isValid then
    match base, reference.scheme with
    | some base, _ => resolveAgainst? base reference
    | none, some scheme =>
      some ⟨scheme, reference.authority, reference.path, reference.query, reference.fragment⟩
    | none, none => none
  else none

end Iri

end ContinuousQuery.Lexical
