/-!
Files by their paths, as seen from a working directory. A path is walked part by part:
each part is looked up in the directory that the parts before it lead to. Paths and
their parts must not be too long. Outside of the working directory, only the way from
the root to the null device is known.
-/

namespace ContinuousQuery.CommandLine

inductive ReadError where
  | missing
  | denied
  /-- A part of the path leads on from a file. -/
  | notDirectory
  /-- The path leads to a directory, which can be opened, but not read. -/
  | directory
  | nameTooLong
  | other (reason : String)
deriving DecidableEq, Repr

def ReadError.message : ReadError → String
  | .missing => "No such file or directory (os error 2)"
  | .denied => "Permission denied (os error 13)"
  | .notDirectory => "Not a directory (os error 20)"
  | .directory => "Is a directory (os error 21)"
  | .nameTooLong => "File name too long (os error 36)"
  | .other reason => reason

structure Directory where
  files : List (List String × String)

namespace Directory

inductive Entry where
  | file (content : String)
  | directory
deriving DecidableEq, Repr

def ofFiles (files : List (String × String)) : Directory :=
  ⟨files.map (fun (path, content) => (path.splitOn "/", content))⟩

/-- What is known of the root: that reading the null device yields nothing. -/
def root : Directory := ofFiles [("dev/null", "")]

/-- What is found under some parts. Directories are there for the files in them. -/
def entry? (directory : Directory) (parts : List String) : Option Entry :=
  match directory.files.lookup parts with
  | some content => some (.file content)
  | none =>
    if parts = [] ∨ directory.files.any (fun (path, _) => parts.isPrefixOf path) then
      some .directory
    else none

inductive Place where
  | working (parts : List String)
  | fromRoot (parts : List String)
  /-- A directory above the working directory, where no names are known. -/
  | above

def at? (directory : Directory) : Place → Option Entry
  | .working parts => directory.entry? parts
  | .fromRoot parts => root.entry? parts
  | .above => some .directory

def Place.parent : Place → Place
  | .working [] | .above => .above
  | .working parts => .working parts.dropLast
  | .fromRoot parts => .fromRoot parts.dropLast

def Place.child? (name : String) : Place → Option Place
  | .working parts => some (.working (parts ++ [name]))
  | .fromRoot parts => some (.fromRoot (parts ++ [name]))
  | .above => none

def follow (directory : Directory) (place : Place) (part : String) : Except ReadError Place :=
  match directory.at? place with
  | none => .error .missing
  | some (.file _) => .error .notDirectory
  | some .directory =>
    if part = "" ∨ part = "." then .ok place
    else if part = ".." then .ok place.parent
    else if 256 ≤ part.utf8ByteSize then .error .nameTooLong
    else match place.child? part with
      | some next => if (directory.at? next).isSome then .ok next else .error .missing
      | none => .error .missing

def read (directory : Directory) (path : String) : Except ReadError String :=
  if path = "" then .error .missing
  else if 4096 ≤ path.utf8ByteSize then .error .nameTooLong
  else do
    let start : Place := if path.startsWith "/" then .fromRoot [] else .working []
    match directory.at? (← (path.splitOn "/").foldlM directory.follow start) with
    | some (.file content) => .ok content
    | _ => .error .directory

end Directory

end ContinuousQuery.CommandLine
