/-!
Extensions of the names of files. They follow the last dot of the last part of a path;
a dot at the start of a name begins no extension.
-/

namespace ContinuousQuery.CommandLine

/-- The name of the file that a path leads to, unless it leads to a relative directory. -/
def fileName? (path : String) : Option String :=
  let parts := ((path.splitOn "/").zipIdx.filter (fun (part, index) =>
    part != "" && (part != "." || index == 0))).map (·.1)
  match parts.getLast? with
  | none | some "." | some ".." => none
  | some name => some name

def extension? (path : String) : Option String := do
  let name ← fileName? path
  let (reversed, rest) := name.toList.reverse.span (· != '.')
  match rest with
  | _ :: _ :: _ => return String.ofList reversed.reverse
  | _ => none

end ContinuousQuery.CommandLine
