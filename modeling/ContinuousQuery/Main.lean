import ContinuousQuery.CommandLine.Execution

/-!
The program: reads the files that its arguments name, performs the command and prints
what it leaves behind.
-/

namespace ContinuousQuery.CommandLine

def readFile (path : String) : IO (String × Except ReadError String) := do
  try
    return (path, .ok (← IO.FS.readFile path))
  catch
    | .noFileOrDirectory .. => return (path, .error .missing)
    | .permissionDenied .. => return (path, .error .denied)
    | .inappropriateType _ 21 _ => return (path, .error .directory)
    | .inappropriateType .. => return (path, .error .notDirectory)
    | .invalidArgument .. => return (path, .error .nameTooLong)
    | error => return (path, .error (.other (toString error)))

def randomSeed : IO Seed := do
  let bytes ← IO.getRandomBytes 8
  return ⟨bytes.foldl (fun word byte => 256 * word + byte.toUInt64) 0⟩

end ContinuousQuery.CommandLine

open ContinuousQuery.CommandLine

def main (arguments : List String) : IO UInt32 := do
  let paths := match Command.ofArguments arguments with
    | .ok command => command.files
    | .error _ => []
  let contents ← paths.mapM readFile
  let files : Files := fun path => (contents.lookup path).getD (.error .missing)
  let outcome := execute files (← randomSeed) arguments
  IO.print outcome.output
  IO.eprint outcome.errors
  return outcome.code.toUInt32
