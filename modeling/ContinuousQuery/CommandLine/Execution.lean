import ContinuousQuery.CommandLine.Arguments
import ContinuousQuery.CommandLine.Directory
import ContinuousQuery.CommandLine.FileName
import ContinuousQuery.CommandLine.Help
import ContinuousQuery.QueryPlan
import ContinuousQuery.Rdf.Format
import ContinuousQuery.Results.Format
import ContinuousQuery.Topology.Driver

/-!
What the commands do. Files are given as a function from paths to their contents or to
the reason why they cannot be read. A failed command prints nothing but its error. The
names of formats are checked first, then the query, and the data comes last.
-/

namespace ContinuousQuery.CommandLine

inductive Failure where
  | noExtension (path : String)
  | unknownExtension (extension : String)
  | dataFormat (name : String) (error : Rdf.NameError)
  | unknownResultsFormat (name : String)
  | unreadableQuery (path : String) (error : ReadError)
  | query (error : QueryError)
  | unopenedData (path : String) (error : ReadError)
  | unreadableData (error : ReadError)
  | malformedData (path : String)
  | evaluation (error : DriverError)
deriving DecidableEq, Repr

namespace Failure

def message : Failure → String
  | .noExtension path => "The path " ++ path ++ " has no extension to guess a file format from"
  | .unknownExtension extension =>
    "Not able to guess the file format from file name extension '" ++ extension ++ "'"
  | .dataFormat name .unknown => "The file format '" ++ name ++ "' is unknown"
  | .dataFormat name .unclosedProfile => "The profile of '" ++ name ++ "' is not closed"
  | .unknownResultsFormat name => "The query results format '" ++ name ++ "' is unknown"
  | .unreadableQuery path _ => "Cannot read the query file " ++ path
  | .query (.build error) => error.message
  | .query _ => "The query cannot be compiled into a topology"
  | .unopenedData path _ => "Cannot open " ++ path
  | .unreadableData error => error.message
  | .malformedData path => "The file " ++ path ++ " is malformed"
  | .evaluation error => error.message

/-- What lies behind a failure, if its message does not tell. -/
def cause? : Failure → Option String
  | .unknownExtension extension => some ("The file extension '" ++ extension ++ "' is unknown")
  | .unreadableQuery _ error | .unopenedData _ error => some error.message
  | .query (.build _) => none
  | .query error => some error.message
  | _ => none

def code : Failure → Nat
  | .dataFormat _ .unclosedProfile => 101
  | _ => 1

def text (failure : Failure) : String :=
  "Error: " ++ failure.message ++ "\n" ++
    (failure.cause?.map (fun cause => "\nCaused by:\n    " ++ cause ++ "\n")).getD ""

end Failure

structure Outcome where
  code : Nat
  output : String
  errors : String
deriving DecidableEq, Repr

abbrev Files := String → Except ReadError String

def QuerySource.read (files : Files) : QuerySource → Except Failure String
  | .text query => .ok query
  | .file path => (files path).mapError (.unreadableQuery path)

def dataFormat (path : String) : Option String → Except Failure Rdf.Format
  | some name => (Rdf.Format.ofName name).mapError (.dataFormat name)
  | none =>
    match extension? path with
    | none => .error (.noExtension path)
    | some extension =>
      match Rdf.Format.ofExtension? extension with
      | some format => .ok format
      | none => .error (.unknownExtension extension)

def resultsFormat (name : String) : Except Failure Results.Format :=
  match Results.Format.ofName? name with
  | some format => .ok format
  | none => .error (.unknownResultsFormat name)

/-- The triples of a file. A directory fails only when it is read. -/
def readData (files : Files) (format : Rdf.Format) (path : String) :
    Except Failure (List Triple) := do
  let text ← (files path).mapError (fun error =>
    if error = .directory then .unreadableData error else .unopenedData path error)
  match format.read? text with
  | some triples => return triples
  | none => .error (.malformedData path)

def showPlan (files : Files) (seed : Seed) (options : PlanOptions) : Except Failure String := do
  let query ← options.query.read files
  let plan ← (if options.sequentialIds then QueryPlan.ofText IdSource.sequential 0 query
    else QueryPlan.ofText IdSource.random seed query).mapError .query
  let topology ← (plan.assemble options.statementTopic options.resultTopic).mapError .query
  let operators := match options.showsAlgebra, plan.tree.algebra? with
    | true, some algebra => "Algebra:" :: algebra.lines 1
    | _, _ => []
  return String.join (operators.map (· ++ "\n")) ++ topology.text

def evaluateQuery (files : Files) (seed : Seed) (options : RunOptions) :
    Except Failure String := do
  let dataFormat ← dataFormat options.dataFile options.dataFormat
  let resultsFormat ← resultsFormat options.resultsFormat
  let query ← options.query.read files
  let plan ← (QueryPlan.ofText IdSource.random seed query).mapError .query
  let topology ← (plan.assemble "statements" "results").mapError .query
  let triples ← readData files dataFormat options.dataFile
  let solutions ← (topology.evaluate (triples.map (⟨·, options.visibility⟩))).mapError .evaluation
  return resultsFormat.write plan.columns (solutions.map (·.content))

namespace Command

def files : Command → List String
  | .plan options => options.query.path?.toList
  | .run options => options.query.path?.toList ++ [options.dataFile]
  | .help _ _ | .version => []

def perform (files : Files) (seed : Seed) : Command → Except Failure String
  | .plan options => showPlan files seed options
  | .run options => evaluateQuery files seed options
  | .help topic level => .ok (topic.text level)
  | .version => .ok "rdf-streams 0.1.0\n"

end Command

def execute (files : Files) (seed : Seed) (arguments : List String) : Outcome :=
  match Command.ofArguments arguments with
  | .error error => ⟨2, "", "error: " ++ error.message ++ "\n"⟩
  | .ok command =>
    match command.perform files seed with
    | .ok output => ⟨0, output, ""⟩
    | .error failure => ⟨failure.code, "", failure.text⟩

end ContinuousQuery.CommandLine
