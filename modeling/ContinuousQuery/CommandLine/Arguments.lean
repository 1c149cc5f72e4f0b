/-!
The arguments of the command line. A command is followed by options, which may come in
any order and each at most once. The value of an option is the next argument or a part
of the same one; an argument that begins with a dash is no value, unless it is a dash.
-/

namespace ContinuousQuery.CommandLine

inductive QuerySource where
  | text (query : String)
  | file (path : String)
deriving DecidableEq, Repr

def QuerySource.path? : QuerySource → Option String
  | .text _ => none
  | .file path => some path

structure PlanOptions where
  query : QuerySource
  statementTopic : String
  resultTopic : String
  sequentialIds : Bool
  showsAlgebra : Bool
deriving DecidableEq, Repr

structure RunOptions where
  query : QuerySource
  dataFile : String
  dataFormat : Option String
  visibility : String
  resultsFormat : String
deriving DecidableEq, Repr

inductive HelpTopic where
  | program
  | plan
  | run
  | help
deriving DecidableEq, Repr

inductive HelpLevel where
  | summary
  | detailed
deriving DecidableEq, Repr

inductive Command where
  /-- Prints the topology of a query. -/
  | plan (options : PlanOptions)
  /-- Evaluates a query over the triples of a file. -/
  | run (options : RunOptions)
  | help (topic : HelpTopic) (level : HelpLevel)
  | version
deriving DecidableEq, Repr

inductive UsageError where
  | missingCommand
  | unknownCommand (name : String)
  | unknownArgument (argument : String)
  | repeatedOption (name : String)
  | missingValue (name : String)
  | unexpectedValue (name : String)
  | missingOption (name : String)
  | conflictingOptions (first second : String)
deriving DecidableEq, Repr

def UsageError.message : UsageError → String
  | .missingCommand => "a command is required"
  | .unknownCommand name => "unrecognized command '" ++ name ++ "'"
  | .unknownArgument argument => "unexpected argument '" ++ argument ++ "' found"
  | .repeatedOption name => "the option '--" ++ name ++ "' cannot be used multiple times"
  | .missingValue name => "a value is required for '--" ++ name ++ "'"
  | .unexpectedValue name => "the option '--" ++ name ++ "' takes no value"
  | .missingOption name => "the option '--" ++ name ++ "' is required"
  | .conflictingOptions first second =>
    "the option '--" ++ first ++ "' cannot be used with '--" ++ second ++ "'"

/-! Options -/

inductive Expected where
  | nothing
  | text
  /-- A path is not empty. -/
  | path
deriving DecidableEq, Repr

structure OptionForm where
  name : String
  letter : Option Char
  expected : Expected
  fallback : Option String
  purpose : String
  /-- Further paragraphs on the purpose. -/
  details : List String
deriving DecidableEq, Repr

/-- The options so far, and what stands behind the last argument. -/
structure Reading where
  settings : List (String × String)
  /-- The option that the next argument is a value of. -/
  pending : Option OptionForm
  /-- Whether no more options may follow. -/
  closed : Bool
  /-- The help that is asked for, which makes the rest irrelevant. -/
  help : Option HelpLevel
deriving Repr

namespace Reading

def start : Reading := ⟨[], none, false, none⟩

def assign (reading : Reading) (form : OptionForm) (value : String) : Except UsageError Reading :=
  if (reading.settings.lookup form.name).isSome then .error (.repeatedOption form.name)
  else if form.expected = .path ∧ value = "" then .error (.missingValue form.name)
  else .ok { reading with settings := (form.name, value) :: reading.settings, pending := none }

def option (reading : Reading) (form : OptionForm) (attached : Option String) :
    Except UsageError Reading :=
  match form.expected, attached with
  | .nothing, none => reading.assign form ""
  | .nothing, some _ => .error (.unexpectedValue form.name)
  | _, some value => reading.assign form value
  | _, none => .ok { reading with pending := some form }

def long (reading : Reading) (forms : List OptionForm) (argument : List Char) :
    Except UsageError Reading :=
  let (name, rest) := argument.span (· != '=')
  let attached := match rest with
    | [] => none
    | _ :: value => some (String.ofList value)
  if String.ofList name = "help" ∧ attached = none then
    .ok { reading with help := some .detailed }
  else match forms.find? (fun form => form.name.toList == name) with
    | some form => reading.option form attached
    | none => .error (.unknownArgument (String.ofList ('-' :: '-' :: argument)))

def short (reading : Reading) (forms : List OptionForm) (letter : Char) (rest : List Char) :
    Except UsageError Reading :=
  let attached := match rest with
    | [] => none
    | '=' :: value => some (String.ofList value)
    | value => some (String.ofList value)
  if letter = 'h' then .ok { reading with help := some .summary }
  else match forms.find? (fun form => form.letter == some letter) with
    | some form => reading.option form attached
    | none => .error (.unknownArgument (String.ofList ('-' :: letter :: rest)))

def next (forms : List OptionForm) (reading : Reading) (argument : String) :
    Except UsageError Reading :=
  if reading.help.isSome then .ok reading
  else if reading.closed then .error (.unknownArgument argument)
  else match reading.pending, argument.toList with
    | some form, '-' :: _ :: _ => .error (.missingValue form.name)
    | some form, _ => reading.assign form argument
    | none, ['-', '-'] => .ok { reading with closed := true }
    | none, '-' :: '-' :: rest => reading.long forms rest
    | none, '-' :: letter :: rest => reading.short forms letter rest
    | none, _ => .error (.unknownArgument argument)

end Reading

/-- Reads all arguments. If no help is asked for, no value may be missing. -/
def readOptions (forms : List OptionForm) (arguments : List String) :
    Except UsageError Reading := do
  let reading ← arguments.foldlM (Reading.next forms) .start
  match reading.help, reading.pending with
  | none, some form => .error (.missingValue form.name)
  | _, _ => return reading

/-! Commands -/

def queryForms : List OptionForm :=
  [⟨"query", some 'q', .text, none, "The SPARQL query", []⟩,
    ⟨"query-file", none, .path, none, "File to read the SPARQL query from", []⟩]

def planForms : List OptionForm := queryForms ++
  [⟨"statement-topic", none, .text, some "statements",
      "Name of the topic the statements are read from", []⟩,
    ⟨"result-topic", none, .text, some "results",
      "Name of the topic the results are written to", []⟩,
    ⟨"sequential-ids", none, .nothing, none,
      "Number the stages of the topology instead of using random ids", []⟩,
    ⟨"algebra", none, .nothing, none,
      "Also print the algebra tree the topology has been compiled from", []⟩]

def runForms : List OptionForm := queryForms ++
  [⟨"data-file", some 'd', .path, none, "File to read the statements from", []⟩,
    ⟨"data-format", none, .text, none, "The format of the data file",
      ["It can be an extension like \"nt\" or a MIME type like \"application/n-triples\".",
        "By default the format is guessed from the data file extension."]⟩,
    ⟨"visibility", none, .text, some "",
      "The visibility expression attached to every statement of the data file", []⟩,
    ⟨"results-format", none, .text, some "json", "The format of the results",
      ["It can be an extension like \"json\" or a MIME type like " ++
        "\"application/sparql-results+json\"."]⟩]

def querySource (settings : List (String × String)) : Except UsageError QuerySource :=
  match settings.lookup "query", settings.lookup "query-file" with
  | some _, some _ => .error (.conflictingOptions "query" "query-file")
  | some query, none => .ok (.text query)
  | none, some path => .ok (.file path)
  | none, none => .error (.missingOption "query")

def setting (forms : List OptionForm) (settings : List (String × String)) (name : String) :
    String :=
  let fallback := (forms.find? (·.name == name)).bind (·.fallback)
  (settings.lookup name).getD (fallback.getD "")

def planOptions (settings : List (String × String)) : Except UsageError PlanOptions := do
  let query ← querySource settings
  return {
    query
    statementTopic := setting planForms settings "statement-topic"
    resultTopic := setting planForms settings "result-topic"
    sequentialIds := (settings.lookup "sequential-ids").isSome
    showsAlgebra := (settings.lookup "algebra").isSome }

def runOptions (settings : List (String × String)) : Except UsageError RunOptions := do
  let query ← querySource settings
  match settings.lookup "data-file" with
  | none => .error (.missingOption "data-file")
  | some dataFile => return {
      query, dataFile
      dataFormat := settings.lookup "data-format"
      visibility := setting runForms settings "visibility"
      resultsFormat := setting runForms settings "results-format" }

def helpOn : List String → Except UsageError Command
  | [] => .ok (.help .program .detailed)
  | ["plan"] => .ok (.help .plan .detailed)
  | ["run"] => .ok (.help .run .detailed)
  | ["help"] => .ok (.help .help .detailed)
  | [name] => .error (.unknownCommand name)
  | _ :: argument :: _ => .error (.unknownArgument argument)

def Command.ofArguments : List String → Except UsageError Command
  | [] => .error .missingCommand
  | "plan" :: rest => do
    let reading ← readOptions planForms rest
    match reading.help with
    | some level => return .help .plan level
    | none => return .plan (← planOptions reading.settings)
  | "run" :: rest => do
    let reading ← readOptions runForms rest
    match reading.help with
    | some level => return .help .run level
    | none => return .run (← runOptions reading.settings)
  | "help" :: rest => helpOn rest
  | "--help" :: _ => .ok (.help .program .detailed)
  | "--version" :: _ => .ok .version
  | name :: _ =>
    match name.toList with
    | '-' :: 'h' :: _ => .ok (.help .program .summary)
    | '-' :: 'V' :: _ => .ok .version
    | _ => .error (.unknownCommand name)

end ContinuousQuery.CommandLine
