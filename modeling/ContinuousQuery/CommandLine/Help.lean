import ContinuousQuery.CommandLine.Arguments

/-!
The texts of the help: what a command is for, how it is used and, below each of its
options, what that is for. Only commands with details about their options have help in
detail, which sets the paragraphs apart from each other.
-/

namespace ContinuousQuery.CommandLine

namespace OptionForm

def placeholder (form : OptionForm) : String :=
  "<" ++ form.name.map (fun char => if char = '-' then '_' else char.toUpper) ++ ">"

def spelling (form : OptionForm) : String :=
  let letter := match form.letter with
    | some letter => "-" ++ String.singleton letter ++ ", "
    | none => "    "
  letter ++ "--" ++ form.name ++ if form.expected = .nothing then "" else " " ++ form.placeholder

def fallbackText (value : String) : String :=
  "[default: " ++ (if value = "" then "\"\"" else value) ++ "]"

def paragraphs (form : OptionForm) (level : HelpLevel) : List String :=
  let fallback := (form.fallback.map fallbackText).toList
  match level with
  | .summary => [" ".intercalate (form.purpose :: fallback)]
  | .detailed => form.purpose :: form.details ++ fallback

def help (form : OptionForm) (level : HelpLevel) : String :=
  let margin := "\n          "
  "  " ++ form.spelling ++ margin ++ (margin ++ margin).intercalate (form.paragraphs level)

end OptionForm

/-- The option that asks for help. It tells of the other level if that says something else. -/
def helpForm (level : HelpLevel) (hasDetails : Bool) : OptionForm :=
  let hint := match level, hasDetails with
    | _, false => ""
    | .summary, true => " (see more with '--help')"
    | .detailed, true => " (see a summary with '-h')"
  ⟨"help", some 'h', .nothing, none, "Print help" ++ hint, []⟩

def optionsHelp (forms : List OptionForm) (level : HelpLevel) : String :=
  let hasDetails := forms.any (fun form => !form.details.isEmpty)
  let level := if hasDetails then level else .summary
  (if level = .detailed then "\n\n" else "\n").intercalate
    ((forms ++ [helpForm level hasDetails]).map (OptionForm.help · level))

namespace HelpTopic

def text (topic : HelpTopic) (level : HelpLevel) : String :=
  match topic with
  | .program =>
    "RDF Streams command line tool to inspect and run streaming SPARQL topologies\n\n" ++
      "Usage: rdf-streams <COMMAND>\n\n" ++
      "Commands:\n" ++
      "  plan  Print the topology that evaluates a query\n" ++
      "  run   Evaluate a query over the triples of a file\n" ++
      "  help  Print this message or the help of the given subcommand(s)\n\n" ++
      "Options:\n" ++
      "  -h, --help     Print help\n" ++
      "  -V, --version  Print version\n"
  | .plan =>
    "Print the topology that evaluates a query\n\n" ++
      "Usage: rdf-streams plan [OPTIONS]\n\n" ++
      "Options:\n" ++ optionsHelp planForms level ++ "\n"
  | .run =>
    "Evaluate a query over the triples of a file\n\n" ++
      "Usage: rdf-streams run [OPTIONS] --data-file <DATA_FILE>\n\n" ++
      "Options:\n" ++ optionsHelp runForms level ++ "\n"
  | .help =>
    "Print this message or the help of the given subcommand(s)\n\n" ++
      "Usage: rdf-streams help [COMMAND]...\n\n" ++
      "Arguments:\n" ++
      "  [COMMAND]...  Print help for the subcommand(s)\n"

end HelpTopic

end ContinuousQuery.CommandLine
