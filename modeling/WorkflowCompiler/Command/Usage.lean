import WorkflowCompiler.Diff.Resemblance
import WorkflowCompiler.Text.Quoted
import WorkflowCompiler.Disk

/-! The command line: its commands, their switches, and how arguments are read. A switch starts
with two hyphens; its text follows after an equals sign or as the next argument. After an argument
`--` there are no more switches. -/

namespace WorkflowCompiler.Command

/-- What a switch is about. -/
inductive Topic
  | debug
  | config
  | root
  | clean
  | help
deriving DecidableEq, Repr

/-- A switch with the setting that it stands for; one without a setting takes a text. -/
structure Switch where
  name : String
  topic : Topic
  setting : Option Bool
deriving Repr

inductive Given
  | flag (value : Bool)
  | text (value : String)
deriving DecidableEq, Repr

inductive Scope
  | program
  | generate
  | check
deriving DecidableEq, Repr

namespace Scope

def path : Scope → String
  | program => "wfcompose"
  | generate => "wfcompose generate"
  | check => "wfcompose check"

def ofName? : String → Option Scope
  | "generate" => some generate
  | "check" => some check
  | _ => none

def helpSwitch : Switch := ⟨"--help", .help, some true⟩

def fileSwitches : List Switch := [⟨"--config", .config, none⟩, ⟨"--root", .root, none⟩]

def switches : Scope → List Switch
  | program => [⟨"--debug", .debug, some true⟩, ⟨"--no-debug", .debug, some false⟩, helpSwitch]
  | generate =>
    fileSwitches ++ [⟨"--clean", .clean, some true⟩, ⟨"--no-clean", .clean, some false⟩, helpSwitch]
  | check => fileSwitches ++ [helpSwitch]

def usage : Scope → String
  | program => "Usage: wfcompose [OPTIONS] COMMAND [ARGS]..."
  | scope => s!"Usage: {scope.path} [OPTIONS]"

def purpose : Scope → List String
  | program =>
    ["Compose workflow files from Python definitions.", "", "Options:",
      "  --debug / --no-debug  Enable debug output",
      "  --help                Show this message and exit.", "", "Commands:",
      "  check     Check the workflow files are up to date.",
      "  generate  Write every workflow file."]
  | generate =>
    ["Write every workflow file.", "", "Options:",
      "  --config FILE         Config module path",
      "  --root DIRECTORY      Output directory",
      "  --clean / --no-clean  Empty the output directory first",
      "  --help                Show this message and exit."]
  | check =>
    ["Check the workflow files are up to date.", "", "Options:",
      "  --config FILE     Config module path",
      "  --root DIRECTORY  Output directory",
      "  --help            Show this message and exit."]

def help (scope : Scope) : String :=
  match scope.purpose with
  | [] => scope.usage
  | purpose :: rest => "\n".intercalate (scope.usage :: "" :: ("  " ++ purpose) :: rest)

end Scope

/-- Why arguments cannot be understood. -/
inductive UsageFault
  | unknownSwitch (name : String) (similar : List String)
  | missingText (name : String)
  | unwantedText (name : String)
  | unwantedArguments (arguments : List String)
  | isFile (name path : String)
  | isDirectory (name path : String)
  | unknownCommand (name : String)
  | missingCommand
deriving DecidableEq, Repr

namespace UsageFault

def message : UsageFault → String
  | unknownSwitch name [] => s!"No such option: {name}"
  | unknownSwitch name [similar] => s!"No such option: {name} Did you mean {similar}?"
  | unknownSwitch name similar =>
    let similar := ", ".intercalate similar
    s!"No such option: {name} (Possible options: {similar})"
  | missingText name => s!"Option {Text.quote name} requires an argument."
  | unwantedText name => s!"Option {Text.quote name} does not take a value."
  | unwantedArguments [argument] => s!"Got unexpected extra argument ({argument})"
  | unwantedArguments arguments =>
    let arguments := " ".intercalate arguments
    s!"Got unexpected extra arguments ({arguments})"
  | isFile name path => s!"Invalid value for '{name}': Directory {Text.quote path} is a file."
  | isDirectory name path => s!"Invalid value for '{name}': File {Text.quote path} is a directory."
  | unknownCommand name => s!"No such command {Text.quote name}."
  | missingCommand => "Missing command."

/-- The message below the usage of what was called. -/
def report (scope : Scope) (fault : UsageFault) : String :=
  s!"{scope.usage}\nTry '{scope.path} --help' for help.\n\nError: {fault.message}"

end UsageFault

/-- What arguments came to: the switches in order, and the other arguments. -/
structure Parsed where
  given : List (Switch × Given)
  rest : List String
deriving Repr

namespace Parsed

/-- What was given for a topic last. -/
def last? (parsed : Parsed) (topic : Topic) : Option Given :=
  ((parsed.given.filter (·.1.topic == topic)).getLast?).map Prod.snd

def flag? (parsed : Parsed) (topic : Topic) : Option Bool :=
  match parsed.last? topic with
  | some (.flag value) => some value
  | _ => none

def text? (parsed : Parsed) (topic : Topic) : Option String :=
  match parsed.last? topic with
  | some (.text value) => some value
  | _ => none

def put (switch : Switch) (given : Given) (parsed : Parsed) : Parsed :=
  { parsed with given := (switch, given) :: parsed.given }

end Parsed

/-- The name in an argument, and the text after its first equals sign. -/
def splitArgument (argument : String) : String × Option String :=
  let name := argument.toList.takeWhile (· != '=')
  match argument.toList.drop name.length with
  | [] => (argument, none)
  | _ :: text => (String.ofList name, some (String.ofList text))

def unknown (switches : List Switch) (argument : String) : UsageFault :=
  match argument.toList with
  | '-' :: '-' :: _ =>
    let name := (splitArgument argument).1
    .unknownSwitch name (Diff.similarNames name (switches.map Switch.name))
  | letters => .unknownSwitch (String.ofList (letters.take 2)) []

def isSwitch (argument : String) : Bool := argument.startsWith "-" && argument != "-"

/-- Reads arguments. Unless switches may stand `anywhere`, the first argument that is none ends
them. -/
def parse (switches : List Switch) (anywhere : Bool) : List String → Except UsageFault Parsed
  | [] => .ok ⟨[], []⟩
  | "--" :: rest => .ok ⟨[], rest⟩
  | argument :: rest =>
    if !isSwitch argument then
      if anywhere then do
        let parsed ← parse switches anywhere rest
        return { parsed with rest := argument :: parsed.rest }
      else .ok ⟨[], argument :: rest⟩
    else
      let (name, text) := splitArgument argument
      match switches.find? (·.name == name) with
      | none => .error (unknown switches argument)
      | some switch =>
        match switch.setting, text, rest with
        | some _, some _, _ => .error (.unwantedText name)
        | some value, none, rest => (Parsed.put switch (.flag value)) <$> parse switches anywhere rest
        | none, some text, rest => (Parsed.put switch (.text text)) <$> parse switches anywhere rest
        | none, none, [] => .error (.missingText name)
        | none, none, text :: rest => (Parsed.put switch (.text text)) <$> parse switches anywhere rest

end WorkflowCompiler.Command
