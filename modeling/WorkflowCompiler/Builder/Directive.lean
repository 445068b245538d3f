import WorkflowCompiler.Builder.Arguments
import WorkflowCompiler.Builder.Composition

/-! Commands: single lines by which a step talks to the runner. A command that sets an output or
exports a variable remembers its name. -/

namespace WorkflowCompiler.Build

/-- The properties of an annotation in the order in which they are written, with the names of
their parameters. -/
def noticeProperties : List (String × String) :=
  [("title", "title"), ("file", "file"), ("col", "col"), ("endColumn", "end_column"),
    ("line", "line"), ("endLine", "end_line")]

def line (text : String) : Value := .command (.text text) .null .null

def notice (kind : String) (message : Value) (arguments : List (String × Value)) :
    Build Value := do
  let given := noticeProperties.filterMap fun (key, parameter) =>
    match argumentOr .null arguments parameter with
    | .null => none
    | value => some (key, value)
  let properties ← given.mapM fun (key, value) => do return s!"{key}={← lineText value}"
  let properties := ",".intercalate properties
  let message ← lineText message
  return line (if properties.isEmpty then s!"echo ::{kind}::{message}"
    else s!"echo ::{kind} {properties}::{message}")

/-- A line that appends a setting to one of the runner's files. -/
def setting (name value : Value) (file : String) : Build String := do
  let name ← ask (·.wording name)
  let value ← lineText value
  return "echo \"" ++ name ++ "=" ++ value ++ "\" >> $" ++ file

def directive (kind : CommandKind) (values : List Value) (named : List (String × Value)) :
    Build Value := do
  match kind with
  | .debug =>
    let arguments ← bindArguments ["message"] [] values named
    let message ← lineText (← argument arguments "message")
    return line s!"echo ::debug::{message}"
  | .notice kind =>
    let arguments ← bindArguments ["message"] (noticeProperties.map Prod.snd) values named
    notice kind (← argument arguments "message") arguments
  | .mask =>
    let arguments ← bindArguments ["value"] [] values named
    let value ← lineText (← argument arguments "value")
    return line s!"echo ::add-mask::{value}"
  | .output =>
    let arguments ← bindArguments ["name", "value"] [] values named
    let name ← argument arguments "name"
    let text ← setting name (← argument arguments "value") "GITHUB_OUTPUT"
    return .command (.text text) name .null
  | .env =>
    let arguments ← bindArguments ["name", "value"] [] values named
    let name ← argument arguments "name"
    let text ← setting name (← argument arguments "value") "GITHUB_ENV"
    return .command (.text text) .null name
  | .group =>
    let arguments ← bindArguments ["title", "commands"] [] values named
    let title ← ask (·.wording ((argument? arguments "title").getD .null))
    let commands ← ofExcept (← argument arguments "commands").iterate
    return .list (line ("echo \"::group::" ++ title ++ "\"") :: commands ++ [line "echo \"::endgroup::\""])
  | .verbatim =>
    let arguments ← bindArguments ["value"] ["output", "env"] values named
    return .command (← argument arguments "value") (argumentOr .null arguments "output")
      (argumentOr .null arguments "env")

end WorkflowCompiler.Build
