import WorkflowCompiler.Builder.Arguments

/-! Steps for common actions. What is given becomes the inputs of the action, underscores turned
into dashes and nulls left out. -/

namespace WorkflowCompiler.Preset

def action : Preset → String
  | checkout => "actions/checkout@v4"
  | setupPython => "actions/setup-python@v5"
  | setupUv => "astral-sh/setup-uv@v4"
  | setupRust => "dtolnay/rust-toolchain@master"
  | setupNode => "actions/setup-node@v4"
  | cache => "actions/cache@v4"
  | uploadArtifact => "actions/upload-artifact@v4"
  | downloadArtifact => "actions/download-artifact@v4"

/-- The parameters: name, name of the input, and what they are if they are not given. -/
def parameters : Preset → List (String × String × Option Value)
  | checkout => []
  | setupPython => [("version", "python_version", some (.text "3.11"))]
  | setupUv => [("version", "version", some (.text "latest"))]
  | setupRust => [("toolchain", "toolchain", some (.text "stable"))]
  | setupNode => [("version", "node_version", some (.text "20"))]
  | cache => [("path", "path", none), ("key", "key", none)]
  | uploadArtifact => [("name", "name", none), ("path", "path", none)]
  | downloadArtifact => [("name", "name", some .null), ("path", "path", some .null)]

/-- The latest version of a tool that installs itself need not be asked for. -/
def input (preset : Preset) (value : Value) : Value :=
  match preset with
  | setupUv => if Value.equals value (.text "latest") then .null else value
  | _ => value

def toStep (preset : Preset) (values : List Value) (named : List (String × Value)) :
    Build Step := do
  let parameters := preset.parameters
  let names := parameters.map Prod.fst
  let arguments ← Build.bindArguments names (named.map Prod.fst) values named
  let own ← parameters.mapM fun (name, input, default) =>
    match (arguments.lookup name).or default with
    | some value => return (input, preset.input value)
    | none => Build.fail .mistyped
  let others := named.filter fun (name, _) => !names.contains name
  if others.any fun (name, _) => name == "uses" || own.any (·.1 == name) then Build.fail .mistyped
  let inputs := (own ++ others).filter fun (_, value) => !value.isNull
  let entries := Event.update [] (inputs.map fun (name, value) => (.text (Event.dashed name), value))
  let step := Step.set {} .uses (.text preset.action)
  return if entries.isEmpty then step else step.set .inputs (.map entries)

end WorkflowCompiler.Preset
