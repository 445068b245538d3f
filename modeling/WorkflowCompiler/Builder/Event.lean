import WorkflowCompiler.Value.Equality

/-! Events that start a workflow and the inputs that it asks for, as entries of its `on` section. -/

namespace WorkflowCompiler

/-- The settings of an event, in their documented order. -/
def EventKind.settingNames : EventKind → List String
  | anyOf => ["triggers"]
  | push => ["branches", "branches_ignore", "tags", "tags_ignore", "paths", "paths_ignore"]
  | pullRequest => ["branches", "branches_ignore", "types", "paths", "paths_ignore", "target"]
  | schedule => ["crons"]
  | dispatch => ["inputs"]
  | call => ["inputs", "outputs", "secrets"]
  | run => ["workflows", "types", "branches"]
  | abstract => []

def InputKind.settingNames : InputKind → List String
  | untyped => ["description", "required"]
  | choice => ["description", "required", "options", "default"]
  | _ => ["description", "required", "default"]

/-- What the `type` of an input says. -/
def InputKind.typeText : InputKind → String
  | untyped => "string"
  | text => "string"
  | bool => "boolean"
  | number => "number"
  | choice => "choice"

namespace Event

def dashed (name : String) : String :=
  String.ofList (name.toList.map fun c => if c == '_' then '-' else c)

/-- Named settings, those that are not set left out. -/
def filters (settings : List (String × Value)) : Except Failure Value := do
  let present ← settings.filterM fun (_, value) => value.truth
  match present with
  | [] => return .null
  | present => return .map (present.map fun (name, value) => (.text (dashed name), value))

/-- A named entry if its value is set. -/
def entryIfSet (name : String) (value : Value) : Except Failure (List (Value × Value)) := do
  return if ← value.truth then [(.text name, value)] else []

def inputEntries (kind : InputKind) (settings : List Value) :
    Except Failure (List (Value × Value)) := do
  let setting (name : String) := ((kind.settingNames.zip settings).lookup name).getD .null
  let optional (name : String) : List (Value × Value) :=
    if (setting name).isNull then [] else [(.text name, setting name)]
  let options ← match kind with
    | .choice => do pure [(.text "options", .list (← (setting "options").iterate))]
    | _ => pure []
  return optional "description" ++ [(.text "required", setting "required"), (.text "type", .text kind.typeText)]
    ++ optional "default" ++ options

/-- The section of the inputs: descriptions become entries, mappings are taken as they are. -/
def inputsSection (inputs : Value) : Except Failure Value := do
  let described ← (← inputs.itemEntries).mapM fun (name, value) => do
    let entries ← match value with
      | .input kind settings => inputEntries kind settings
      | value => value.toEntries
    pure (name, Value.map entries)
  return .map described

def singleton (name : String) (value : Value) : List (Value × Value) := [(.text name, value)]

/-- `null` for a section without entries. -/
def section? (entries : List (Value × Value)) : Value :=
  if entries.isEmpty then .null else .map entries

/-- The entries of an event that is not a combination of others. -/
def simpleEntries (kind : EventKind) (settings : List Value) :
    Except Failure (List (Value × Value)) := do
  let named := kind.settingNames.zip settings
  let setting (name : String) := (named.lookup name).getD .null
  match kind with
  | .push => return singleton "push" (← filters named)
  | .pullRequest =>
    let name := if ← (setting "target").truth then "pull_request_target" else "pull_request"
    return singleton name (← filters (named.filter fun (name, _) => name != "target"))
  | .schedule =>
    let crons ← (setting "crons").iterate
    return singleton "schedule" (.list (crons.map fun cron => .map (singleton "cron" cron)))
  | .dispatch =>
    if ← (setting "inputs").truth then
      return singleton "workflow_dispatch" (.map (singleton "inputs" (← inputsSection (setting "inputs"))))
    else return singleton "workflow_dispatch" .null
  | .call =>
    let inputs ←
      if ← (setting "inputs").truth then do
        pure (singleton "inputs" (← inputsSection (setting "inputs")))
      else pure []
    let outputs ← entryIfSet "outputs" (setting "outputs")
    let secrets ← entryIfSet "secrets" (setting "secrets")
    return singleton "workflow_call" (section? (inputs ++ outputs ++ secrets))
  | .run =>
    let workflows := singleton "workflows" (.list (← (setting "workflows").iterate))
    let types ← entryIfSet "types" (setting "types")
    let branches ← entryIfSet "branches" (setting "branches")
    return singleton "workflow_run" (.map (workflows ++ types ++ branches))
  | .anyOf => return []
  | .abstract => .error (.ofCause .abstract)

def update (entries more : List (Value × Value)) : List (Value × Value) :=
  more.foldl (fun entries (key, value) => Value.insert key value entries) entries

mutual

/-- The entries of the `on` section that a value stands for. A combination has those of its
parts in order, and of two entries for one event the later counts. -/
def entries : Value → Except Failure (List (Value × Value))
  | .event .anyOf [.list parts] => combinedEntries [] parts
  | .event .anyOf [.tuple parts] => combinedEntries [] parts
  | .event .anyOf [other] => do
    match ← other.iterate with
    | [] => return []
    | part :: _ => .error (.ofCause (.noAttribute part.typeName "to_gha_dict"))
  | .event kind settings => simpleEntries kind settings
  | .input kind settings => inputEntries kind settings
  | .path _ => .error (.ofCause .mistyped)
  | other => .error (.ofCause (.noAttribute other.typeName "to_gha_dict"))

def combinedEntries (found : List (Value × Value)) : List Value → Except Failure (List (Value × Value))
  | [] => .ok found
  | part :: rest => do combinedEntries (update found (← entries part)) rest

end

/-- Joins an event with whatever is to its right. -/
def join (kind : EventKind) (settings : List Value) (other : Value) : Except Failure Value :=
  match kind, settings with
  | .anyOf, [.list parts] => .ok (.event .anyOf [.list (parts ++ [other])])
  | .anyOf, _ => .error (.ofCause .mistyped)
  | kind, settings => .ok (.event .anyOf [.list [.event kind settings, other]])

end Event

end WorkflowCompiler
