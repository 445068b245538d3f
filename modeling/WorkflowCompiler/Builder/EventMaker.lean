import WorkflowCompiler.Builder.Arguments

/-! Makers of events and inputs. -/

namespace WorkflowCompiler.Build

/-- The settings of an event that may be given by position, the usual ones first. -/
def usualSettings : EventKind → List String
  | .push => ["branches", "tags", "paths"]
  | .pullRequest => ["branches", "types", "paths"]
  | kind => kind.settingNames

def settingDefault (kind : EventKind) (name : String) : Option Value :=
  match kind, name with
  | .anyOf, _ => none
  | .schedule, _ => none
  | .run, "workflows" => none
  | .pullRequest, "target" => some (.bool false)
  | .dispatch, _ => some (.map [])
  | .call, _ => some (.map [])
  | _, _ => some .null

def inputDefault (name : String) : Value :=
  match name with
  | "required" => .bool false
  | "options" => .list []
  | _ => .null

/-- A copy of a mapping; nothing stands for the empty one. -/
def copied (value : Value) : Build Value := do
  if ← ofExcept value.truth then return .map (← ofExcept value.toEntries) else return .map []

def settings (kind : EventKind) (arguments : List (String × Value)) : Build (List Value) :=
  kind.settingNames.mapM fun name =>
    match (argument? arguments name).or (settingDefault kind name) with
    | some value => return value
    | none => fail .mistyped

def makeEvent (factory : Factory) (values : List Value) (named : List (String × Value)) :
    Build Value := do
  match factory with
  | .on .schedule =>
    match values, named with
    | [], [("cron", cron)] => return .event .schedule [.list [cron]]
    | [], _ => fail .mistyped
    | crons, [] => return .event .schedule [.list crons]
    | _, _ => fail .mistyped
  | .on .run => do
    let arguments ← bindArguments (usualSettings .run) [] values named
    let workflows ← ofExcept (← argument arguments "workflows").iterate
    return .event .run [.list workflows, argumentOr .null arguments "types", argumentOr .null arguments "branches"]
  | .on kind => do
    let arguments ← bindArguments (usualSettings kind) kind.settingNames values named
    let settings ← settings kind arguments
    match kind with
    | .dispatch => return .event kind (← settings.mapM copied)
    | .call => return .event kind (← settings.mapM copied)
    | kind => return .event kind settings
  | .event kind => do
    let arguments ← bindArguments kind.settingNames [] values named
    return .event kind (← settings kind arguments)
  | .input kind => do
    let arguments ← bindArguments kind.settingNames [] values named
    return .input kind (kind.settingNames.map fun name => argumentOr (inputDefault name) arguments name)

end WorkflowCompiler.Build
