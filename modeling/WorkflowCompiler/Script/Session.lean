import WorkflowCompiler.Script.Evaluate
import WorkflowCompiler.Script.View

/-! Sessions: statements that build values, keep them in registers and look at them. A failing
statement neither ends the session nor undoes what was done. -/

namespace WorkflowCompiler

inductive Statement
  | assign (name : String) (value : Recipe)
  | call (name : String) (method : String) (arguments : List Recipe)
  | examine (value : Recipe)
  | render (name : String) (arguments : List Recipe)
  | validate (name : String) (arguments : List Recipe)
  | describe (name : String)
  | setDebug (enabled : Bool)
  | debug (text : String)

/-- What a statement came to and what it printed. -/
structure Reply where
  result : Except Failure View
  printed : String

namespace Build

def run (build : Build α) (workspace : Workspace) : Except Failure α × Workspace :=
  StateT.run (ExceptT.run build) workspace

def viewOf (value : Value) : Build View := ask (·.view value)

def register (name : String) : Build Value := evaluateTop (.register name)

/-- Whether a method returned the object that it was called on. -/
def sameObject : Value → Value → Bool
  | .step left, .step right => left == right
  | .job left, .job right => left == right
  | .workflow left, .workflow right => left == right
  | .expression left, .expression right => left == right
  | _, _ => false

/-- The record that a value renders to on its own. -/
def renderAlone (value : Value) (arguments : List Value) : Build View := do
  match value, arguments with
  | .step identity, [] => return .ofTree (← ask (·.renderStep identity))
  | .job identity, [] => return .ofTree (← ask (·.renderJob identity .null))
  | .job identity, [jobId] => return .ofTree (← ask (·.renderJob identity jobId))
  | .workflow identity, [] => ask fun store => do store.recordView (← store.renderWorkflow identity)
  | .expression _, [] => return .ofTree (← ask (·.plain value))
  | .path _, [] => return .ofTree (← ask (·.plain value))
  | .command _ _ _, [] => return .text (← ask (·.wording value))
  | .step _, _ => fail .mistyped
  | .job _, _ => fail .mistyped
  | .workflow _, _ => fail .mistyped
  | .expression _, _ => fail .mistyped
  | .path _, _ => fail .mistyped
  | .command _ _ _, _ => fail .mistyped
  | value, _ => fail (.noAttribute value.typeName "to_json")

def validateAlone (value : Value) (arguments : List Value) : Build View := do
  let faults (identity : Nat) (jobId : Value) : Build View := do
    let faults ← ask fun store => store.jobFaults (store.job identity) jobId
    return .list (faults.map .failure)
  match value, arguments with
  | .job identity, [] => faults identity .null
  | .job identity, [jobId] => faults identity jobId
  | .job _, _ => fail .mistyped
  | value, _ => fail (.noAttribute value.typeName "validate")

def evaluateArguments (arguments : List Recipe) : Build (List Value) :=
  evaluateAll (callWithin callDepth) (.names {}) arguments

def execute (statement : Statement) : Build View := do
  match statement with
  | .assign name recipe =>
    let value ← evaluateTop recipe
    modify fun workspace => { workspace with registers := (name, value) :: workspace.registers }
    viewOf value
  | .call name method arguments =>
    let value ← register name
    let result ← callMethod (callWithin callDepth) value method (← evaluateArguments arguments)
    if sameObject value result then viewOf value
    else return .map [(.text "result", ← viewOf result)]
  | .examine recipe => viewOf (← evaluateTop recipe)
  | .render name arguments =>
    let value ← register name
    renderAlone value (← evaluateArguments arguments)
  | .validate name arguments =>
    let value ← register name
    validateAlone value (← evaluateArguments arguments)
  | .describe name =>
    let value ← register name
    return .text (← ask (·.shown value))
  | .setDebug enabled =>
    modify fun workspace => { workspace with debug := enabled }
    return .bool enabled
  | .debug text =>
    debugLine (return text)
    return .null

end Build

namespace Session

def step (workspace : Workspace) (statement : Statement) : Reply × Workspace :=
  let (result, after) := (Build.execute statement).run { workspace with printed := "" }
  (⟨result, after.printed⟩, after)

def replies (workspace : Workspace) : List Statement → List Reply
  | [] => []
  | statement :: rest =>
    let (reply, after) := step workspace statement
    reply :: replies after rest

/-- The replies of a session from its start. -/
def run (debug : Bool) (statements : List Statement) : List Reply :=
  replies { debug } statements

/-- The view of the value of a recipe. -/
def evaluate (recipe : Recipe) : Except Failure View :=
  ((Build.evaluateTop recipe >>= Build.viewOf).run {}).1

/-- The views of values that may refer to the names known. -/
def evaluateIn (known : Known) (recipes : List Recipe) : List (Except Failure View) :=
  recipes.map fun recipe =>
    ((Build.evaluateIn (.names known) recipe >>= Build.viewOf).run {}).1

end Session

end WorkflowCompiler
