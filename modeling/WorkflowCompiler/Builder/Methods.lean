import WorkflowCompiler.Builder.Composition
import WorkflowCompiler.Builder.Reference
import WorkflowCompiler.Text.Kebab

/-! The methods of steps, jobs, workflows and expressions. A setter takes a value or a function,
which is called at once with the names that are known by then. -/

namespace WorkflowCompiler.Build

/-- The value of a setter's argument. -/
def resolve (call : Call) (known : Build Known) : Value → Build Value
  | .function identity => do call identity (.names (← known))
  | value => return value

def stepKnown (identity : Nat) : Build Known := do
  return ((← store).step identity).known.getD {}

def jobKnown (identity : Nat) : Build Known :=
  ask fun store => store.knownNames (store.job identity)

/-- A line of a script: text as it is, commands, expressions and paths as they read in a line. -/
def scriptLine (value : Value) : Build String :=
  match value with
  | .text value => return value
  | .choice value => return value.text
  | .command line _ _ =>
    match line.chars? with
    | some text => return text
    | none => fail .mistyped
  | value =>
    if isExpression value || value.isPath then lineText value
    else fail (.notAScriptLine value.typeName)

def callStep (call : Call) (identity : Nat) (method : String) (arguments : List Value) :
    Build Value := do
  match StepField.ofSetter? method, arguments with
  | some .run, [value] =>
    let value ← resolve call (stepKnown identity) value
    let items := (value.items?).getD [value]
    let lines ← items.mapM scriptLine
    modifyStep identity (·.setScript lines items)
    return .step identity
  | some field, [value] =>
    let value ← resolve call (stepKnown identity) value
    modifyStep identity (·.set field value)
    return .step identity
  | some _, _ => fail .mistyped
  | none, _ => fail (.noAttribute "Step" method)

def isMatrixRow (key : Value) : Bool :=
  Value.equals key (.text "include") || Value.equals key (.text "exclude")

/-- The axes of a matrix: its keys and those of the rows that it includes. Nothing if they are
only known when the workflow runs. -/
def matrixAxes (wording : Value → Except Failure String) (strategy : Value) :
    Except Failure (Option (List String)) :=
  let names (entries : List (Value × Value)) := entries.mapM fun (key, _) => wording key
  let matrix := match strategy with
    | .map entries => Value.lookup? (.text "matrix") entries
    | _ => none
  match matrix with
  | none => .ok (some [])
  | some (.map matrix) => do
    let axes ← names (matrix.filter fun (key, _) => !isMatrixRow key)
    let included := (Value.lookup? (.text "include") matrix).getD .null
    match included.items?, included.isNull with
    | some rows, _ =>
      let more ← rows.mapM fun
        | .map entries => names entries
        | _ => pure []
      return some (axes ++ more.flatten).eraseDups
    | none, true => return some axes.eraseDups
    | none, false => return none
  | some _ => .ok none

def addStep (call : Call) (job : Nat) (value : Value) : Build Unit := do
  match value with
  | .step identity => modifyJob job (·.addStep identity)
  | .function function =>
    let fresh ← newStep { known := some (← jobKnown job) }
    match ← call function (.object (.step fresh)) with
    | .step identity => modifyJob job (·.addStep identity)
    | other => fail (.builtNoStep other.typeName)
  | other => fail (.notAStep other.typeName)

def addSteps (call : Call) (job : Nat) : List Value → Build Unit
  | [] => return ()
  | value :: rest => do
    addStep call job value
    addSteps call job rest

/-- The value that a setter of a job stores. -/
def jobSetting (field : JobField) (value : Value) : Build Value := do
  match field, value with
  | .permissions, value => return clearable value
  | .needs, value =>
    return .list ((← value.asList.mapM fun item => ask (·.wording item)).map .text)
  | .uses, .workflow identity =>
    let fileName ← ask (·.wording ((← store).workflow identity).fileName)
    return .text s!"./.github/workflows/{fileName}.yml"
  | _, value => return value

/-- What a job records of a setting beside its value. -/
def recordNames (identity : Nat) (field : JobField) (value : Value) : Build Unit := do
  match field, value with
  | .strategy, strategy =>
    let axes ← ask fun store => matrixAxes store.wording strategy
    modifyJob identity fun job => { job with axes }
    debugLine do
      let shown (value : Value) : Build String := ask (·.shown value)
      let axes := (texts axes).elim Value.null Value.tuple
      return s!"job {← shown (((← store).job identity).fields .name)}: matrix axes {← shown axes}"
  | .services, .map entries =>
    let services ← entries.mapM fun (name, _) => ask (·.wording name)
    modifyJob identity fun job => { job with services }
  | _, _ => return ()

def callJob (call : Call) (identity : Nat) (method : String) (arguments : List Value) :
    Build Value := do
  match method, JobField.ofSetter? method, arguments with
  | "step", _, [value] => addStep call identity value
  | "steps", _, [values] => addSteps call identity (← ofExcept values.iterate)
  | _, some field, [value] =>
    let value ← jobSetting field (← resolve call (jobKnown identity) value)
    modifyJob identity (·.set field value)
    recordNames identity field value
  | method, field, _ =>
    if field.isSome || method == "step" || method == "steps" then fail .mistyped
    else fail (.noAttribute "Job" method)
  return .job identity

/-- Applies the entries of an event. -/
def addEvents (workflow : Nat) : List (Value × Value) → Build Unit
  | [] => return ()
  | (name, options) :: rest => do
    let name ← ask (·.wording name)
    modifyWorkflow workflow (·.addEvent name options)
    addEvents workflow rest

def addEvent (workflow : Nat) (event options : Value) : Build Unit := do
  match event with
  | .event _ _ =>
    if !options.isNull then fail .optionsBesideTrigger
    addEvents workflow (← ofExcept (Event.entries event))
  | name =>
    let name ← ask (·.wording name)
    modifyWorkflow workflow (·.addEvent name (Workflow.eventOptions options))

def addJob (call : Call) (workflow : Nat) (jobId value : Value) : Build Unit := do
  let job ← match value with
    | .job identity => pure identity
    | .function function =>
      let fresh ← newJob {}
      match ← call function (.object (.job fresh)) with
      | .job identity => pure identity
      | other => do fail (.builtNoJob (← ask (·.wording jobId)) other.typeName)
    | other => do fail (.notAJob (← ask (·.wording jobId)) other.typeName)
  let jobs ← ofExcept (Value.insertKey ((← store).workflow workflow).jobs jobId job)
  modifyWorkflow workflow fun workflow => { workflow with jobs }

def addJobs (call : Call) (workflow : Nat) : List (Value × Value) → Build Unit
  | [] => return ()
  | (jobId, value) :: rest => do
    addJob call workflow jobId value
    addJobs call workflow rest

def findJob (workflow : Nat) (jobId : Value) : Build Value := do
  if !jobId.isKey then fail .mistyped
  match Value.lookup? jobId ((← store).workflow workflow).jobs with
  | some job => return .job job
  | none => fail (.noSuchKey (← ask (·.shown jobId)))

def callWorkflow (call : Call) (identity : Nat) (method : String) (arguments : List Value) :
    Build Value := do
  match method, arguments with
  | "on", [event] => addEvent identity event .null
  | "on", [event, options] => addEvent identity event options
  | "job", [jobId, value] => addJob call identity jobId value
  | "jobs", [values] => addJobs call identity (← ofExcept values.itemEntries)
  | "get_job", [jobId] => return ← findJob identity jobId
  | "set_name", [name] =>
    modifyWorkflow identity fun workflow => { workflow with name }
  | method, arguments =>
    match WorkflowField.ofSetter? method, arguments with
    | some field, [value] =>
      let value ← resolve call (return {}) value
      modifyWorkflow identity (·.set field (if field = .permissions then clearable value else value))
    | field, _ =>
      if field.isSome || ["on", "job", "jobs", "get_job", "set_name"].contains method then fail .mistyped
      else fail (.noAttribute "Workflow" method)
  return .workflow identity

/-- Calls a method of a value. -/
def callMethod (call : Call) (value : Value) (method : String) (arguments : List Value) :
    Build Value := do
  match value with
  | .step identity => callStep call identity method arguments
  | .job identity => callJob call identity method arguments
  | .workflow identity => callWorkflow call identity method arguments
  | .expression identity =>
    if method == "add" then
      addFragments identity arguments
      return value
    else fail (.noAttribute "Expression" method)
  | .path segments =>
    if method == "append" then extend segments arguments
    else do
      discard (attributeOf value method)
      fail .mistyped
  | other => fail (.noAttribute other.typeName method)

/-- A workflow under a name; its file is named after it unless a file name is given. -/
def makeWorkflow (name fileName : Value) : Build Nat := do
  if !(← ofExcept name.truth) then fail .namelessWorkflow
  let fileName ← match fileName, name.chars? with
    | .null, some name => pure (.text (Text.kebab name))
    | .null, none => fail .mistyped
    | fileName, _ => pure fileName
  newWorkflow { name, fileName }

end WorkflowCompiler.Build
