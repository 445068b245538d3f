import WorkflowCompiler.Builder.Wording
import WorkflowCompiler.Tree

/-! Rendering to plain data. Expressions are wrapped for the runner to fill in, context paths and
commands become their text, and steps, jobs and workflows become records of the settings that
are set. A job or workflow with structural faults is not rendered: all of them are reported. -/

namespace WorkflowCompiler

/-- An expression as an interpolation. -/
def interpolation (text : String) : String := "$\x7b\x7b " ++ text ++ " \x7d\x7d"

/-- A record of a workflow; its name is kept as it was given. -/
structure WorkflowRecord where
  name : Value
  sections : List (String × Tree)
deriving Inhabited

namespace Tree

/-- Puts a value under a key; a key that is there keeps its place. -/
def putText (key : String) (value : Tree) : List (Tree × Tree) → List (Tree × Tree)
  | [] => [(.text key, value)]
  | (.text other, old) :: rest =>
    if other = key then (.text other, value) :: rest else (.text other, old) :: putText key value rest
  | entry :: rest => entry :: putText key value rest

end Tree

namespace Value

mutual

/-- Plain data for a value. `wording` gives the text of a key, `visit` the record of an object. -/
def plainWith (wording : Value → Except Failure String) (visit : Target → Except Failure Tree) :
    Value → Except Failure Tree
  | .null => .ok .null
  | .bool value => .ok (.bool value)
  | .int value => .ok (.int value)
  | .float value => .ok (.float value)
  | .text value => .ok (.text value)
  | .choice value => .ok (.text value.text)
  | .file name => .ok (.text name)
  | .expression identity => visit (.expression identity)
  | .step identity => visit (.step identity)
  | .job identity => visit (.job identity)
  | .workflow identity => visit (.workflow identity)
  | .command line _ _ =>
    match line.chars? with
    | some written => .ok (.text written)
    | none => .error (.ofCause .mistyped)
  | .path segments => .ok (.text (dotted segments))
  | .pathLike identity segments =>
    match (pathLike identity segments).segments? with
    | some labels => .ok (.text (dotted labels))
    | none => .error (.ofCause (.notRenderable "Ref"))
  | .map entries => do return .map (← plainEntries wording visit [] entries)
  | .list items => do return .list (← plainItems wording visit items)
  | .tuple items => do return .list (← plainItems wording visit items)
  | other => .error (.ofCause (.notRenderable other.typeName))

def plainItems (wording : Value → Except Failure String) (visit : Target → Except Failure Tree) :
    List Value → Except Failure (List Tree)
  | [] => .ok []
  | value :: rest => do
    return (← plainWith wording visit value) :: (← plainItems wording visit rest)

def plainEntries (wording : Value → Except Failure String) (visit : Target → Except Failure Tree)
    (found : List (Tree × Tree)) : List (Value × Value) → Except Failure (List (Tree × Tree))
  | [] => .ok found
  | entry :: rest => do
    plainEntries wording visit (← plainEntry wording visit found entry) rest

def plainEntry (wording : Value → Except Failure String) (visit : Target → Except Failure Tree)
    (found : List (Tree × Tree)) : Value × Value → Except Failure (List (Tree × Tree))
  | (key, value) => do
    let name ← match key with
      | .choice key => pure key.text
      | key => wording key
    return Tree.putText name (← plainWith wording visit value) found

end

end Value

namespace Store

/-- The structural faults of a job that is rendered under `jobId`. -/
def jobFaults (store : Store) (job : Job) (jobId : Value) : Except Failure (List Failure) := do
  let label ← store.wording (job.label jobId)
  let uses := !(job.fields .uses).isNull
  let work :=
    if !job.steps.isEmpty && uses then [Cause.stepsAndUses label]
    else if job.steps.isEmpty && !uses then [Cause.neitherStepsNorUses label]
    else []
  let runner :=
    if !job.steps.isEmpty && (job.fields .runsOn).isEmpty then [Cause.noRunner label] else []
  let repeated ← repetitions label [] (store.stepIds job)
  return (work ++ runner ++ repeated).map .ofCause
where
  /-- A fault for each id that is among those before it. -/
  repetitions (label : String) (seen : List Value) : List Value → Except Failure (List Cause)
    | [] => .ok []
    | id :: rest => do
      if !id.isKey then .error (.ofCause .mistyped)
      let more ← repetitions label (id :: seen) rest
      if seen.any fun other => Value.equals id other then
        return Cause.repeatedStep label (← store.wording id) :: more
      else return more

/-- The entries whose value is set. -/
def recordOf (plain : Value → Except Failure Tree) (fields : List (String × Value)) :
    Except Failure (List (String × Tree)) :=
  (fields.filter fun (_, value) => !value.isNull).mapM fun (name, value) => do
    return (name, ← plain value)

def stepRecord (plain : Value → Except Failure Tree) (step : Step) : Except Failure Tree := do
  return Tree.record (← recordOf plain (StepField.all.map fun field => (field.key, step.fields field)))

def jobRecord (store : Store) (plain : Value → Except Failure Tree) (job : Job) (jobId : Value) :
    Except Failure Tree := do
  let faults ← store.jobFaults job jobId
  if !faults.isEmpty then
    .error (.mk (.invalidJob (← store.wording (job.label jobId))) faults)
  let steps ← (store.jobSteps job).mapM (stepRecord plain)
  let settings ← recordOf plain (JobField.all.map fun field => (field.key, job.fields field))
  return Tree.record (settings ++ if steps.isEmpty then [] else [("steps", .list steps)])

/-- The options of an event; other workflows are referred to by their names. -/
def eventOptions (store : Store) (name : String) (options : Value) : Except Failure Value :=
  match name, options with
  | "workflow_run", .map entries =>
    match Value.lookup? (.text "workflows") entries with
    | none => .ok options
    | some workflows => do
      let names := (← workflows.iterate).map fun
        | .workflow identity => (store.workflow identity).name
        | other => other
      return .map (Value.insert (.text "workflows") (.list names) entries)
  | _, options => .ok options

/-- The records of the jobs and the failures of those that are invalid. -/
def jobRecords (store : Store) (plain : Value → Except Failure Tree) :
    List (Value × Nat) → Except Failure (List (Tree × Tree) × List Failure)
  | [] => .ok ([], [])
  | (jobId, job) :: rest => do
    match store.jobRecord plain (store.job job) jobId with
    | .ok record =>
      let (records, failures) ← store.jobRecords plain rest
      let name ← match jobId with
        | .choice jobId => pure jobId.text
        | jobId => store.wording jobId
      return ((.text name, record) :: records, failures)
    | .error failure =>
      if failure.category != .validation then .error failure
      let (records, failures) ← store.jobRecords plain rest
      return (records, failure :: failures)

/-- Entries with equal keys become one: the place of the first, the value of the last. -/
def mergeKeys (entries : List (Tree × Tree)) : List (Tree × Tree) :=
  entries.foldl (fun found entry =>
    match entry with
    | (.text key, value) => Tree.putText key value found
    | entry => found ++ [entry]) []

def workflowSections (store : Store) (plain : Value → Except Failure Tree) (workflow : Workflow) :
    Except Failure (List (String × Tree)) := do
  let (jobs, failures) ← store.jobRecords plain workflow.jobs
  if !failures.isEmpty then
    .error (Failure.collect (.invalidWorkflow (← store.wording workflow.name)) failures)
  let events ← workflow.events.mapM fun (name, options) => do
    return (name, ← plain (← store.eventOptions name options))
  let settings ← recordOf plain (WorkflowField.all.map fun field => (field.key, workflow.fields field))
  return (if events.isEmpty then [] else [("on", Tree.record events)]) ++ settings
    ++ (if jobs.isEmpty then [] else [("jobs", .map (mergeKeys jobs))])

/-- The record of an object that is part of a value. -/
def targetWithin (store : Store) : Nat → Target → Except Failure Tree
  | 0, _ => .error (.ofCause .endless)
  | hops + 1, target => do
    let plain := Value.plainWith store.wording (store.targetWithin hops)
    match target with
    | .expression identity => return .text (interpolation (← store.expressionText identity))
    | .step identity => stepRecord plain (store.step identity)
    | .job identity => store.jobRecord plain (store.job identity) .null
    | .workflow identity =>
      let workflow := store.workflow identity
      let sections ← store.workflowSections plain workflow
      return Tree.record (("name", ← plain workflow.name) :: sections)

/-- Plain data for a value. -/
def plain (store : Store) (value : Value) : Except Failure Tree :=
  value.plainWith store.wording (store.targetWithin (store.size + 1))

def renderStep (store : Store) (identity : Nat) : Except Failure Tree :=
  stepRecord store.plain (store.step identity)

/-- The record of a job under an id. -/
def renderJob (store : Store) (identity : Nat) (jobId : Value) : Except Failure Tree :=
  store.jobRecord store.plain (store.job identity) jobId

def renderWorkflow (store : Store) (identity : Nat) : Except Failure WorkflowRecord := do
  let workflow := store.workflow identity
  return { name := workflow.name, sections := ← store.workflowSections store.plain workflow }

end Store

end WorkflowCompiler
