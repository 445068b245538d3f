import WorkflowCompiler.Builder.Step
import WorkflowCompiler.Value.Equality

/-! A job of a workflow: its settings, unset ones being null, its steps in order, and the names
that its strategy and services declare. -/

namespace WorkflowCompiler

inductive JobField
  | name
  | permissions
  | needs
  | condition
  | runsOn
  | environment
  | concurrency
  | outputs
  | env
  | defaults
  | timeoutMinutes
  | strategy
  | maxParallel
  | continueOnError
  | container
  | services
  | uses
  | inputs
  | secrets
deriving DecidableEq, Repr

namespace JobField

/-- In the order in which a job is written; its steps come last. -/
def all : List JobField :=
  [name, permissions, needs, condition, runsOn, environment, concurrency, outputs, env, defaults,
    timeoutMinutes, strategy, maxParallel, continueOnError, container, services, uses, inputs,
    secrets]

def key : JobField → String
  | name => "name"
  | permissions => "permissions"
  | needs => "needs"
  | condition => "if"
  | runsOn => "runs-on"
  | environment => "environment"
  | concurrency => "concurrency"
  | outputs => "outputs"
  | env => "env"
  | defaults => "defaults"
  | timeoutMinutes => "timeout-minutes"
  | strategy => "strategy"
  | maxParallel => "max-parallel"
  | continueOnError => "continue-on-error"
  | container => "container"
  | services => "services"
  | uses => "uses"
  | inputs => "with"
  | secrets => "secrets"

/-- The name of the setter. -/
def setter : JobField → String
  | condition => "if_"
  | runsOn => "runs_on"
  | timeoutMinutes => "timeout_minutes"
  | maxParallel => "max_parallel"
  | continueOnError => "continue_on_error"
  | inputs => "with_"
  | field => field.key

def ofSetter? (name : String) : Option JobField := all.find? (·.setter == name)

end JobField

/-- `axes` is nothing if the matrix is computed when the workflow runs. -/
structure Job where
  fields : JobField → Value := fun _ => .null
  steps : List Nat := []
  axes : Option (List String) := some []
  services : List String := []

namespace Job

def set (job : Job) (field : JobField) (value : Value) : Job :=
  { job with fields := fun other => if other = field then value else job.fields other }

def addStep (job : Job) (step : Nat) : Job := { job with steps := job.steps ++ [step] }

/-- The jobs that have to finish first. -/
def neededJobs (job : Job) : List String := ((job.fields .needs).asList).filterMap Value.chars?

/-- What a message calls the job: the id under which it is rendered, else its name. -/
def label (job : Job) (jobId : Value) : Value :=
  if !jobId.isNull then jobId
  else match job.fields .name with
    | .text name => .text name
    | .choice name => .choice name
    | _ => .text "<unnamed>"

end Job

/-- A false value clears permissions. -/
def clearable : Value → Value
  | .bool false => .null
  | value => value

end WorkflowCompiler
