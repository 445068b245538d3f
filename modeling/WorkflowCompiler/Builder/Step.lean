import WorkflowCompiler.Builder.Known

/-! A step of a job: its settings, unset ones being null, and the outputs and variables that its
script sets through commands. -/

namespace WorkflowCompiler

inductive StepField
  | condition
  | id
  | name
  | uses
  | run
  | shell
  | workingDirectory
  | inputs
  | env
  | continueOnError
  | timeoutMinutes
deriving DecidableEq, Repr

namespace StepField

/-- In the order in which a step is written. -/
def all : List StepField :=
  [condition, id, name, uses, run, shell, workingDirectory, inputs, env, continueOnError,
    timeoutMinutes]

def key : StepField → String
  | condition => "if"
  | id => "id"
  | name => "name"
  | uses => "uses"
  | run => "run"
  | shell => "shell"
  | workingDirectory => "working-directory"
  | inputs => "with"
  | env => "env"
  | continueOnError => "continue-on-error"
  | timeoutMinutes => "timeout-minutes"

/-- The name of the setter. -/
def setter : StepField → String
  | condition => "if_"
  | workingDirectory => "working_directory"
  | inputs => "with_"
  | continueOnError => "continue_on_error"
  | timeoutMinutes => "timeout_minutes"
  | field => field.key

def ofSetter? (name : String) : Option StepField := all.find? (·.setter == name)

end StepField

structure Step where
  known : Option Known := none
  fields : StepField → Value := fun _ => .null
  outputs : List Value := []
  exported : List Value := []

namespace Step

def id (step : Step) : Value := step.fields .id

def set (step : Step) (field : StepField) (value : Value) : Step :=
  { step with fields := fun other => if other = field then value else step.fields other }

/-- Replaces the script by `lines`, and what it sets by what the commands among `items` set. -/
def setScript (step : Step) (lines : List String) (items : List Value) : Step :=
  let outputs := items.filterMap fun
    | .command _ .null _ => none
    | .command _ output _ => some output
    | _ => none
  let exported := items.filterMap fun
    | .command _ _ .null => none
    | .command _ _ exported => some exported
    | _ => none
  { step.set .run (.text ("\n".intercalate lines)) with outputs, exported }

/-- What a message calls the step. -/
def label (step : Step) : Value := if step.id.isNull then step.fields .name else step.id

end Step

end WorkflowCompiler
