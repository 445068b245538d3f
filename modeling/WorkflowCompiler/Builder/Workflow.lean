import WorkflowCompiler.Builder.Job

/-! A workflow: the events that start it, settings for all of its jobs, and the jobs under their
ids. Events and jobs keep the place of their first addition. -/

namespace WorkflowCompiler

inductive WorkflowField
  | permissions
  | env
  | defaults
  | concurrency
deriving DecidableEq, Repr

namespace WorkflowField

/-- In the order in which a workflow is written. -/
def all : List WorkflowField := [permissions, env, defaults, concurrency]

def key : WorkflowField → String
  | permissions => "permissions"
  | env => "env"
  | defaults => "defaults"
  | concurrency => "concurrency"

def ofSetter? (name : String) : Option WorkflowField := all.find? (·.key == name)

end WorkflowField

structure Workflow where
  name : Value
  fileName : Value
  events : List (String × Value) := []
  fields : WorkflowField → Value := fun _ => .null
  jobs : List (Value × Nat) := []

instance : Inhabited Workflow := ⟨{ name := .null, fileName := .null }⟩

namespace Workflow

def set (workflow : Workflow) (field : WorkflowField) (value : Value) : Workflow :=
  { workflow with
    fields := fun other => if other = field then value else workflow.fields other }

/-- Puts a value under a name; a name that is there keeps its place. -/
def putNamed (name : String) (value : α) : List (String × α) → List (String × α)
  | [] => [(name, value)]
  | (other, old) :: rest =>
    if other = name then (other, value) :: rest else (other, old) :: putNamed name value rest

def addEvent (workflow : Workflow) (name : String) (options : Value) : Workflow :=
  { workflow with events := putNamed name options workflow.events }

/-- Empty options mean any activity. -/
def eventOptions : Value → Value
  | .bool false => .null
  | .map [] => .null
  | .list [] => .null
  | .tuple [] => .null
  | value => if value.chars?.any (·.isEmpty) then .null else value

end Workflow

end WorkflowCompiler
