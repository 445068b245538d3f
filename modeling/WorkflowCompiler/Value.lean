import WorkflowCompiler.Choice
import WorkflowCompiler.Failure
import WorkflowCompiler.Number.Decimal

/-! Values that a workflow is built from. Expressions, steps, jobs, workflows and functions are
objects that change or have an identity of their own: a value names them by their place in the
store. -/

namespace WorkflowCompiler

/-- A text or a member of a set, which counts as its text. -/
inductive Label
  | text (value : String)
  | choice (value : Choice)
deriving DecidableEq, Repr

def Label.chars : Label → String
  | .text value => value
  | .choice value => value.text

/-- The events that start a workflow. -/
inductive EventKind
  | anyOf
  | push
  | pullRequest
  | schedule
  | dispatch
  | call
  | run
  | abstract
deriving DecidableEq, Repr

def EventKind.typeName : EventKind → String
  | anyOf => "CombinedTrigger"
  | push => "PushTrigger"
  | pullRequest => "PullRequestTrigger"
  | schedule => "ScheduleTrigger"
  | dispatch => "WorkflowDispatchTrigger"
  | call => "WorkflowCallTrigger"
  | run => "WorkflowRunTrigger"
  | abstract => "Trigger"

/-- The kinds of input that a workflow asks for when it is started by hand or called. -/
inductive InputKind
  | untyped
  | text
  | bool
  | number
  | choice
deriving DecidableEq, Repr

def InputKind.typeName : InputKind → String
  | untyped => "TriggerInput"
  | text => "StringInput"
  | bool => "BoolInput"
  | number => "NumberInput"
  | choice => "ChoiceInput"

/-- `event` and `input` carry the settings of their kind, in the documented order. A command has
the line to run, the output that it sets and the variable that it exports. -/
inductive Value
  | null
  | bool (value : Bool)
  | int (value : Int)
  | float (value : Binary64)
  | text (value : String)
  | choice (value : Choice)
  | bytes (values : List Nat)
  | file (path : String)
  | list (items : List Value)
  | tuple (items : List Value)
  | map (entries : List (Value × Value))
  | path (segments : List Label)
  | pathLike (identity : Nat) (segments : Value)
  | foreign (identity : Nat) (typeName : String)
  | expression (identity : Nat)
  | step (identity : Nat)
  | job (identity : Nat)
  | workflow (identity : Nat)
  | command (line output exported : Value)
  | event (kind : EventKind) (settings : List Value)
  | input (kind : InputKind) (settings : List Value)
  | function (identity : Nat)
  | failure (identity : Nat) (value : Failure)
deriving Inhabited, Repr

namespace Value

def ofLabel : Label → Value
  | .text value => .text value
  | .choice value => .choice value

def label? : Value → Option Label
  | .text value => some (.text value)
  | .choice value => some (.choice value)
  | _ => none

/-- The characters of a text or of a member that counts as one. -/
def chars? (value : Value) : Option String := value.label?.map Label.chars

def isNull : Value → Bool
  | .null => true
  | _ => false

def items? : Value → Option (List Value)
  | .list items => some items
  | .tuple items => some items
  | _ => none

def typeName : Value → String
  | .null => "NoneType"
  | .bool _ => "bool"
  | .int _ => "int"
  | .float _ => "float"
  | .text _ => "str"
  | .choice value => value.setName
  | .bytes _ => "bytes"
  | .file _ => "PurePosixPath"
  | .list _ => "list"
  | .tuple _ => "tuple"
  | .map _ => "dict"
  | .path _ => "ContextPath"
  | .pathLike _ _ => "Ref"
  | .foreign _ name => name
  | .expression _ => "Expression"
  | .step _ => "Step"
  | .job _ => "Job"
  | .workflow _ => "Workflow"
  | .command _ _ _ => "Command"
  | .event kind _ => kind.typeName
  | .input kind _ => kind.typeName
  | .function _ => "function"
  | .failure _ value => value.category.name

/-- The segments of a value that can be used as a context path. An object that looks like a path
counts only if all its segments are texts. -/
def segments? : Value → Option (List Label)
  | .path segments => some segments
  | .pathLike _ segments => do (← segments.items?).mapM label?
  | _ => none

def isPath (value : Value) : Bool := value.segments?.isSome

/-- Whether the value counts as set in a condition. Expressions are for the runner to decide. -/
def truth : Value → Except Failure Bool
  | .null => .ok false
  | .bool value => .ok value
  | .int value => .ok (value != 0)
  | .float value => .ok !value.isZero
  | .text value => .ok !value.isEmpty
  | .bytes values => .ok !values.isEmpty
  | .list items => .ok !items.isEmpty
  | .tuple items => .ok !items.isEmpty
  | .map entries => .ok !entries.isEmpty
  | .expression _ => .error (.ofCause .controlFlow)
  | _ => .ok true

/-- What a loop over the value meets. Taking the items of a context path one by one asks for its
segment number zero, which no path has. -/
def iterate : Value → Except Failure (List Value)
  | .text value => .ok (value.toList.map fun c => .text c.toString)
  | .choice value => .ok (value.text.toList.map fun c => .text c.toString)
  | .bytes values => .ok (values.map fun value => .int (Int.ofNat value))
  | .list items => .ok items
  | .tuple items => .ok items
  | .map entries => .ok (entries.map Prod.fst)
  | .path _ => .error (.ofCause (.emptySegment "0"))
  | _ => .error (.ofCause .mistyped)

/-- A single value as a list of one; nothing as the empty list. -/
def asList : Value → List Value
  | .null => []
  | .list items => items
  | .tuple items => items
  | value => [value]

/-- Whether a value given for a runner names none. -/
def isEmpty : Value → Bool
  | .null => true
  | .list items => items.isEmpty
  | .tuple items => items.isEmpty
  | value => value.chars?.any (·.isEmpty)

end Value

end WorkflowCompiler
