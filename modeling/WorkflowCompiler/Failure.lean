import WorkflowCompiler.Yaml.Fault

/-! What can go wrong, by cause. A cause belongs to a category and has a message; a failure is
a cause with the failures that it sums up. -/

namespace WorkflowCompiler

/-- The ways in which a file operation is refused. -/
inductive DiskFault
  | noEntry
  | alreadyExists
  | notDirectory
  | isDirectory
  | nameTooLong
deriving DecidableEq, Repr

namespace DiskFault

def number : DiskFault → Nat
  | noEntry => 2
  | alreadyExists => 17
  | notDirectory => 20
  | isDirectory => 21
  | nameTooLong => 36

def text : DiskFault → String
  | noEntry => "No such file or directory"
  | alreadyExists => "File exists"
  | notDirectory => "Not a directory"
  | isDirectory => "Is a directory"
  | nameTooLong => "File name too long"

end DiskFault

inductive Category
  | general
  | structural
  | job
  | step
  | workflow
  | validation
  | composition
  | write
  | value
  | key
  | lookup
  | type
  | recursion
  | unimplemented
  | unreadable
  | undecodable
  | overflow
  | index
  | assertion
  | schema
  | system
  | disk (fault : DiskFault)
deriving DecidableEq, Repr

namespace Category

def name : Category → String
  | general => "WfcomposeError"
  | structural => "StructuralError"
  | job => "JobError"
  | step => "StepError"
  | workflow => "WorkflowError"
  | validation => "ValidationError"
  | composition => "CompositionError"
  | write => "WriteError"
  | value => "ValueError"
  | key => "KeyError"
  | lookup => "AttributeError"
  | type => "TypeError"
  | recursion => "RecursionError"
  | unimplemented => "NotImplementedError"
  | unreadable => "YAMLError"
  | undecodable => "UnicodeDecodeError"
  | overflow => "OverflowError"
  | index => "IndexError"
  | assertion => "AssertionError"
  | schema => "ValidationError"
  | system => "OSError"
  | disk .noEntry => "FileNotFoundError"
  | disk .alreadyExists => "FileExistsError"
  | disk .notDirectory => "NotADirectoryError"
  | disk .isDirectory => "IsADirectoryError"
  | disk .nameTooLong => "OSError"

/-- The categories of this library's own failures, which may sum up others. -/
def isComposite : Category → Bool
  | general => true
  | structural => true
  | job => true
  | step => true
  | workflow => true
  | validation => true
  | composition => true
  | write => true
  | _ => false

/-- Whether failures of the category are reported with their message. -/
def hasMessage : Category → Bool
  | type => false
  | recursion => false
  | unimplemented => false
  | unreadable => false
  | undecodable => false
  | overflow => false
  | index => false
  | assertion => false
  | schema => false
  | _ => true

def stated : List Category :=
  [general, structural, job, step, workflow, validation, composition, write, value, system, key]

/-- The category of a text that cannot be read as data. -/
def ofLoading : Yaml.Fault → Category
  | .malformed => unreadable
  | .notWhole _ _ => value
  | .notFraction _ => value
  | .notOnCalendar _ => value
  | .beyondCalendar => overflow
  | .notATruthValue _ => key
  | .noDigits => index
  | .unhashable => type
  | .repeatedKey => assertion
  | .endless => recursion

def ofName? (name : String) : Option Category := stated.find? (·.name == name)

end Category

inductive Cause
  | emptySegment (shown : String)
  | unknownName (kind name : String) (declared : List String)
  | hiddenAttribute (name : String)
  | noAttribute (typeName name : String)
  | notAFragment (typeName : String)
  | notALiteral (typeName : String)
  | controlFlow
  | notAnOperator (shown : String)
  | notAScriptLine (typeName : String)
  | notRenderable (typeName : String)
  | notAStep (typeName : String)
  | builtNoStep (typeName : String)
  | notAJob (jobId typeName : String)
  | builtNoJob (jobId typeName : String)
  | namelessWorkflow
  | optionsBesideTrigger
  | stepsAndUses (label : String)
  | neitherStepsNorUses (label : String)
  | noRunner (label : String)
  | repeatedStep (label stepId : String)
  | invalidJob (label : String)
  | invalidWorkflow (name : String)
  | invalidWorkflows
  | sharedFileName (owner name fileName : String)
  | notWritten (count total : Nat) (root : String)
  | noSuchKey (shown : String)
  | badPairLength (position length : Nat)
  | unbalancedHost
  | hostOfNoVersion
  | hostOfFourth
  | notAHost (text : String)
  | disguisedHost (host : String)
  | nulInPath
  | notWorkflows
  | refused (fault : DiskFault) (path : String)
  | mistyped
  | endless
  | abstract
  | unreadable
  | unloadable (fault : Yaml.Fault)
  | undecodable
  | stated (category : Category) (message : String)
deriving DecidableEq, Repr

namespace Cause

def category : Cause → Category
  | emptySegment _ => .composition
  | unknownName _ _ _ => .composition
  | hiddenAttribute _ => .lookup
  | noAttribute _ _ => .lookup
  | notAFragment _ => .composition
  | notALiteral _ => .composition
  | controlFlow => .composition
  | notAnOperator _ => .value
  | notAScriptLine _ => .composition
  | notRenderable _ => .composition
  | notAStep _ => .composition
  | builtNoStep _ => .composition
  | notAJob _ _ => .composition
  | builtNoJob _ _ => .composition
  | namelessWorkflow => .composition
  | optionsBesideTrigger => .composition
  | stepsAndUses _ => .job
  | neitherStepsNorUses _ => .job
  | noRunner _ => .job
  | repeatedStep _ _ => .step
  | invalidJob _ => .validation
  | invalidWorkflow _ => .validation
  | invalidWorkflows => .validation
  | sharedFileName _ _ _ => .workflow
  | notWritten _ _ _ => .write
  | noSuchKey _ => .key
  | badPairLength _ _ => .value
  | unbalancedHost => .value
  | hostOfNoVersion => .value
  | hostOfFourth => .value
  | notAHost _ => .value
  | disguisedHost _ => .value
  | nulInPath => .value
  | notWorkflows => .schema
  | refused fault _ => .disk fault
  | mistyped => .type
  | endless => .recursion
  | abstract => .unimplemented
  | unreadable => .unreadable
  | unloadable fault => .ofLoading fault
  | undecodable => .undecodable
  | stated category _ => category

def message : Cause → String
  | emptySegment shown => s!"Context path segments must be non-empty strings, got {shown}"
  | unknownName kind name declared =>
    let known := ", ".intercalate declared
    let known := if known.isEmpty then "(none)" else known
    s!"Unknown {kind} '{name}'. Declared: {known}"
  | hiddenAttribute name => name
  | noAttribute typeName name => s!"'{typeName}' object has no attribute '{name}'"
  | notAFragment typeName => s!"Cannot use a value of type {typeName} in an expression"
  | notALiteral typeName => s!"Cannot use a value of type {typeName} as an expression literal"
  | controlFlow =>
    "Expressions cannot be used in Python control flow.\n"
      ++ "They are rendered into the workflow and evaluated by the runner."
  | notAnOperator shown => s!"{shown} is not a valid Operator"
  | notAScriptLine typeName => s!"Cannot use a value of type {typeName} as a script line"
  | notRenderable typeName => s!"Cannot render a value of type {typeName}"
  | notAStep typeName => s!"Expected a Step or a step builder, got {typeName}"
  | builtNoStep typeName => s!"Step builder must return a Step, got {typeName}"
  | notAJob jobId typeName => s!"Expected a Job or a job builder for '{jobId}', got {typeName}"
  | builtNoJob jobId typeName => s!"Job builder for '{jobId}' must return a Job, got {typeName}"
  | namelessWorkflow => "A workflow needs a non-empty name"
  | optionsBesideTrigger =>
    "Options cannot be combined with a Trigger; pass them to the trigger factory"
  | stepsAndUses label => s!"The job '{label}' defines both 'steps' and 'uses'; only one is allowed."
  | neitherStepsNorUses label => s!"The job '{label}' requires either 'steps' or a 'uses' property."
  | noRunner label => s!"The job '{label}' is missing the following properties: 'runs-on'."
  | repeatedStep label stepId => s!"The job '{label}' has more than one step with id '{stepId}'."
  | invalidJob label => s!"Invalid Job configuration: '{label}'"
  | invalidWorkflow name => s!"Invalid workflow configuration: '{name}'"
  | invalidWorkflows => "Invalid workflows"
  | sharedFileName owner name fileName =>
    s!"The workflows '{owner}' and '{name}' both render to '{fileName}.yml'."
  | notWritten count total root => s!"Failed to write {count} of {total} workflow file(s) in {root}"
  | noSuchKey shown => shown
  | badPairLength position length =>
    s!"dictionary update sequence element #{position} has length {length}; 2 is required"
  | unbalancedHost => "Invalid IPv6 URL"
  | hostOfNoVersion => "IPvFuture address is invalid"
  | hostOfFourth => "An IPv4 address cannot be in brackets"
  | notAHost text => s!"{Text.quote text} does not appear to be an IPv4 or IPv6 address"
  | disguisedHost host => s!"netloc '{host}' contains invalid characters under NFKC normalization"
  | nulInPath => "embedded null byte"
  | notWorkflows => ""
  | refused fault path => s!"[Errno {fault.number}] {fault.text}: {Text.quote path}"
  | mistyped => ""
  | endless => ""
  | abstract => ""
  | unreadable => ""
  | unloadable fault => fault.message
  | undecodable => ""
  | stated .key message => Text.quote message
  | stated _ message => message

end Cause

inductive Failure
  | mk (cause : Cause) (children : List Failure)
deriving Repr

namespace Failure

def ofCause (cause : Cause) : Failure := .mk cause []

def cause : Failure → Cause
  | .mk cause _ => cause

def category (failure : Failure) : Category := failure.cause.category

def children : Failure → List Failure
  | .mk _ children => children

mutual

/-- The message, and below it a line for each child. -/
def report : Failure → String
  | .mk cause children =>
    if cause.category.isComposite then "\n".intercalate (cause.message :: childLines children)
    else cause.message

def childLines : List Failure → List String
  | [] => []
  | child :: rest => ("  - " ++ report child) :: childLines rest

end

/-- The failures themselves, with those that an aggregate sums up in the place of the aggregate. -/
def flatten (failures : List Failure) : List Failure :=
  failures.flatMap fun failure =>
    if failure.category == .validation then failure.children else [failure]

/-- An aggregate over failures that may be aggregates themselves. -/
def collect (cause : Cause) (failures : List Failure) : Failure := .mk cause (flatten failures)

end Failure

end WorkflowCompiler
