import WorkflowCompiler.Builder.Store
import WorkflowCompiler.Builder.Event

/-! Values as text: as they read inside a text, and as messages show them. -/

namespace WorkflowCompiler

/-- An object of the store. -/
inductive Target
  | expression (identity : Nat)
  | step (identity : Nat)
  | job (identity : Nat)
  | workflow (identity : Nat)
deriving DecidableEq, Repr

def dotted (segments : List Label) : String := ".".intercalate (segments.map Label.chars)

namespace Store

/-- The text of an expression: its fragments one after the other. -/
def expressionTextWithin (store : Store) : Nat → Nat → Except Failure String
  | 0, _ => .error (.ofCause .endless)
  | hops + 1, identity => do
    let parts ← (store.expression identity).contents.mapM fun
      | .text value => pure value
      | .path segments => pure (dotted segments)
      | .nested inner => store.expressionTextWithin hops inner
    return String.join parts

def expressionText (store : Store) (identity : Nat) : Except Failure String :=
  store.expressionTextWithin (store.size + 1) identity

end Store

namespace Value

def boolWord (value : Bool) : String := if value then "True" else "False"

/-- A byte inside quotes. -/
def byteText (value : Nat) : List Char :=
  let c := Char.ofNat value
  if value < 0x7F then Text.quoteChar '\'' c else Text.codeEscape c

def shownSettings (names shown : List String) : List String :=
  List.zipWith (fun name text => s!"{name}={text}") names shown

mutual

/-- A value as messages show it; `visit` shows the objects. -/
def shownWith (visit : Target → Except Failure String) : Value → Except Failure String
  | .null => .ok "None"
  | .bool value => .ok (boolWord value)
  | .int value => .ok (toString value)
  | .float value => .ok value.text
  | .text value => .ok (Text.quote value)
  | .choice value => .ok s!"<{value.label}: {Text.quote value.text}>"
  | .bytes values => .ok ("b'" ++ String.ofList (values.flatMap byteText) ++ "'")
  | .file name => .ok s!"PurePosixPath({Text.quote name})"
  | .list items => do return "[" ++ ", ".intercalate (← shownItems visit items) ++ "]"
  | .tuple [item] => do return "(" ++ (← shownWith visit item) ++ ",)"
  | .tuple items => do return "(" ++ ", ".intercalate (← shownItems visit items) ++ ")"
  | .map entries => do return "\x7b" ++ ", ".intercalate (← shownEntries visit entries) ++ "\x7d"
  | .path segments => .ok s!"ContextPath({dotted segments})"
  | .pathLike _ _ => .ok "<Ref>"
  | .foreign _ name => .ok s!"<{name}>"
  | .expression identity => visit (.expression identity)
  | .step identity => visit (.step identity)
  | .job identity => visit (.job identity)
  | .workflow identity => visit (.workflow identity)
  | .command line _ _ => do return s!"Command({← shownWith visit line})"
  | .event kind settings => do
    let shown ← shownItems visit settings
    return s!"{kind.typeName}(" ++ ", ".intercalate (shownSettings kind.settingNames shown) ++ ")"
  | .input kind settings => do
    let shown ← shownItems visit settings
    return s!"{kind.typeName}(" ++ ", ".intercalate (shownSettings kind.settingNames shown) ++ ")"
  | .function _ => .ok "<function>"
  | .failure _ value => .ok s!"{value.category.name}({Text.quote value.cause.message})"

def shownItems (visit : Target → Except Failure String) : List Value → Except Failure (List String)
  | [] => .ok []
  | value :: rest => do return (← shownWith visit value) :: (← shownItems visit rest)

def shownEntries (visit : Target → Except Failure String) :
    List (Value × Value) → Except Failure (List String)
  | [] => .ok []
  | entry :: rest => do return (← shownEntry visit entry) :: (← shownEntries visit rest)

def shownEntry (visit : Target → Except Failure String) : Value × Value → Except Failure String
  | (key, value) => do return (← shownWith visit key) ++ ": " ++ (← shownWith visit value)

end

end Value

namespace Store

/-- A value as it reads inside a text, if messages show it as `shown` does. -/
def wordingWith (store : Store) (shown : Value → Except Failure String) :
    Value → Except Failure String
  | .text value => .ok value
  | .choice value => .ok value.label
  | .file path => .ok path
  | .path segments => .ok (dotted segments)
  | .expression identity => store.expressionText identity
  | .command line _ _ =>
    match line with
    | .text value => .ok value
    | .choice value => .ok value.label
    | _ => .error (.ofCause .mistyped)
  | .failure _ value => .ok value.report
  | value => shown value

/-- An object as messages show it. -/
def shownWithin (store : Store) : Nat → Target → Except Failure String
  | 0, _ => .error (.ofCause .endless)
  | hops + 1, target => do
    let shown := Value.shownWith (store.shownWithin hops)
    let wording := store.wordingWith shown
    match target with
    | .expression identity => return s!"Expression({← store.expressionText identity})"
    | .step identity => return s!"Step({← shown (store.step identity).label})"
    | .job identity =>
      let job := store.job identity
      return s!"Job(name={← shown (job.fields .name)}, steps={job.steps.length})"
    | .workflow identity =>
      let workflow := store.workflow identity
      let events := ", ".intercalate (workflow.events.map Prod.fst)
      let events := if events.isEmpty then "-" else events
      return s!"Workflow({← wording workflow.name}) - {workflow.jobs.length} job(s), on: {events} -> "
        ++ s!"{← wording workflow.fileName}.yml"

def shown (store : Store) (value : Value) : Except Failure String :=
  value.shownWith (store.shownWithin (store.size + 1))

/-- A value as it reads inside a text. -/
def wording (store : Store) (value : Value) : Except Failure String :=
  store.wordingWith store.shown value

end Store

end WorkflowCompiler
