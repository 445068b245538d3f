import WorkflowCompiler.Builder.Rendering
import WorkflowCompiler.Script.Recipe

/-! The state in which values are built: the store, the functions and named registers, and what
was printed. What a failing operation did before it failed stays done. -/

namespace WorkflowCompiler

/-- What a function is called with: names for a callback to refer to, or an object to complete. -/
inductive Ambient
  | names (known : Known)
  | object (value : Value)

inductive Closure
  | callback (body : Recipe)
  | builder (ambient : Ambient) (operations : List Operation) (result : Option Recipe)

structure Workspace where
  store : Store := {}
  closures : List Closure := []
  registers : List (String × Value) := []
  /-- How many values with an identity, but without a place in the store, there are. -/
  identities : Nat := 0
  debug : Bool := false
  printed : String := ""

abbrev Build := ExceptT Failure (StateM Workspace)

/-- How a function is called. -/
abbrev Call := Nat → Ambient → Build Value

namespace Build

def fail (cause : Cause) : Build α := throw (.ofCause cause)

def ofExcept : Except Failure α → Build α
  | .ok value => pure value
  | .error failure => throw failure

/-- Asks the store. -/
def ask (question : Store → Except Failure α) : Build α := do ofExcept (question (← get).store)

def store : Build Store := return (← get).store

def modifyStore (change : Store → Store) : Build Unit :=
  modify fun workspace => { workspace with store := change workspace.store }

def newIdentity : Build Nat := do
  let identity := (← get).identities
  modify fun workspace => { workspace with identities := identity + 1 }
  return identity

def newExpression (expression : Expression) : Build Nat := do
  let identity := (← store).expressions.length
  modifyStore fun store => { store with expressions := store.expressions ++ [expression] }
  return identity

def newStep (step : Step) : Build Nat := do
  let identity := (← store).steps.length
  modifyStore fun store => { store with steps := store.steps ++ [step] }
  return identity

def newJob (job : Job) : Build Nat := do
  let identity := (← store).jobs.length
  modifyStore fun store => { store with jobs := store.jobs ++ [job] }
  return identity

def newWorkflow (workflow : Workflow) : Build Nat := do
  let identity := (← store).workflows.length
  modifyStore fun store => { store with workflows := store.workflows ++ [workflow] }
  return identity

def newFunction (closure : Closure) : Build Value := do
  let identity := (← get).closures.length
  modify fun workspace => { workspace with closures := workspace.closures ++ [closure] }
  return .function identity

def modifyExpression (identity : Nat) (change : Expression → Expression) : Build Unit :=
  modifyStore fun store => { store with expressions := store.expressions.modify identity change }

def modifyStep (identity : Nat) (change : Step → Step) : Build Unit :=
  modifyStore fun store => { store with steps := store.steps.modify identity change }

def modifyJob (identity : Nat) (change : Job → Job) : Build Unit :=
  modifyStore fun store => { store with jobs := store.jobs.modify identity change }

def modifyWorkflow (identity : Nat) (change : Workflow → Workflow) : Build Unit :=
  modifyStore fun store => { store with workflows := store.workflows.modify identity change }

/-- Prints a line if debug output is on. The line is made in either case, and may fail to be. -/
def debugLine (line : Build String) : Build Unit := do
  let line ← line
  if (← get).debug then
    modify fun workspace => { workspace with printed := workspace.printed ++ s!"[debug] {line}\n" }

end Build

end WorkflowCompiler
