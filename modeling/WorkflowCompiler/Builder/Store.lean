import WorkflowCompiler.Builder.Workflow

/-! The objects under construction. Each is named by its place; an object named in several
places is shared, so that a change shows in all of them. -/

namespace WorkflowCompiler

/-- A piece of an expression. -/
inductive Fragment
  | text (value : String)
  | path (segments : List Label)
  | nested (expression : Nat)
deriving DecidableEq, Repr

/-- An expression is compound if a binary operator built it: it needs parentheses as an operand. -/
structure Expression where
  contents : List Fragment := []
  compound : Bool := false
deriving Inhabited, Repr

structure Store where
  expressions : List Expression := []
  steps : List Step := []
  jobs : List Job := []
  workflows : List Workflow := []

namespace Store

def expression (store : Store) (identity : Nat) : Expression := store.expressions.getD identity {}

def step (store : Store) (identity : Nat) : Step := store.steps.getD identity {}

def job (store : Store) (identity : Nat) : Job := store.jobs.getD identity {}

def workflow (store : Store) (identity : Nat) : Workflow :=
  store.workflows.getD identity { name := .null, fileName := .null }

/-- How many objects there are. A chain of references that is longer runs in a circle. -/
def size (store : Store) : Nat :=
  store.expressions.length + store.steps.length + store.jobs.length + store.workflows.length

def jobSteps (store : Store) (job : Job) : List Step := job.steps.map store.step

def stepIds (store : Store) (job : Job) : List Value :=
  ((store.jobSteps job).map Step.id).filter fun id => !id.isNull

/-- The outputs that each step with an id sets; of two steps with one id the later counts. The
outputs of a step are a set, and what cannot be a key cannot be in one either. -/
def stepOutputs (store : Store) (job : Job) : Except Failure (List (Value × List Value)) :=
  let named := (store.jobSteps job).filter fun step => !step.id.isNull
  if !named.all (·.outputs.all Value.isKey) then .error (.ofCause .mistyped)
  else Value.ofEntries (named.map fun step => (step.id, step.outputs))

/-- What callbacks of the job may refer to. -/
def knownNames (store : Store) (job : Job) : Except Failure Known := do
  let outputs ← store.stepOutputs job
  return {
    axes := job.axes
    needs := some job.neededJobs
    steps := some (outputs.map Prod.fst)
    services := some job.services }

/-- The job ids of a workflow with the needed ids that it has no job for. -/
def danglingNeeds (store : Store) (workflow : Workflow) : List (Value × String) :=
  workflow.jobs.flatMap fun (jobId, job) =>
    ((store.job job).neededJobs.filter fun needed =>
      !workflow.jobs.any fun (other, _) => Value.equals (.text needed) other).map (jobId, ·)

end Store

end WorkflowCompiler
