import WorkflowCompiler.Value

/-! Names that a job has declared so far. Callbacks may refer to these only; a kind of name that
is not tracked is not checked. -/

namespace WorkflowCompiler

structure Known where
  axes : Option (List String) := none
  needs : Option (List String) := none
  steps : Option (List Value) := none
  services : Option (List String) := none
deriving Inhabited, Repr

/-- The roots of the runner's data. -/
def contextRoots : List String :=
  ["github", "env", "vars", "job", "jobs", "steps", "runner", "secrets", "strategy", "matrix",
    "needs", "inputs"]

end WorkflowCompiler
