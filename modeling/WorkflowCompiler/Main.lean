import WorkflowCompiler.Command.Terminal

/-! The program. It publishes the workflows that it is built with. -/

namespace WorkflowCompiler

/-- The workflows that the program publishes. -/
def published : List Recipe := []

end WorkflowCompiler

def main (arguments : List String) : IO UInt32 :=
  WorkflowCompiler.Terminal.run WorkflowCompiler.published arguments
