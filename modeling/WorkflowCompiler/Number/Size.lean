import WorkflowCompiler.Number.Binary64

/-! Sizes of numbers, by which numbers of different kinds are compared. A truth value counts as
zero or one, a whole float as an integer. -/

namespace WorkflowCompiler

inductive Size
  | whole (value : Int)
  | broken (value : Binary64)
deriving Repr

namespace Size

def ofBool (value : Bool) : Size := .whole (if value then 1 else 0)

def ofFloat (value : Binary64) : Size :=
  match value.toInt? with
  | some integer => .whole integer
  | none => .broken value

def equals : Size → Size → Bool
  | .whole left, .whole right => left == right
  | .broken left, .broken right => left.equals right
  | _, _ => false

end Size

end WorkflowCompiler
