import WorkflowCompiler.Diff.Matching

/-! Hunks: the differing stretches with up to three lines of context. Stretches closer than
six kept lines share a hunk. -/

namespace WorkflowCompiler.Diff

inductive Line
  | kept (text : String)
  | removed (text : String)
  | added (text : String)
deriving Repr, DecidableEq

def context : Nat := 3

def Edit.lines : Edit → List Line
  | .keep texts => texts.map .kept
  | .change removed added => removed.map .removed ++ added.map .added

def lastOf (count : Nat) (texts : List String) : List String := texts.drop (texts.length - count)

/-- Hunks of the edits after a first change; `current` is the hunk under way. -/
def hunksAfter (current : List Line) : List Edit → List (List Line)
  | [] => [current]
  | [.keep texts] => [current ++ (Edit.keep (texts.take context)).lines]
  | .keep texts :: rest =>
    if texts.length > 2 * context then
      (current ++ (Edit.keep (texts.take context)).lines)
        :: hunksAfter (Edit.keep (lastOf context texts)).lines rest
    else hunksAfter (current ++ (Edit.keep texts).lines) rest
  | edit :: rest => hunksAfter (current ++ edit.lines) rest

def hunks : List Edit → List (List Line)
  | [] => []
  | [.keep _] => []
  | .keep texts :: rest => hunksAfter (Edit.keep (lastOf context texts)).lines rest
  | edits => hunksAfter [] edits

end WorkflowCompiler.Diff
