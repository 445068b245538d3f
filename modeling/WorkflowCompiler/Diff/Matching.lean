/-! Lines that two texts have in common. The longest run of common lines is matched first, the
earliest of several, and then the parts before and after it in the same way. In a text of two
hundred lines or more a line that keeps recurring starts no run, though it may extend one. -/

namespace WorkflowCompiler.Diff

/-- Lengths of the common runs that end at one line of the first text and each line of the
second, computed from those for the line before. `above` is the length for one column back. -/
def nextRow (line : String) : Nat → List String → List Nat → List Nat
  | _, [], _ => []
  | above, other :: others, row =>
    (if line == other then above + 1 else 0) :: nextRow line (row.headD 0) others (row.drop 1)

/-- A run of common lines: where it starts in each text and how long it is. -/
structure Run where
  first : Nat
  second : Nat
  size : Nat
deriving Repr, DecidableEq

/-- Keeps the longest run seen; `row` holds the lengths of the runs that end at line `line`. -/
def improve (line : Nat) : Nat → List Nat → Run → Run
  | _, [], best => best
  | column, size :: row, best =>
    let best := if size > best.size then ⟨line + 1 - size, column + 1 - size, size⟩ else best
    improve line (column + 1) row best

def longestFrom (starts : String → Bool) (second : List String) :
    Nat → List String → List Nat → Run → Run
  | _, [], _, best => best
  | line, current :: rest, row, best =>
    let row := if starts current then nextRow current 0 second row else []
    longestFrom starts second (line + 1) rest row (improve line 0 row best)

/-- How many lines two lists have in common at the front. -/
def commonLength : List String → List String → Nat
  | left :: lefts, right :: rights => if left == right then commonLength lefts rights + 1 else 0
  | _, _ => 0

/-- Extends a run over equal lines on both sides. -/
def Run.widen (first second : List String) (run : Run) : Run :=
  let before := commonLength (first.take run.first).reverse (second.take run.second).reverse
  let after := commonLength (first.drop (run.first + run.size)) (second.drop (run.second + run.size))
  ⟨run.first - before, run.second - before, before + run.size + after⟩

def longest (starts : String → Bool) (first second : List String) : Run :=
  (longestFrom starts second 0 first [] ⟨0, 0, 0⟩).widen first second

/-- A stretch of lines that both texts have, or one that differs. -/
inductive Edit
  | keep (lines : List String)
  | change (removed added : List String)
deriving Repr, DecidableEq

/-- Puts an edit in front; neighbours that are kept become one stretch. -/
def Edit.join : Edit → List Edit → List Edit
  | .keep [], rest => rest
  | .keep lines, .keep more :: rest => .keep (lines ++ more) :: rest
  | .change [] [], rest => rest
  | edit, rest => edit :: rest

/-- The edits from `first` to `second`, followed by `rest`. -/
def editsFrom (starts : String → Bool) (first second : List String) (rest : List Edit) : List Edit :=
  let run := longest starts first second
  if _inside : run.first < first.length ∧ 0 < run.size then
    let after := editsFrom starts (first.drop (run.first + run.size)) (second.drop (run.second + run.size)) rest
    let kept := Edit.join (.keep ((first.drop run.first).take run.size)) after
    editsFrom starts (first.take run.first) (second.take run.second) kept
  else Edit.join (.change first second) rest
termination_by first.length
decreasing_by
  · simp only [run] at _inside
    simp only [List.length_drop]
    omega
  · simp only [run] at _inside
    simp only [List.length_take]
    omega

/-- Whether a line may start a common run, given the whole second text. -/
def mayStart (second : List String) (line : String) : Bool :=
  second.length < 200 || second.count line ≤ second.length / 100 + 1

def edits (first second : List String) : List Edit :=
  editsFrom (mayStart second) first second []

end WorkflowCompiler.Diff
