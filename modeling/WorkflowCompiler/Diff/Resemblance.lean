import WorkflowCompiler.Diff.Matching

/-! How alike two names are: twice the characters that they have in common, against all that they
have. -/

namespace WorkflowCompiler.Diff

def letters (name : String) : List String := name.toList.map String.singleton

def keptOf : Edit → List String
  | .keep lines => lines
  | .change _ _ => []

/-- A part of a whole. -/
structure Share where
  part : Nat
  whole : Nat
deriving Repr, DecidableEq

def resemblance (name other : String) : Share :=
  ⟨2 * ((edits (letters name) (letters other)).flatMap keptOf).length, name.length + other.length⟩

/-- Whether the names are alike enough to take one for a slip in the other: three fifths. -/
def Share.isClose (share : Share) : Bool := 3 * share.whole ≤ 5 * share.part

/-- The more alike comes first; of equals the later name. -/
def closer (left right : String × Share) : Bool :=
  let above := right.2.part * left.2.whole
  let below := left.2.part * right.2.whole
  above < below || (above == below && decide (right.1 ≤ left.1))

/-- At most three names that are like the given one, in the order of their characters. -/
def similarNames (name : String) (names : List String) : List String :=
  let close := (names.map fun other => (other, resemblance other name)).filter (·.2.isClose)
  (((close.mergeSort closer).take 3).map Prod.fst).mergeSort fun left right => decide (left ≤ right)

end WorkflowCompiler.Diff
