/-! Paths of files. A path is kept in normal form: single slashes, no component `.`. Components
`..` stay, for what they lead to is known only on disk. Two slashes at the front, and no more than
two, are a root of their own. -/

namespace WorkflowCompiler

inductive PathRoot
  | relative
  | single
  | double
deriving DecidableEq, Repr

structure Path where
  root : PathRoot
  parts : List String
deriving DecidableEq, Repr

namespace Path

def rootOf : List Char → PathRoot
  | '/' :: '/' :: '/' :: _ => .single
  | '/' :: '/' :: _ => .double
  | '/' :: _ => .single
  | _ => .relative

def isPart (part : String) : Bool := part != "" && part != "."

def ofText (text : String) : Path :=
  ⟨rootOf text.toList, ((text.toList.splitOn '/').map String.ofList).filter isPart⟩

def rootText : PathRoot → String
  | .relative => ""
  | .single => "/"
  | .double => "//"

def text (path : Path) : String :=
  let written := rootText path.root ++ "/".intercalate path.parts
  if written.isEmpty then "." else written

def isAbsolute (path : Path) : Bool := path.root != .relative

/-- The other path if it is absolute, else its components below this one. -/
def join (path other : Path) : Path :=
  if other.isAbsolute then other else { path with parts := path.parts ++ other.parts }

/-- The path of what is directly below. -/
def child (path : Path) (name : String) : Path := { path with parts := path.parts ++ [name] }

def parent (path : Path) : Path := { path with parts := path.parts.dropLast }

/-- Goes up for each component `..`; above the root there is only the root. -/
def climb (found : List String) : List String → List String
  | [] => found
  | ".." :: rest => climb found.dropLast rest
  | part :: rest => climb (found ++ [part]) rest

/-- The path without components `..`. -/
def resolved (path : Path) : Path := { path with parts := climb [] path.parts }

theorem not_mem_climb (found parts : List String) (absent : ".." ∉ found) :
    ".." ∉ climb found parts := by
  fun_induction climb found parts with
  | case1 => exact absent
  | case2 found rest ih => exact ih fun member => absent (List.dropLast_subset _ member)
  | case3 found part rest other ih => exact ih (by grind)

/-- What is resolved leads straight down. -/
theorem not_mem_parts_resolved (path : Path) : ".." ∉ path.resolved.parts :=
  not_mem_climb [] path.parts (by simp)

end Path

end WorkflowCompiler
