import WorkflowCompiler.Path.Address
import WorkflowCompiler.Text.Blank
import WorkflowCompiler.Text.Lines
import WorkflowCompiler.Disk

/-! Where workflow files go: the directory that was named, or else that of a setting, or else the
usual one in the repository. -/

namespace WorkflowCompiler

/-- How the version control ends when it is asked for the top of the repository: with what it
prints, without an answer - there is no repository, or no version control, or it takes too long -, or
with a failure to run it. -/
inductive TopAnswer
  | printed (text : String)
  | none
  | failed (failure : Failure)

/-- What a run finds about itself. -/
structure Surroundings where
  /-- The current directory. -/
  current : Place
  /-- The setting for the directory of all workflow files. -/
  rootSetting : Option String := none
  repository : TopAnswer := .none

namespace Surroundings

def currentPath (surroundings : Surroundings) : Path := ⟨.single, surroundings.current⟩

def repositoryPath? (surroundings : Surroundings) : Except Failure (Option Path) :=
  match surroundings.repository with
  | .printed text => .ok (some (Path.ofText (String.ofList (Text.trim (Text.plainBreaks text.toList)))))
  | .none => .ok none
  | .failed failure => .error failure

/-- The top of the repository; outside of one the current directory. -/
def base (surroundings : Surroundings) : Except Failure Path := do
  return (← surroundings.repositoryPath?).getD surroundings.currentPath

end Surroundings

namespace Publish

def workflowsPlace : Path := Path.ofText ".github/workflows"

/-- An absolute path stays as it is; a relative one is resolved in the current directory. -/
def resolvePath (surroundings : Surroundings) (path : Path) : Except Failure Path :=
  if path.isAbsolute then .ok path
  else if Disk.holdsNul path then .error (.ofCause .nulInPath)
  else .ok (surroundings.currentPath.join path).resolved

/-- The directory that a text names, as a path or a `file:` address. -/
def resolveText (surroundings : Surroundings) (text : String) : Except Failure Path := do
  if Address.isFileAddress text then
    resolvePath surroundings (Path.ofText (← Address.pathText text))
  else resolvePath surroundings (Path.ofText text)

/-- The setting that is in force; an empty one is none. -/
def rootSetting? (surroundings : Surroundings) : Option String :=
  surroundings.rootSetting.filter (!·.isEmpty)

/-- The directory in which workflow files go, if `root` does not name one. -/
def resolveRoot (surroundings : Surroundings) (root : Option String) : Except Failure Path :=
  match root <|> rootSetting? surroundings with
  | some text => resolveText surroundings text
  | none => surroundings.base.map (·.join workflowsPlace)

end Publish

end WorkflowCompiler
