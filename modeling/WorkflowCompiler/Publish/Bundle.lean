import WorkflowCompiler.Publish.Destination
import WorkflowCompiler.Publish.Note
import WorkflowCompiler.Builder.Rendering

/-! Workflows bundled with the directory that they go to. -/

namespace WorkflowCompiler

structure Bundle where
  workflows : List Value
  root : Path
  /-- Whether the directory is emptied first. -/
  cleanup : Bool

namespace Bundle

def isWorkflow : Value → Bool
  | .workflow _ => true
  | _ => false

def record? (store : Store) : Value → Option Workflow
  | .workflow identity => some (store.workflow identity)
  | _ => none

/-- The names under which the workflows are shown. -/
def names (store : Store) (bundle : Bundle) : List Value :=
  (bundle.workflows.filterMap (record? store)).map Workflow.name

/-- The bundle in one line; file names that are no texts have none. -/
def text (store : Store) (bundle : Bundle) : Except Failure String :=
  let fileNames := (bundle.workflows.filterMap (record? store)).map Workflow.fileName
  match fileNames.mapM Value.chars? with
  | some fileNames =>
    let listed := ", ".intercalate fileNames
    .ok s!"WorkflowOutput({listed}) -> {bundle.root.text}"
  | none => .error (.ofCause .mistyped)

end Bundle

namespace Publish

/-- Bundles workflows with the directory that `root` names, or with the usual one. -/
def bundle (surroundings : Surroundings) (store : Store) (workflows : List Value)
    (root : Option String) (cleanup : Bool) : List Note × Except Failure Bundle :=
  let noted := match root, rootSetting? surroundings with
    | none, some setting => [Note.rootSetting setting]
    | _, _ => []
  match resolveRoot surroundings root with
  | .error failure => (noted, .error failure)
  | .ok root =>
    if !workflows.all Bundle.isWorkflow then (noted, .error (.ofCause .notWorkflows))
    else
      let bundle := ⟨workflows, root, cleanup⟩
      match Bundle.text store bundle with
      | .error failure => (noted, .error failure)
      | .ok text => (noted ++ [.bundled text], .ok bundle)

end Publish

end WorkflowCompiler
