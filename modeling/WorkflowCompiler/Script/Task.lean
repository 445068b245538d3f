import WorkflowCompiler.Script.Report
import WorkflowCompiler.Publish.Checking

/-! Tasks on a disk, one after the other. A failing task neither ends the run nor undoes what was
done. The workflows of each task are made anew. -/

namespace WorkflowCompiler

/-- The directory of a task: a path as it is, or a text that is resolved first. -/
inductive Task
  | generate (workflows : List Recipe) (root : Path) (cleanup : Bool)
  | check (workflows : List Recipe) (root : Path)
  | generateBundle (workflows : List Recipe) (root : String) (cleanup : Bool)
  | checkBundle (workflows : List Recipe) (root : String)
  | read (root : Path)
  | write (path : Path) (text : String)
  | remove (path : Path)
  | list (base : Place)

namespace Task

/-- The entries below a place, apart from the current directory, by their paths from there. -/
def listing (disk : Disk) (current base : Place) : View :=
  .list (((disk.below base).filter fun (place, _) => base ++ place != current).map
    fun (place, entry) =>
      let path := "/".intercalate place
      match entry with
      | .file (.text text) => .list [.text path, .text (String.ofList (Text.plainBreaks text.toList))]
      | .file (.bytes _ _) => .list [.text path, .failure (.ofCause .undecodable)]
      | .directory => .list [.text (path ++ "/"), .null])

/-- Makes workflows and hands them on with the store that holds them. -/
def withWorkflows (recipes : List Recipe) (next : Store → List Value → Except Failure α) :
    Except Failure α :=
  let (workflows, workspace) := (Build.workflows recipes).run {}
  workflows.bind (next workspace.store)

def run (surroundings : Surroundings) (disk : Disk) : Task → Disk × Except Failure View
  | generate workflows root cleanup =>
    settled <| withWorkflows workflows fun store workflows =>
      .ok (Publish.generate store surroundings.current disk workflows root cleanup)
  | generateBundle workflows root cleanup =>
    settled <| withWorkflows workflows fun store workflows => do
      let bundle ← (Publish.bundle surroundings store workflows (some root) cleanup).2
      return Publish.generate store surroundings.current disk bundle.workflows bundle.root
        bundle.cleanup
  | check workflows root =>
    (disk, withWorkflows workflows fun store workflows => do
      return .text (← Publish.check store surroundings.current disk workflows root))
  | checkBundle workflows root =>
    (disk, withWorkflows workflows fun store workflows => do
      let bundle ← (Publish.bundle surroundings store workflows (some root) false).2
      return .text (← Publish.check store surroundings.current disk bundle.workflows bundle.root))
  | read root =>
    (disk, do
      let files ← Publish.readFiles disk surroundings.current root
      return .map (files.map fun (name, tree) => (.text name, .ofTree tree)))
  | write path text =>
    match disk.makePath surroundings.current true path.parent with
    | (disk, .error failure) => (disk, .error failure)
    | (disk, .ok ()) =>
      match disk.write surroundings.current path text with
      | .ok disk => (disk, .ok .null)
      | .error failure => (disk, .error failure)
  | remove path =>
    match disk.locate surroundings.current path with
    | .error fault => (disk, .error (Disk.refusal fault path))
    | .ok place =>
      match disk.find place with
      | none => (disk, .error (Disk.refusal .noEntry path))
      | some _ => (disk.erase place, .ok .null)
  | list base => (disk, .ok (listing disk surroundings.current base))
where
  settled : Except Failure Publish.Outcome → Disk × Except Failure View
    | .error failure => (disk, .error failure)
    | .ok outcome => (outcome.disk, outcome.result.map fun () => .null)

def runAll (surroundings : Surroundings) (disk : Disk) : List Task → List (Except Failure View)
  | [] => []
  | task :: rest =>
    let (disk, result) := task.run surroundings disk
    result :: runAll surroundings disk rest

end Task

end WorkflowCompiler
