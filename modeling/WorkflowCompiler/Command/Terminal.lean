import WorkflowCompiler.Command.Run
import WorkflowCompiler.Script.Report

/-! Runs a command line on the disk of this machine. What a run may look at is read first: the
directories that arguments and settings name, with what is directly in them. The run itself is
computed, and then what it changed is written. -/

namespace WorkflowCompiler.Terminal

def pathText (place : Place) : String := Path.text ⟨.single, place⟩

/-- What the file at a place holds. -/
def readContent (place : Place) : IO Content := do
  let bytes ← IO.FS.readBinFile ((← IO.currentDir) / pathText place)
  if noText : ¬ bytes.IsValidUTF8 then return .bytes bytes noText
  else return .text (String.ofByteArray bytes (Decidable.not_not.mp noText))

/-- The entry of a place, and the entries directly in it. -/
def readPlace (place : Place) : IO (List (Place × Entry)) := do
  let path := (← IO.currentDir) / pathText place
  if ← path.isDir then
    let inner ← (← path.readDir).toList.mapM fun child => do
      let inner := place ++ [child.fileName]
      if ← child.path.isDir then return (inner, Entry.directory)
      return (inner, Entry.file (← readContent inner))
    return (place, .directory) :: inner
  else if ← path.pathExists then return [(place, .file (← readContent place))]
  else return []

/-- The places on the way to a place, from the root on. -/
def wayTo (place : Place) : List Place := (List.range place.length).map place.take

/-- The directories on the way to a place. -/
def readWay (place : Place) : IO (List (Place × Entry)) := do
  let found ← (wayTo place).mapM fun way => do
    let path := (← IO.currentDir) / pathText way
    if ← path.isDir then return [(way, Entry.directory)]
    else if ← path.pathExists then return [(way, Entry.file (.text ""))]
    else return []
  return found.flatten

/-- The disk as far as it can be seen from the given places. -/
def readDisk (places : List Place) : IO Disk := do
  let ways ← places.mapM readWay
  let entries ← places.mapM readPlace
  return (ways.flatten ++ entries.flatten).foldl (fun disk (place, entry) => disk.put place entry) {}

/-- The places that a run may look at. -/
def places (surroundings : Surroundings) (arguments : List String) : List Place :=
  let named := arguments.flatMap fun argument =>
    argument :: (Command.splitArgument argument).2.toList
  let resolved := (surroundings.rootSetting.toList ++ named).filterMap fun text =>
    (Publish.resolveText surroundings text).toOption
  let usual := surroundings.base.toOption.toList.flatMap fun base =>
    [Publish.workflowsPlace, Command.defaultConfig].map base.join
  (surroundings.currentPath :: usual ++ resolved).map fun path => path.resolved.parts

/-- The nearest directory upwards that holds a repository. -/
def repository (current : Place) : IO TopAnswer := do
  let tops ← (current :: (wayTo current).reverse).filterM fun place => do
    ((← IO.currentDir) / pathText (place ++ [".git"])).pathExists
  return tops.head?.elim .none fun top => .printed (pathText top)

/-- Brings the disk of the machine from one state to the other. -/
def writeChanges (before after : Disk) : IO Unit := do
  let here ← IO.currentDir
  for (place, entry) in before.sorted do
    if (after.find place).isNone then
      let path := here / pathText place
      if Disk.isFile entry then IO.FS.removeFile path
      else if ← path.isDir then IO.FS.removeDirAll path
  for (place, entry) in after.sorted do
    if before.find place != some entry then
      let path := here / pathText place
      match entry with
      | .directory => IO.FS.createDir path
      | .file (.text text) => IO.FS.writeFile path text
      | .file (.bytes bytes _) => IO.FS.writeBinFile path bytes

/-- Runs a command line for workflows; the configuration file, where there is one, stands for
them. -/
def run (recipes : List Recipe) (arguments : List String) : IO UInt32 := do
  let current := (Path.ofText (← IO.currentDir).toString).parts
  let rootSetting ← IO.getEnv "WFCOMPOSE_ROOT"
  let surroundings : Surroundings := { current, rootSetting, repository := ← repository current }
  let places := places surroundings arguments
  let disk ← readDisk places
  let (made, workspace) := (Build.workflows recipes).run {}
  let workflows ← match made with
    | .ok workflows => pure workflows
    | .error failure => throw (IO.userError failure.report)
  let scene : Command.Scene := {
    surroundings
    store := workspace.store
    exposures := places.map (·, .listed workflows) }
  let (after, reply) := Command.run scene disk arguments
  writeChanges disk after
  IO.print reply.output
  match reply.crash with
  | some failure => IO.eprintln s!"{failure.category.name}: {failure.report}"
  | none => pure ()
  return reply.exit.toUInt32

end WorkflowCompiler.Terminal
