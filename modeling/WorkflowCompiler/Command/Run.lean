import WorkflowCompiler.Command.Console
import WorkflowCompiler.Command.Usage
import WorkflowCompiler.Publish.Checking

/-! The commands: to write the workflow files, or to check that they are up to date. Which
workflows there are, a configuration file tells. -/

namespace WorkflowCompiler.Command

/-- What a configuration file defines. -/
inductive Exposure
  | listed (workflows : List Value)
  | bundled (workflows : List Value) (root : Option String) (cleanup : Bool)
  | nothing

/-- What a command is run in, apart from the disk. -/
structure Scene where
  surroundings : Surroundings
  store : Store := {}
  exposures : List (Place × Exposure) := []
  /-- The emoji that the console shows for a name between colons. -/
  emoji : Emoji := fun _ => none

structure Reply where
  exit : Nat
  output : String
  /-- The fault that no command answers for. -/
  crash : Option Failure := none

/-- Why a command ends before its work is done. -/
inductive Ending
  | misused (fault : UsageFault)
  | refused (message : String)
  | failed (failure : Failure)
  | crashed (failure : Failure)

def defaultConfig : Path := Path.ofText ".github/wfcompose.py"

/-- The configuration file; an empty text names none. -/
def configPath (surroundings : Surroundings) (given : Option String) : Except Failure Path :=
  match given.filter (!·.isEmpty) with
  | some text => .ok (Path.ofText text)
  | none => surroundings.base.map (·.join defaultConfig)

/-- What the configuration file at a path defines. -/
def load (scene : Scene) (disk : Disk) (path : Path) : List Note × Except Ending Bundle :=
  let current := scene.surroundings.current
  match disk.isAt current path Disk.isFile, disk.locate current path with
  | .error failure, _ => ([], .error (.crashed failure))
  | .ok true, .ok place =>
    if !path.text.endsWith ".py" then
      ([], .error (.refused s!"Cannot load config file: {path.text}"))
    else
      let define (workflows : List Value) (root : Option String) (cleanup : Bool) :=
        let (notes, bundle) := Publish.bundle scene.surroundings scene.store workflows root cleanup
        (.loading path :: notes, bundle.mapError Ending.crashed)
      let unusable := ([Note.loading path], .error (.refused
        (path.text ++ " must define \x60workflows\x60 as define_workflows(...) or a list of Workflow objects")))
      match scene.exposures.lookup place with
      | some (.bundled workflows root cleanup) => define workflows root cleanup
      | some (.listed workflows) =>
        if workflows.all Bundle.isWorkflow then define workflows none false else unusable
      | _ => unusable
  | _, _ => ([], .error (.refused s!"Config file not found: {path.text}"))

/-- The workflows and their directory, as the configuration file and the switches have it. -/
def choose (scene : Scene) (disk : Disk) (parsed : Parsed) : List Note × Except Ending Bundle :=
  match configPath scene.surroundings (parsed.text? .config) with
  | .error failure => ([], .error (.crashed failure))
  | .ok config =>
    let (notes, loaded) := load scene disk config
    (notes, do
      let bundle ← loaded
      let root ← match parsed.text? .root with
        | some text => (Publish.resolveText scene.surroundings text).mapError Ending.crashed
        | none => pure bundle.root
      return { bundle with root, cleanup := (parsed.flag? .clean).getD bundle.cleanup })

/-- A failure that a command reports; any other is left to whoever called it. -/
def ending (failure : Failure) : Ending :=
  match failure.category with
  | .disk _ => .failed failure
  | .system => .failed failure
  | category => if category.isComposite then .failed failure else .crashed failure

def debugText (debug : Bool) (notes : List Note) : String :=
  if debug then String.join (notes.map fun note => s!"[debug] {note.text}\n") else ""

def misuse (scope : Scope) (printed : String) (fault : UsageFault) : Reply :=
  ⟨2, printed ++ fault.report scope ++ "\n", none⟩

def replyTo (emoji : Emoji) (scope : Scope) (printed : String) : Ending → Reply
  | .misused fault => misuse scope printed fault
  | .refused message => ⟨1, printed ++ s!"Error: {message}\n", none⟩
  | .failed failure => ⟨1, printed ++ messageLine emoji "Error:" (" " ++ failure.report), none⟩
  | .crashed failure => ⟨1, printed, some failure⟩

/-- The lines that name the files of a bundle. -/
def fileLines (emoji : Emoji) (store : Store) (bundle : Bundle) : Except Failure String := do
  let lines ← (bundle.workflows.filterMap (Bundle.record? store)).mapM fun workflow => do
    let path := Publish.filePath bundle.root (← store.wording workflow.fileName)
    return messageLine emoji "✓" (" " ++ path.text)
  return String.join lines

def generate (scene : Scene) (disk : Disk) (debug : Bool) (parsed : Parsed) : Disk × Reply :=
  let (notes, chosen) := choose scene disk parsed
  match chosen with
  | .error early => (disk, replyTo scene.emoji .generate (debugText debug notes) early)
  | .ok bundle =>
    let outcome := Publish.generate scene.store scene.surroundings.current disk bundle.workflows
      bundle.root bundle.cleanup
    let printed := debugText debug (notes ++ outcome.notes)
    match outcome.result, fileLines scene.emoji scene.store bundle with
    | .error failure, _ => (outcome.disk, replyTo scene.emoji .generate printed (ending failure))
    | .ok (), .ok lines => (outcome.disk, ⟨0, printed ++ lines, none⟩)
    | .ok (), .error failure => (outcome.disk, replyTo scene.emoji .generate printed (.crashed failure))

def check (scene : Scene) (disk : Disk) (debug : Bool) (parsed : Parsed) : Reply :=
  let (notes, chosen) := choose scene disk parsed
  let printed := debugText debug notes
  match chosen with
  | .error early => replyTo scene.emoji .check printed early
  | .ok bundle =>
    match Publish.check scene.store scene.surroundings.current disk bundle.workflows bundle.root with
    | .error failure => replyTo scene.emoji .check printed (ending failure)
    | .ok difference =>
      if difference.isEmpty then ⟨0, printed ++ messageLine scene.emoji "All workflows up-to-date!" "", none⟩
      else
        let lines := messageLine scene.emoji "Workflow files are out of date." " Run: wfcompose generate"
          ++ plainLine scene.emoji difference
        ⟨1, printed ++ lines, none⟩

/-- What is at a path that a switch names. A file has nothing below it, not even itself. -/
def entryAt (disk : Disk) (current : Place) (text : String) : Option Entry :=
  match disk.status current (Path.ofText text) with
  | .ok (.file content) =>
    if text.endsWith "/" || text.endsWith "/." then none else some (.file content)
  | .ok .directory => if text.isEmpty then none else some .directory
  | .error _ => none

/-- Whether the path given for a topic is of the kind that it must be of. -/
def checkKind (disk : Disk) (current : Place) (parsed : Parsed) (topic : Topic) :
    Except Ending Unit := do
  let some text := parsed.text? topic | return
  if text.contains '\x00' then .error (.crashed (.ofCause .nulInPath))
  match topic, entryAt disk current text with
  | .config, some .directory => .error (.misused (.isDirectory "--config" text))
  | .root, some (.file _) => .error (.misused (.isFile "--root" text))
  | _, _ => return

/-- Reads the arguments of a command and looks at the paths in them. -/
def prepare (disk : Disk) (current : Place) (scope : Scope) (arguments : List String) :
    Except Ending Parsed := do
  let parsed ← (parse scope.switches true arguments).mapError Ending.misused
  if (parsed.flag? .help).isNone then
    (parsed.given.map (·.1.topic)).eraseDups.forM (checkKind disk current parsed)
    if !parsed.rest.isEmpty then .error (.misused (.unwantedArguments parsed.rest))
  return parsed

def helpReply (exit : Nat) (scope : Scope) : Reply := ⟨exit, scope.help ++ "\n", none⟩

/-- Whether a name starts with a letter or a digit, as those of commands do. -/
def isPlainName (name : String) : Bool :=
  match name.toList with
  | [] => true
  | c :: _ => c.isAlphanum || 0x80 ≤ c.toNat

/-- The reply to a name that no command has. It may be a switch in a place that is not its own. -/
def unknownCommand (name : String) (rest : List String) : Reply :=
  let unknown := misuse .program "" (.unknownCommand name)
  if isPlainName name then unknown
  else match parse Scope.program.switches false (name :: rest) with
    | .error fault => misuse .program "" fault
    | .ok parsed => if (parsed.flag? .help).isSome then helpReply 0 .program else unknown

/-- Runs a command line. -/
def run (scene : Scene) (disk : Disk) (arguments : List String) : Disk × Reply :=
  if arguments.isEmpty then (disk, helpReply 2 .program)
  else match parse Scope.program.switches false arguments with
    | .error fault => (disk, misuse .program "" fault)
    | .ok parsed =>
      let debug := (parsed.flag? .debug).getD false
      if (parsed.flag? .help).isSome then (disk, helpReply 0 .program)
      else match parsed.rest with
        | [] => (disk, misuse .program "" .missingCommand)
        | name :: rest =>
          match Scope.ofName? name with
          | none => (disk, unknownCommand name rest)
          | some scope =>
            match prepare disk scene.surroundings.current scope rest with
            | .error early => (disk, replyTo scene.emoji scope "" early)
            | .ok parsed =>
              if (parsed.flag? .help).isSome then (disk, helpReply 0 scope)
              else match scope with
                | .check => (disk, check scene disk debug parsed)
                | _ => generate scene disk debug parsed

/-- Runs command lines one after the other. -/
def runAll (scene : Scene) (disk : Disk) : List (List String) → Disk × List Reply
  | [] => (disk, [])
  | arguments :: rest =>
    let (disk, reply) := run scene disk arguments
    let (disk, replies) := runAll scene disk rest
    (disk, reply :: replies)

end WorkflowCompiler.Command
