import WorkflowCompiler.Proofs.CheckEndings
import WorkflowCompiler.Proofs.GeneratedFiles

/-! How the command that writes the workflow files ends: with a line for each file once all of them are written, or with the
failure that kept some of them from being written. -/

namespace WorkflowCompiler.Command
open Disk

/-- Arguments that call for the files to be written and are in order. -/
structure Requested (disk : Disk) (current : Place) (arguments : List String) (debug : Bool) (parsed : Parsed) : Prop where
  called : ∃ program rest, parse Scope.program.switches false arguments = .ok program ∧ program.flag? .help = none ∧
    program.rest = "generate" :: rest ∧ (program.flag? .debug).getD false = debug ∧ prepare disk current .generate rest = .ok parsed
  earnest : parsed.flag? .help = none

/-- A configuration file that defines workflows, with the root that it names and whether the directory is emptied. A file that
only lists them does neither. -/
structure Defines (scene : Scene) (disk : Disk) (config : Path) (workflows : List Value) (own : Option String) (cleanup : Bool) :
    Prop where
  file : disk.isAt scene.surroundings.current config isFile = .ok true
  script : config.text.endsWith ".py" = true
  exposed : ∃ place exposure, disk.locate scene.surroundings.current config = .ok place ∧
    scene.exposures.lookup place = some exposure ∧
    (exposure = .listed workflows ∧ own = none ∧ cleanup = false ∨ exposure = .bundled workflows own cleanup)

/-- The directory for the files: the one that the switch names, or else that of the configuration file, or else the usual one.
That of the configuration file has to resolve in any case. -/
def chosenRoot (surroundings : Surroundings) (own : Option String) (parsed : Parsed) : Except Failure Path := do
  let root ← Publish.resolveRoot surroundings own
  match parsed.text? .root with
  | some text => Publish.resolveText surroundings text
  | none => return root

/-- The line that tells of a file. -/
def fileLine (emoji : Emoji) (path : Path) : String := "✓ " ++ shownBehind emoji 2 path.text

section

variable {scene : Scene} {disk : Disk} {arguments : List String} {debug : Bool} {parsed : Parsed} {workflows : List Value}
  {own : Option String} {cleanup : Bool} {root : Path} {valid : String → Prop} {store : Store}

theorem run_requested (requested : Requested disk scene.surroundings.current arguments debug parsed) :
    run scene disk arguments = generate scene disk debug parsed := by
  obtain ⟨program, rest, understood, noHelp, called, rfl, prepared⟩ := requested.called
  have filled : arguments.isEmpty = false := by
    cases arguments with
    | nil =>
      cases understood
      cases called
    | cons first others => rfl
  have scope : Scope.ofName? "generate" = some .generate := by decide
  simp [run, filled, understood, noHelp, called, scope, prepared, requested.earnest]

theorem text_named (named : ∀ workflow ∈ workflows, Publish.Named valid store workflow) (root : Path) (cleanup : Bool) :
    ∃ text, Bundle.text store ⟨workflows, root, cleanup⟩ = .ok text := by
  have texts : ∃ names, ((workflows.filterMap (Bundle.record? store)).map Workflow.fileName).mapM Value.chars? = some names := by
    induction workflows with
    | nil => exact ⟨[], rfl⟩
    | cons workflow workflows ih =>
      obtain ⟨here, later⟩ := List.forall_mem_cons.mp named
      obtain ⟨identity, name, fileName, rfl, -, filed, -⟩ := here.known
      obtain ⟨names, rest⟩ := ih later
      refine ⟨fileName :: names, ?_⟩
      simp only [List.filterMap_cons, Bundle.record?, List.map_cons, List.mapM_cons, filed, rest]
      rfl
  obtain ⟨names, found⟩ := texts
  rw [Bundle.text]
  simp only [found]
  exact ⟨_, rfl⟩

theorem all_isWorkflow (named : ∀ workflow ∈ workflows, Publish.Named valid store workflow) :
    workflows.all Bundle.isWorkflow = true := by
  rw [List.all_eq_true]
  intro workflow member
  obtain ⟨identity, -, -, rfl, -⟩ := (named workflow member).known
  rfl

theorem load_defines {config : Path} (defines : Defines scene disk config workflows own cleanup)
    (named : ∀ workflow ∈ workflows, Publish.Named valid scene.store workflow) :
    (load scene disk config).2 =
      match Publish.resolveRoot scene.surroundings own with
      | .error failure => .error (.crashed failure)
      | .ok root => .ok ⟨workflows, root, cleanup⟩ := by
  obtain ⟨file, script, place, exposure, located, exposed, kind⟩ := defines
  have all := all_isWorkflow named
  have loaded : (load scene disk config).2 =
      (Publish.bundle scene.surroundings scene.store workflows own cleanup).2.mapError Ending.crashed := by
    rcases kind with ⟨rfl, rfl, rfl⟩ | rfl
    · simp only [load, file, located, script, exposed, all, Bool.not_true, Bool.false_eq_true, if_false, if_true]
    · simp only [load, file, located, script, exposed, Bool.not_true, Bool.false_eq_true, if_false]
  rw [loaded]
  simp only [Publish.bundle]
  cases Publish.resolveRoot scene.surroundings own with
  | error failure => rfl
  | ok root =>
    obtain ⟨text, texted⟩ := text_named named root cleanup
    simp only [all, texted]
    rfl

theorem choose_defines {config : Path} (configured : configPath scene.surroundings (parsed.text? .config) = .ok config)
    (defines : Defines scene disk config workflows own cleanup)
    (named : ∀ workflow ∈ workflows, Publish.Named valid scene.store workflow) :
    (choose scene disk parsed).2 =
      match chosenRoot scene.surroundings own parsed with
      | .error failure => .error (.crashed failure)
      | .ok root => .ok ⟨workflows, root, (parsed.flag? .clean).getD cleanup⟩ := by
  have loaded := load_defines defines named
  rw [choose, chosenRoot]
  simp only [configured, loaded]
  cases Publish.resolveRoot scene.surroundings own with
  | error failure => rfl
  | ok usual =>
    cases parsed.text? .root with
    | none => rfl
    | some text =>
      dsimp only [bind, Except.bind]
      cases Publish.resolveText scene.surroundings text <;> rfl

/-- A path without characters that the console treats in a way of its own is shown as it is. -/
theorem fileLine_plain {emoji : Emoji} {path : Path} (plain : ∀ c ∈ path.text.toList, isSteady c = true ∧ c ≠ '\\' ∧ c ≠ ':') :
    fileLine emoji path = "✓ " ++ path.text ++ "\n" := by
  rw [fileLine, shownBehind_plain plain, String.append_assoc]

theorem messageLine_file (emoji : Emoji) (path : Path) : messageLine emoji "✓" (" " ++ path.text) = fileLine emoji path := by
  rw [messageLine_behind (by decide), show "✓" ++ " " = "✓ " by decide]
  rfl

theorem fileLines_renders {emoji : Emoji} {files : List (String × Tree)} (renders : Publish.Renders store workflows files) (root : Path)
    (cleanup : Bool) : fileLines emoji store ⟨workflows, root, cleanup⟩ =
      .ok (String.join (files.map fun file => fileLine emoji (Publish.filePath root file.1))) := by
  have lines : (workflows.filterMap (Bundle.record? store)).mapM (fun workflow => do
      return fileLine emoji (Publish.filePath root (← store.wording workflow.fileName))) =
      (.ok (files.map fun file => fileLine emoji (Publish.filePath root file.1)) : Except Failure (List String)) := by
    induction renders with
    | nil => rfl
    | cons named rendered whole more ih =>
      simp only [List.filterMap_cons, Bundle.record?, List.mapM_cons, List.map_cons, named, ih]
      rfl
  rw [fileLines]
  simp only [messageLine_file, lines]
  rfl

/-- Whatever a run fails with is reported, if the workflows fail with nothing but faults of the library. -/
theorem reported_of_generate {current : Place} {failure : Failure}
    (named : ∀ workflow ∈ workflows, Publish.Named Publish.PlainName store workflow)
    (faults : ∀ failure, Publish.records store workflows = .error failure → failure.category.isComposite = true)
    (noNul : holdsNul root = false) (failed : (Publish.generate store current disk workflows root cleanup).result = .error failure) :
    Reported failure := by
  rcases Publish.generateIn_error (fun files => .refl files) named noNul failed with invalid | ⟨fault, path, rfl⟩ | summed
  · exact .inr (.inr (faults failure invalid))
  · exact .inr (.inl ⟨fault, rfl⟩)
  · exact .inr (.inr (by rw [summed]; rfl))

/-- A root that does not resolve is nothing that the command reports. -/
theorem generate_unresolved {failure : Failure} (chosen : (choose scene disk parsed).2 = .error (.crashed failure)) :
    generate scene disk debug parsed = (disk, ⟨1, debugText debug (choose scene disk parsed).1, some failure⟩) := by
  simp only [generate, chosen, replyTo]

/-- What is printed before a run ends. -/
def runText (scene : Scene) (disk : Disk) (debug : Bool) (parsed : Parsed) (outcome : Publish.Outcome) : String :=
  debugText debug ((choose scene disk parsed).1 ++ outcome.notes)

theorem generate_failed {emptied : Bool} {failure : Failure} (chosen : (choose scene disk parsed).2 = .ok ⟨workflows, root, emptied⟩)
    (failed : (Publish.generate scene.store scene.surroundings.current disk workflows root emptied).result = .error failure)
    (reported : Reported failure) :
    let outcome := Publish.generate scene.store scene.surroundings.current disk workflows root emptied
    generate scene disk debug parsed =
      (outcome.disk, ⟨1, runText scene disk debug parsed outcome ++ ("Error: " ++ shownBehind scene.emoji 7 failure.report), none⟩) := by
  simp only [generate, chosen, failed, ending_reported reported, replyTo, messageLine_error, runText]

theorem generate_done {emptied : Bool} {files : List (String × Tree)}
    (chosen : (choose scene disk parsed).2 = .ok ⟨workflows, root, emptied⟩)
    (done : (Publish.generate scene.store scene.surroundings.current disk workflows root emptied).result = .ok ())
    (renders : Publish.Renders scene.store workflows files) :
    let outcome := Publish.generate scene.store scene.surroundings.current disk workflows root emptied
    generate scene disk debug parsed = (outcome.disk, ⟨0, runText scene disk debug parsed outcome ++
      String.join (files.map fun file => fileLine scene.emoji (Publish.filePath root file.1)), none⟩) := by
  simp only [generate, chosen, done, fileLines_renders renders, runText]

/-- Every run of the command that writes the files, with arguments that are in order, for a configuration file that defines
workflows. It ends with exit code zero exactly when it wrote every file and each file holds its text; without workflows,
exactly when the directory could be prepared. Then it prints one line a file, in order, and the directory was emptied before if
that is what the switch says, or else the configuration file. Otherwise it ends with exit code one and prints the failure. -/
theorem run_generate_ends (sound : disk.Sound) (here : disk.find scene.surroundings.current = some .directory)
    (requested : Requested disk scene.surroundings.current arguments debug parsed)
    {config : Path} (configured : configPath scene.surroundings (parsed.text? .config) = .ok config)
    (defines : Defines scene disk config workflows own cleanup)
    (named : ∀ workflow ∈ workflows, Publish.Named Publish.PlainName scene.store workflow)
    (faults : ∀ failure, Publish.records scene.store workflows = .error failure → failure.category.isComposite = true)
    (resolved : chosenRoot scene.surroundings own parsed = .ok root) (noNul : holdsNul root = false) :
    let current := scene.surroundings.current
    let emptied := (parsed.flag? .clean).getD cleanup
    let outcome := Publish.generate scene.store current disk workflows root emptied
    let printed := runText scene disk debug parsed outcome
    ∃ reply, run scene disk arguments = (outcome.disk, reply) ∧
      (reply.exit = 0 ↔ (workflows = [] → (Publish.prepare disk current root emptied).2 = .ok ()) ∧
        ∃ files, Publish.Renders scene.store workflows files ∧ ∀ file ∈ files, Publish.Delivered outcome current root file) ∧
      (reply.exit = 0 → ∃ files, Publish.Renders scene.store workflows files ∧
        reply = ⟨0, printed ++ String.join (files.map fun file => fileLine scene.emoji (Publish.filePath root file.1)), none⟩ ∧
        Publish.Spares disk outcome.disk (placeOf current root) files emptied) ∧
      (reply.exit ≠ 0 → ∃ failure, outcome.result = .error failure ∧
        reply = ⟨1, printed ++ ("Error: " ++ shownBehind scene.emoji 7 failure.report), none⟩) := by
  intro current emptied outcome printed
  have chosen := choose_defines configured defines named
  rw [resolved] at chosen
  have succeeds : outcome.result = .ok () ↔ _ :=
    Publish.generateIn_succeeds_iff (fun files => .refl files) sound here named
  rw [run_requested requested]
  cases ended : outcome.result with
  | error failure =>
    have unmet := succeeds.not.mp (by simp [ended])
    have reported := reported_of_generate named faults noNul ended
    refine ⟨_, generate_failed chosen ended reported, ?_, ?_, ?_⟩
    · exact iff_of_false (by simp) unmet
    · simp
    · exact fun _ => ⟨failure, rfl, rfl⟩
  | ok done =>
    obtain ⟨files, renders, -, spares⟩ := Publish.generateIn_delivers (fun files => .refl files) sound here named ended
    refine ⟨_, generate_done chosen ended renders, ?_, ?_, ?_⟩
    · exact iff_of_true rfl (succeeds.mp ended)
    · exact fun _ => ⟨files, renders, rfl, spares⟩
    · simp

end

def generateOut : List String := ["generate", "--config", "cfg.py", "--root", "out", "--clean"]

def parsedClean : Parsed :=
  ⟨[(⟨"--config", .config, none⟩, .text "cfg.py"), (⟨"--root", .root, none⟩, .text "out"), (⟨"--clean", .clean, some true⟩, .flag true)], []⟩

theorem requested_generateOut (entries : List (String × Entry)) : Requested (beside entries) [] generateOut false parsedClean where
  called := ⟨_, _, parse_command (by rw [isSwitch_eq]; decide) (by decide) _, rfl, rfl, rfl,
    prepare_files (by decide) parse_clean (.inr rfl) (by decide) nofun nofun⟩
  earnest := rfl

theorem defines_listing (entries : List (String × Entry)) :
    Defines listing (beside entries) ⟨.relative, ["cfg.py"]⟩ [.workflow 0] none false where
  file := by rfl
  script := script_cfg
  exposed := ⟨["cfg.py"], _, by rfl, rfl, .inl ⟨rfl, rfl, rfl⟩⟩

/-- A directory with an old file is emptied, and the one file is written and told of. -/
theorem run_generate_ends_clean : ∃ disk, run listing (beside [("old.yml", .file "a: 1\n")]) generateOut = (disk, ⟨0, "✓ /out/ci.yml\n", none⟩) ∧
    disk.find ["out", "old.yml"] = none := by
  have sound : (beside [("old.yml", .file "a: 1\n")]).Sound := sound_of_entries (by decide) (by decide) (by decide)
  have named : ∀ workflow ∈ [Value.workflow 0], Publish.Named Publish.PlainName listing.store workflow :=
    Publish.nameOnly_named ⟨by decide, by decide, by decide⟩
  have faults : ∀ failure, Publish.records listing.store [.workflow 0] = .error failure → failure.category.isComposite = true := by
    intro failure failed
    cases failed
  have resolved : chosenRoot listing.surroundings none parsedClean = .ok ⟨.single, ["out"]⟩ := by rfl
  have path : (Publish.filePath ⟨.single, ["out"]⟩ "ci").text = "/out/ci.yml" := by decide
  have line : fileLine listing.emoji (Publish.filePath ⟨.single, ["out"]⟩ "ci") = "✓ /out/ci.yml\n" := by
    rw [fileLine_plain, path]
    · decide
    · rw [path]
      simp [isSteady, movesCursor]
  obtain ⟨reply, ran, -, done, failed⟩ := run_generate_ends sound rfl (requested_generateOut _) configured_listing (defines_listing _) named faults
    resolved rfl
  by_cases exit : reply.exit = 0
  · obtain ⟨files, renders, rfl, spares⟩ := done exit
    obtain rfl := Publish.renders_nameOnly renders
    refine ⟨_, ?_, spares.emptied rfl ["out", "old.yml"] (by decide) (by decide)⟩
    rw [ran]
    simp [runText, debugText, line]
  · obtain ⟨failure, ended, -⟩ := failed exit
    obtain ⟨done, fine⟩ : ∃ done, (Publish.generate listing.store [] (beside [("old.yml", .file "a: 1\n")]) [.workflow 0]
        ⟨.single, ["out"]⟩ true).result = .ok done := exists_ok (by decide)
    have same : Except.ok done = Except.error failure := fine.symm.trans ended
    cases same

/-- A configuration file that lists no workflows. -/
def unlisted : Scene := { surroundings := { current := [] }, exposures := [(["cfg.py"], .listed [])] }

/-- The configuration file next to a regular file in the place of the directory. -/
def occupied : Disk := ⟨[(["cfg.py"], .file ""), (["out"], .file "text")]⟩

/-- A call with a root. -/
def generateInto (root : String) : List String := ["generate", "--config", "cfg.py", "--root", root]

def parsedInto (root : String) : Parsed :=
  ⟨[(⟨"--config", .config, none⟩, .text "cfg.py"), (⟨"--root", .root, none⟩, .text root)], []⟩

theorem requested_into {root : String} (noNul : '\x00' ∉ root.toList)
    (directory : ∀ content, occupied.status [] (Path.ofText root) ≠ .ok (.file content)) :
    Requested occupied [] (generateInto root) false (parsedInto root) where
  called := ⟨_, _, parse_command (by rw [isSwitch_eq]; decide) (by decide) _, rfl, rfl, rfl,
    prepare_files (by decide) rfl (.inl rfl) ⟨by decide, noNul⟩ nofun directory⟩
  earnest := rfl

theorem requested_below : Requested occupied [] (generateInto "out/sub") false (parsedInto "out/sub") :=
  requested_into (by decide) nofun

theorem requested_unbalanced : Requested occupied [] (generateInto "file://[x") false (parsedInto "file://[x") :=
  requested_into (by decide) nofun

theorem configured_unlisted (root : String) :
    configPath unlisted.surroundings ((parsedInto root).text? .config) = .ok ⟨.relative, ["cfg.py"]⟩ := by rfl

theorem defines_unlisted : Defines unlisted occupied ⟨.relative, ["cfg.py"]⟩ [] none false where
  file := by rfl
  script := script_cfg
  exposed := ⟨["cfg.py"], _, by rfl, rfl, .inl ⟨rfl, rfl, rfl⟩⟩

theorem chosenRoot_below : chosenRoot unlisted.surroundings none (parsedInto "out/sub") = .ok ⟨.single, ["out", "sub"]⟩ := by
  have path : Path.ofText "out/sub" = ⟨.relative, ["out", "sub"]⟩ := by decide
  have text : Publish.resolveText unlisted.surroundings "out/sub" = .ok ⟨.single, ["out", "sub"]⟩ := by
    have plain : Address.isFileAddress "out/sub" = false := by
      rw [Address.isFileAddress, Bool.eq_false_iff, ne_eq, String.startsWith_string_iff]
      decide
    rw [Publish.resolveText, plain, path]
    rfl
  rw [chosenRoot, show (parsedInto "out/sub").text? .root = some "out/sub" from rfl]
  simp only [text]
  rfl

theorem chosenRoot_unbalanced : ∃ failure, chosenRoot unlisted.surroundings none (parsedInto "file://[x") = .error failure := by
  have address : Address.isFileAddress "file://[x" = true := by
    rw [Address.isFileAddress, String.startsWith_string_iff]
    decide
  apply exists_error
  rw [chosenRoot, show (parsedInto "file://[x").text? .root = some "file://[x" from rfl]
  simp only [Publish.resolveText, address]
  rfl

theorem run_below : (run unlisted occupied (generateInto "out/sub")).2.exit = 1 := by
  have none : ∀ workflow ∈ ([] : List Value), Publish.Named Publish.PlainName unlisted.store workflow := by simp
  have chosen := choose_defines (configured_unlisted "out/sub") defines_unlisted none
  rw [chosenRoot_below] at chosen
  obtain ⟨failure, ended⟩ : ∃ failure, (Publish.generate unlisted.store [] occupied [] ⟨.single, ["out", "sub"]⟩ false).result = .error failure :=
    exists_error (by decide)
  have reported : Reported failure := by
    refine reported_of_generate none ?_ (by decide) ended
    intro failure failed
    cases failed
  rw [run_requested requested_below, generate_failed chosen ended reported]

/-- Without workflows no file is missing, and still a directory that cannot be made is a failure. A root that does not resolve
ends the command with nothing printed. And a line leaves out what would move the cursor. -/
theorem generate_fails_without_files :
    (Requested occupied [] (generateInto "out/sub") false (parsedInto "out/sub") ∧
      (∃ config, configPath unlisted.surroundings ((parsedInto "out/sub").text? .config) = .ok config ∧
        Defines unlisted occupied config [] none false) ∧
      chosenRoot unlisted.surroundings none (parsedInto "out/sub") = .ok ⟨.single, ["out", "sub"]⟩ ∧
      ¬ ((run unlisted occupied (generateInto "out/sub")).2.exit = 0 ↔ ∃ files, Publish.Renders unlisted.store [] files ∧
        ∀ file ∈ files, Publish.Delivered (Publish.generate unlisted.store [] occupied [] ⟨.single, ["out", "sub"]⟩ false) []
          ⟨.single, ["out", "sub"]⟩ file)) ∧
    (Requested occupied [] (generateInto "file://[x") false (parsedInto "file://[x") ∧
      ∃ failure, run unlisted occupied (generateInto "file://[x") = (occupied, ⟨1, "", some failure⟩)) ∧
    fileLine unlisted.emoji ⟨.single, ["out", "a\x07b.yml"]⟩ = "✓ /out/ab.yml\n" := by
  refine ⟨⟨requested_below, ⟨_, configured_unlisted _, defines_unlisted⟩, chosenRoot_below, ?_⟩, ⟨requested_unbalanced, ?_⟩, by decide⟩
  · intro same
    have exit := run_below
    rw [same.mpr ⟨[], .nil, by simp⟩] at exit
    cases exit
  · obtain ⟨failure, lost⟩ := chosenRoot_unbalanced
    have none : ∀ workflow ∈ ([] : List Value), Publish.Named Publish.PlainName unlisted.store workflow := by simp
    have chosen := choose_defines (configured_unlisted "file://[x") defines_unlisted none
    rw [lost] at chosen
    exact ⟨failure, (run_requested requested_unbalanced).trans (generate_unresolved chosen)⟩

end WorkflowCompiler.Command
