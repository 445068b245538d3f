import WorkflowCompiler.Proofs.CommandLines
import WorkflowCompiler.Proofs.ConsoleLines
import WorkflowCompiler.Proofs.LoadedFiles

/-! How the command that checks the workflow files ends. It reports failures of the library and of the
disk; every other failure comes out of it, above all that of a file in the directory that cannot be read. -/

namespace WorkflowCompiler.Command
open Disk

/-- A failure that the commands answer for: one of the library, or one of the disk. -/
def Reported (failure : Failure) : Prop :=
  failure.category = .system ∨ (∃ fault, failure.category = .disk fault) ∨ failure.category.isComposite = true

/-- Arguments that call for a check and are in order. -/
structure Accepted (disk : Disk) (current : Place) (arguments : List String) (debug : Bool) (parsed : Parsed) : Prop where
  called : ∃ program rest, parse Scope.program.switches false arguments = .ok program ∧ program.flag? .help = none ∧
    program.rest = "check" :: rest ∧ (program.flag? .debug).getD false = debug ∧ prepare disk current .check rest = .ok parsed
  earnest : parsed.flag? .help = none

/-- A configuration file that lists workflows. -/
structure Lists (scene : Scene) (disk : Disk) (config : Path) (workflows : List Value) : Prop where
  file : disk.isAt scene.surroundings.current config isFile = .ok true
  script : config.text.endsWith ".py" = true
  listed : ∃ place, disk.locate scene.surroundings.current config = .ok place ∧
    scene.exposures.lookup place = some (.listed workflows)
  all : workflows.all Bundle.isWorkflow = true

/-- The directory that is checked. The usual one has to resolve even where another is named, and the
file names have to be texts. -/
def checkedRoot (scene : Scene) (workflows : List Value) (parsed : Parsed) : Except Failure Path := do
  let usual ← Publish.resolveRoot scene.surroundings none
  let _ ← Bundle.text scene.store ⟨workflows, usual, false⟩
  match parsed.text? .root with
  | some text => Publish.resolveText scene.surroundings text
  | none => return usual

/-- What the files should hold. -/
def rendered (store : Store) (workflows : List Value) : Except Failure (List Publish.Listed) :=
  Publish.records store workflows >>= Publish.expected store

/-- The answers to a check: that the files are up to date, how they differ, or why that is not known. -/
inductive Answers (emoji : Emoji) (printed : String) : Except Failure String → Reply → Prop
  | upToDate : Answers emoji printed (.ok "") ⟨0, printed ++ "All workflows up-to-date!\n", none⟩
  | outOfDate (difference : String) (differs : difference ≠ "") : Answers emoji printed (.ok difference)
      ⟨1, printed ++ ("Workflow files are out of date. Run: wfcompose generate\n" ++ plainLine emoji difference), none⟩
  | failed (failure : Failure) (reported : Reported failure) :
      Answers emoji printed (.error failure) ⟨1, printed ++ ("Error: " ++ shownBehind emoji 7 failure.report), none⟩

/-- The failures that a check does not answer for: those of finding the directory, those of rendering that are not reported, and
that of the first workflow file in the directory that is no text, or no data. -/
inductive Escapes (scene : Scene) (disk : Disk) (workflows : List Value) (parsed : Parsed) : Failure → Prop
  | unresolved {failure : Failure} (lost : checkedRoot scene workflows parsed = .error failure) :
      Escapes scene disk workflows parsed failure
  | unrendered {root : Path} {failure : Failure} (resolved : checkedRoot scene workflows parsed = .ok root)
      (failed : rendered scene.store workflows = .error failure) (unreported : ¬ Reported failure) :
      Escapes scene disk workflows parsed failure
  | unreadable {root : Path} {files : List Publish.Listed} {name : String} {content : Content} {failure : Failure}
      (resolved : checkedRoot scene workflows parsed = .ok root) (whole : rendered scene.store workflows = .ok files)
      (file : Publish.FileAt disk scene.surroundings.current root name content) (short : Short (root.child name))
      (spoiled : content.loaded = .error failure) (first : Publish.LoadedBefore disk scene.surroundings.current root name) :
      Escapes scene disk workflows parsed failure

section

variable {scene : Scene} {disk : Disk} {arguments : List String} {debug : Bool} {parsed : Parsed} {workflows : List Value}
  {failure : Failure}

theorem ending_reported (reported : Reported failure) : ending failure = .failed failure := by
  rw [ending]
  rcases reported with system | ⟨fault, disk⟩ | composite
  · rw [system]
  · rw [disk]
  · split
    · rfl
    · rfl
    · rw [if_pos composite]

theorem ending_unreported (unreported : ¬ Reported failure) : ending failure = .crashed failure := by
  rw [ending]
  split
  next fault disk => exact absurd (.inr (.inl ⟨fault, disk⟩)) unreported
  next system => exact absurd (.inl system) unreported
  · rw [if_neg fun composite => unreported (.inr (.inr composite))]

theorem unreported_loaded {content : Content} (spoiled : content.loaded = .error failure) : ¬ Reported failure := by
  cases content with
  | bytes values noText =>
    cases spoiled
    rintro (system | ⟨fault, disk⟩ | composite)
    · cases system
    · cases disk
    · cases composite
  | text text =>
    rw [Content.loaded] at spoiled
    cases read : Yaml.load text with
    | ok tree =>
      rw [read] at spoiled
      cases spoiled
    | error fault =>
      rw [read] at spoiled
      cases spoiled
      rintro (system | ⟨_, disk⟩ | composite)
      · cases fault <;> cases system
      · cases fault <;> cases disk
      · cases fault <;> cases composite

theorem reported_refusal (fault : DiskFault) (path : Path) : Reported (refusal fault path) := .inr (.inl ⟨fault, rfl⟩)

theorem run_accepted (accepted : Accepted disk scene.surroundings.current arguments debug parsed) :
    run scene disk arguments = (disk, check scene disk debug parsed) := by
  obtain ⟨program, rest, understood, noHelp, called, rfl, prepared⟩ := accepted.called
  have filled : arguments.isEmpty = false := by
    cases arguments with
    | nil =>
      cases understood
      cases called
    | cons first others => rfl
  have scope : Scope.ofName? "check" = some .check := by decide
  simp [run, filled, understood, noHelp, called, scope, prepared, accepted.earnest]

theorem choose_lists {config : Path} (configured : configPath scene.surroundings (parsed.text? .config) = .ok config)
    (lists : Lists scene disk config workflows) :
    (choose scene disk parsed).2 =
      match checkedRoot scene workflows parsed with
      | .error failure => .error (.crashed failure)
      | .ok root => .ok ⟨workflows, root, (parsed.flag? .clean).getD false⟩ := by
  obtain ⟨file, script, ⟨place, located, listed⟩, all⟩ := lists
  have loaded : (load scene disk config).2 =
      (Publish.bundle scene.surroundings scene.store workflows none false).2.mapError Ending.crashed := by
    simp only [load, file, located, script, listed, all, Bool.not_true, Bool.false_eq_true, if_false, if_true]
  rw [choose, checkedRoot]
  simp only [configured, loaded, Publish.bundle]
  cases Publish.resolveRoot scene.surroundings none with
  | error failure => rfl
  | ok usual =>
    simp only [all]
    cases texted : Bundle.text scene.store ⟨workflows, usual, false⟩ with
    | error failure =>
      simp only [texted, bind, Except.bind]
      rfl
    | ok text =>
      cases parsed.text? .root with
      | none =>
        simp only [texted, bind, Except.bind]
        rfl
      | some named =>
        simp only [texted, bind, Except.bind]
        cases Publish.resolveText scene.surroundings named <;> rfl

/-- The check of the files that the workflows render to, or the first failure on the way there. -/
theorem check_eq (store : Store) (current : Place) (disk : Disk) (workflows : List Value) (root : Path) :
    Publish.check store current disk workflows root = do
      let files ← rendered store workflows
      let actual ← Publish.readFiles disk current root
      return Diff.difference {} (Publish.comparison (actual.map Publish.Listed.ofFile)) (Publish.comparison files) := by
  rw [Publish.check, rendered, bind_assoc]

/-- Once the directory is known, what the check fails with escapes unless it is reported. -/
theorem escapes_iff (sound : disk.Sound) {root : Path} (resolved : checkedRoot scene workflows parsed = .ok root) :
    Escapes scene disk workflows parsed failure ↔
      Publish.check scene.store scene.surroundings.current disk workflows root = .error failure ∧ ¬ Reported failure := by
  rw [check_eq]
  constructor
  · rintro (lost | ⟨again, failed, unreported⟩ | ⟨again, whole, file, short, spoiled, first⟩)
    · rw [resolved] at lost
      cases lost
    · rw [failed]
      exact ⟨rfl, unreported⟩
    · rw [resolved] at again
      cases again
      rw [whole]
      refine ⟨?_, unreported_loaded spoiled⟩
      have failed : Publish.readFiles disk scene.surroundings.current root = .error failure :=
        (Publish.readFiles_error_iff sound).mpr (.inr ⟨_, spoiled ▸ .file file short, first⟩)
      show (Publish.readFiles disk scene.surroundings.current root >>= _) = _
      rw [failed]
      rfl
  · rintro ⟨failed, unreported⟩
    rcases error_of_bind failed with failed | ⟨files, whole, failed⟩
    · exact .unrendered resolved failed unreported
    · rcases error_of_bind failed with failed | ⟨actual, -, failed⟩
      · rcases (Publish.readFiles_error_iff sound).mp failed with ⟨-, -, rfl⟩ | ⟨name, loads, first⟩
        · exact absurd (reported_refusal _ _) unreported
        · generalize outcome : Except.error failure = result at loads
          cases loads with
          | file file short => exact .unreadable resolved whole file short outcome.symm first
          | refused =>
            cases outcome
            exact absurd (reported_refusal _ _) unreported
      · cases failed

theorem messageLine_upToDate (emoji : Emoji) : messageLine emoji "All workflows up-to-date!" "" = "All workflows up-to-date!\n" := by
  rw [messageLine_alone (by decide)]
  decide

theorem messageLine_outOfDate (emoji : Emoji) : messageLine emoji "Workflow files are out of date." " Run: wfcompose generate" =
    "Workflow files are out of date. Run: wfcompose generate\n" := by
  rfl

theorem messageLine_error (emoji : Emoji) (text : String) : messageLine emoji "Error:" (" " ++ text) = "Error: " ++ shownBehind emoji 7 text := by
  rw [messageLine_behind (by decide), show "Error:" ++ " " = "Error: " by decide]
  rfl

/-- How a check ends: with an answer, or with the failure that it was left with. -/
inductive Ends (scene : Scene) (disk : Disk) (workflows : List Value) (parsed : Parsed) (printed : String)
    (checked : Except Failure String) : Reply → Prop
  | answered {reply : Reply} (whole : ∀ failure, ¬ Escapes scene disk workflows parsed failure)
      (answers : Answers scene.emoji printed checked reply) : Ends scene disk workflows parsed printed checked reply
  | escaped {failure : Failure} (escapes : Escapes scene disk workflows parsed failure)
      (failed : checked = .error failure) : Ends scene disk workflows parsed printed checked ⟨1, printed, some failure⟩

theorem check_ends (sound : disk.Sound) {config : Path} (configured : configPath scene.surroundings (parsed.text? .config) = .ok config)
    (lists : Lists scene disk config workflows) :
    Ends scene disk workflows parsed (debugText debug (choose scene disk parsed).1)
      (checkedRoot scene workflows parsed >>= Publish.check scene.store scene.surroundings.current disk workflows)
      (check scene disk debug parsed) := by
  have chosen := choose_lists configured lists
  rw [check]
  cases resolved : checkedRoot scene workflows parsed with
  | error failure =>
    rw [resolved] at chosen
    simp only [chosen]
    exact .escaped (.unresolved resolved) rfl
  | ok root =>
    rw [resolved] at chosen
    simp only [chosen]
    show Ends scene disk workflows parsed _ (Publish.check scene.store scene.surroundings.current disk workflows root) _
    cases checked : Publish.check scene.store scene.surroundings.current disk workflows root with
    | error failure =>
      dsimp only
      by_cases reported : Reported failure
      · rw [ending_reported reported, replyTo, messageLine_error]
        refine .answered ?_ (.failed failure reported)
        intro other escapes
        obtain ⟨failed, unreported⟩ := (escapes_iff sound resolved).mp escapes
        rw [checked] at failed
        cases failed
        exact unreported reported
      · rw [ending_unreported reported, replyTo]
        exact .escaped ((escapes_iff sound resolved).mpr ⟨checked, reported⟩) rfl
    | ok difference =>
      have whole : ∀ failure, ¬ Escapes scene disk workflows parsed failure := by
        intro failure escapes
        have failed := ((escapes_iff sound resolved).mp escapes).1
        rw [checked] at failed
        cases failed
      refine .answered whole ?_
      by_cases same : difference = ""
      · subst same
        rw [messageLine_upToDate]
        exact .upToDate
      · have filled : difference.isEmpty = false := by simpa using same
        simp only [filled, messageLine_outOfDate]
        exact .outOfDate difference same

theorem Escapes.failed (sound : disk.Sound) (escapes : Escapes scene disk workflows parsed failure) :
    (checkedRoot scene workflows parsed >>= Publish.check scene.store scene.surroundings.current disk workflows) = .error failure := by
  cases resolved : checkedRoot scene workflows parsed with
  | ok root => exact ((escapes_iff sound resolved).mp escapes).1
  | error fault =>
    cases escapes with
    | unresolved lost =>
      rw [resolved] at lost
      cases lost
      rfl
    | unrendered again => simp [resolved] at again
    | unreadable again => simp [resolved] at again

theorem Answers.crash {emoji : Emoji} {printed : String} {checked : Except Failure String} {reply : Reply}
    (answers : Answers emoji printed checked reply) :
    reply.crash = none := by
  cases answers <;> rfl

theorem Answers.exit_iff {emoji : Emoji} {printed : String} {checked : Except Failure String} {reply : Reply}
    (answers : Answers emoji printed checked reply) :
    reply.exit = 0 ↔ checked = .ok "" := by
  cases answers with
  | upToDate => simp
  | outOfDate difference differs => simp [differs]
  | failed failure reported => simp

/-- What comes out of a check is what escapes it. -/
theorem check_crash_iff (sound : disk.Sound) {config : Path}
    (configured : configPath scene.surroundings (parsed.text? .config) = .ok config) (lists : Lists scene disk config workflows) :
    (check scene disk debug parsed).crash = some failure ↔ Escapes scene disk workflows parsed failure := by
  have ends : Ends scene disk workflows parsed _ _ (check scene disk debug parsed) := check_ends sound configured lists
  generalize check scene disk debug parsed = reply at ends
  cases ends with
  | answered whole answers => exact iff_of_false (by simp [answers.crash]) (whole failure)
  | escaped escapes failed =>
    constructor
    · intro crash
      cases crash
      exact escapes
    · intro also
      have same := also.failed sound
      rw [failed] at same
      cases same
      rfl

/-- A check with arguments that are in order, of the workflows that a configuration file lists, leaves
the disk as it is and ends in an answer, unless the directory cannot be resolved, the workflows cannot
be rendered for a reason that is not reported, or the first workflow file in the directory that cannot
be read is no text or no data: then that failure comes out of it. The exit code is zero exactly when
the check finds no difference. -/
theorem run_check_ends (sound : disk.Sound) (accepted : Accepted disk scene.surroundings.current arguments debug parsed)
    {config : Path} (configured : configPath scene.surroundings (parsed.text? .config) = .ok config)
    (lists : Lists scene disk config workflows) :
    let checked := checkedRoot scene workflows parsed >>= Publish.check scene.store scene.surroundings.current disk workflows
    let printed := debugText debug (choose scene disk parsed).1
    ∃ reply, run scene disk arguments = (disk, reply) ∧
      (reply.crash = none ↔ Answers scene.emoji printed checked reply) ∧
      (∀ failure, reply.crash = some failure ↔ Escapes scene disk workflows parsed failure) ∧
      (∀ failure, reply.crash = some failure → reply = ⟨1, printed, some failure⟩ ∧ checked = .error failure) ∧
      (reply.exit = 0 ↔ checked = .ok "") := by
  intro checked printed
  refine ⟨check scene disk debug parsed, run_accepted accepted, ?_, fun failure => check_crash_iff sound configured lists, ?_⟩
  all_goals
    have ends : Ends scene disk workflows parsed printed checked (check scene disk debug parsed) := check_ends sound configured lists
    generalize check scene disk debug parsed = reply at ends
    cases ends
  case answered answers => exact iff_of_true answers.crash answers
  case escaped => exact iff_of_false (by simp) fun answers => by cases answers.crash
  case answered answers =>
    refine ⟨fun failure crash => ?_, answers.exit_iff⟩
    rw [answers.crash] at crash
    cases crash
  case escaped failure escapes failed =>
    refine ⟨fun other crash => ?_, by simp [failed]⟩
    cases crash
    exact ⟨rfl, failed⟩

end

/-- A configuration file that lists one workflow. -/
def listing : Scene :=
  { surroundings := { current := [] }, store := Publish.nameOnly "ci", exposures := [(["cfg.py"], .listed [.workflow 0])] }

/-- The configuration file next to a directory that holds some entries. -/
def beside (entries : List (String × Entry)) : Disk :=
  ⟨(["cfg.py"], .file "") :: (["out"], .directory) :: entries.map fun entry => (["out", entry.1], entry.2)⟩

def checkOut : List String := ["check", "--config", "cfg.py", "--root", "out"]

def parsedOut : Parsed :=
  ⟨[(⟨"--config", .config, none⟩, .text "cfg.py"), (⟨"--root", .root, none⟩, .text "out")], []⟩

theorem accepted_checkOut (entries : List (String × Entry)) : Accepted (beside entries) [] checkOut false parsedOut where
  called := ⟨_, _, parse_command (by rw [isSwitch_eq]; decide) (by decide) _, rfl, rfl, rfl,
    prepare_files (by decide) rfl (.inl rfl) (by decide) nofun nofun⟩
  earnest := rfl

theorem configured_listing : configPath listing.surroundings (some "cfg.py") = .ok ⟨.relative, ["cfg.py"]⟩ := by rfl

theorem script_cfg : (⟨.relative, ["cfg.py"]⟩ : Path).text.endsWith ".py" = true := by decide +kernel

theorem lists_checkOut (entries : List (String × Entry)) : Lists listing (beside entries) ⟨.relative, ["cfg.py"]⟩ [.workflow 0] where
  file := by rfl
  script := script_cfg
  listed := ⟨["cfg.py"], by rfl, rfl⟩
  all := rfl

theorem checkedRoot_listing : checkedRoot listing [.workflow 0] parsedOut = .ok ⟨.single, ["out"]⟩ := by rfl

/-- Where the directory has nothing that is no YAML, the check answers. -/
theorem run_check_ends_empty : ∃ reply, run listing (beside []) checkOut = (beside [], reply) ∧ reply.crash = none := by
  have sound : (beside []).Sound := sound_of_entries (by decide) (by decide) (by decide)
  obtain ⟨reply, ran, -, -, crashes, -⟩ := run_check_ends sound (accepted_checkOut []) configured_listing (lists_checkOut [])
  refine ⟨reply, ran, ?_⟩
  have answered : (checkedRoot listing [.workflow 0] parsedOut >>=
      Publish.check listing.store listing.surroundings.current (beside []) [.workflow 0]).isOk = true := by decide +kernel
  cases crash : reply.crash with
  | none => rfl
  | some failure =>
    rw [(crashes failure crash).2] at answered
    cases answered

/-- A file that is no YAML is in the way of an answer. -/
theorem check_unanswered : ∃ reply, run listing (beside [("broken.yml", .file "a: [")]) checkOut =
    (beside [("broken.yml", .file "a: [")], reply) ∧ reply.crash = some (.ofCause (.unloadable .malformed)) := by
  have sound : (beside [("broken.yml", .file "a: [")]).Sound := sound_of_entries (by decide) (by decide) (by decide)
  have file : Publish.FileAt (beside [("broken.yml", .file "a: [")]) [] ⟨.single, ["out"]⟩ "broken.yml" "a: [" :=
    ⟨by decide, ["out"], by rfl, by rfl, "broken", .inl ⟨by decide, by rfl⟩⟩
  have spoiled : Content.loaded "a: [" = .error (.ofCause (.unloadable .malformed)) := by rfl
  have whole : rendered listing.store [.workflow 0] = .ok [⟨"ci", "ci", Tree.record [("name", .text "CI")]⟩] := by rfl
  have first : Publish.LoadedBefore (beside [("broken.yml", .file "a: [")]) [] ⟨.single, ["out"]⟩ "broken.yml" := by
    intro earlier outcome loads before
    obtain ⟨-, place, located, there⟩ := loads.found
    obtain rfl : ["out"] = place := Except.ok.inj located
    have listed := mem_of_find (by simp) there
    have same : earlier = "broken.yml" := by simpa [beside] using listed
    rw [same] at before
    exact absurd before (String.lt_irrefl _)
  exact ⟨_, run_accepted (accepted_checkOut _), (check_crash_iff sound configured_listing (lists_checkOut _)).mpr
    (.unreadable checkedRoot_listing whole file (by decide) spoiled first)⟩

end WorkflowCompiler.Command
