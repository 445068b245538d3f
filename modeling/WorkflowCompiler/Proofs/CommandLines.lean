import WorkflowCompiler.Command.Run

/-! Arguments in order: the name of a command, the configuration file and the directory behind their switches, and what may
follow. They are taken whatever the two are called. -/

namespace WorkflowCompiler.Command

section

variable {switches : List Switch} {anywhere : Bool} {scope : Scope} {disk : Disk} {current : Place} {parsed : Parsed}

theorem isSwitch_eq (argument : String) : isSwitch argument = (['-'].isPrefixOf argument.toList && argument != "-") := by
  rw [isSwitch, Bool.eq_iff_iff, Bool.and_eq_true, Bool.and_eq_true, String.startsWith_string_iff, List.isPrefixOf_iff_prefix]
  rfl

/-- The name of a command ends the switches in front of it. -/
theorem parse_command {command : String} (word : isSwitch command = false) (other : command ≠ "--") (rest : List String) :
    parse switches false (command :: rest) = .ok ⟨[], command :: rest⟩ := by
  rw [parse.eq_def]
  split <;> simp_all

/-- A switch that stands for a setting takes nothing. -/
theorem parse_flag {switch : Switch} {value : Bool} (dash : isSwitch switch.name = true) (other : switch.name ≠ "--")
    (alone : splitArgument switch.name = (switch.name, none)) (known : switches.find? (·.name == switch.name) = some switch)
    (sets : switch.setting = some value) (rest : List String) :
    parse switches anywhere (switch.name :: rest) = Parsed.put switch (.flag value) <$> parse switches anywhere rest := by
  rw [parse.eq_def]
  split
  · simp_all
  · simp_all
  · obtain ⟨rfl, rfl⟩ := List.cons.inj ‹switch.name :: rest = _›
    simp [dash, alone, known, sets]

/-- One that stands for none takes whatever is behind it. -/
theorem parse_text {switch : Switch} (dash : isSwitch switch.name = true) (other : switch.name ≠ "--")
    (alone : splitArgument switch.name = (switch.name, none)) (known : switches.find? (·.name == switch.name) = some switch)
    (asks : switch.setting = none) (text : String) (rest : List String) :
    parse switches anywhere (switch.name :: text :: rest) = Parsed.put switch (.text text) <$> parse switches anywhere rest := by
  rw [parse.eq_def]
  split
  · simp_all
  · simp_all
  · obtain ⟨rfl, rfl⟩ := List.cons.inj ‹switch.name :: text :: rest = _›
    simp [dash, alone, known, asks]

def configSwitch : Switch := ⟨"--config", .config, none⟩

def rootSwitch : Switch := ⟨"--root", .root, none⟩

def cleanSwitch : Switch := ⟨"--clean", .clean, some true⟩

theorem parse_files (files : scope ≠ .program) (config root : String) (rest : List String) :
    parse scope.switches true ("--config" :: config :: "--root" :: root :: rest) =
      (fun parsed => (parsed.put rootSwitch (.text root)).put configSwitch (.text config)) <$> parse scope.switches true rest := by
  obtain ⟨first, second⟩ : scope.switches.find? (·.name == "--config") = some configSwitch ∧
      scope.switches.find? (·.name == "--root") = some rootSwitch := by
    cases scope with
    | program => exact absurd rfl files
    | generate => exact ⟨rfl, rfl⟩
    | check => exact ⟨rfl, rfl⟩
  have dashes : isSwitch configSwitch.name = true ∧ isSwitch rootSwitch.name = true := by
    rw [isSwitch_eq, isSwitch_eq]
    decide
  have front : parse scope.switches true (configSwitch.name :: config :: rootSwitch.name :: root :: rest) = _ :=
    parse_text dashes.1 (by decide) (by decide) first rfl config _
  rw [parse_text dashes.2 (by decide) (by decide) second rfl root rest, Functor.map_map] at front
  exact front

theorem parse_clean : parse Scope.generate.switches true ["--clean"] = .ok ⟨[(cleanSwitch, .flag true)], []⟩ := by
  have dash : isSwitch cleanSwitch.name = true := by
    rw [isSwitch_eq]
    decide
  exact parse_flag dash (by decide) (by decide) rfl rfl []

theorem checkKind_config {text : String} (given : parsed.text? .config = some text) (noNul : '\x00' ∉ text.toList)
    (file : disk.status current (Path.ofText text) ≠ .ok .directory) : checkKind disk current parsed .config = .ok () := by
  have none : text.contains '\x00' = false := by simpa using noNul
  have entry : entryAt disk current text ≠ some .directory := by
    unfold entryAt
    split <;> simp_all
  unfold checkKind
  simp only [given, none]
  split <;> simp_all
  rfl

theorem checkKind_root {text : String} (given : parsed.text? .root = some text) (noNul : '\x00' ∉ text.toList)
    (directory : ∀ content, disk.status current (Path.ofText text) ≠ .ok (.file content)) :
    checkKind disk current parsed .root = .ok () := by
  have none : text.contains '\x00' = false := by simpa using noNul
  have entry (content : Content) : entryAt disk current text ≠ some (.file content) := by
    unfold entryAt
    split <;> simp_all
  unfold checkKind
  simp only [given, none]
  split <;> simp_all
  rfl

theorem forM_checkKind (kinds : ∀ topic, checkKind disk current parsed topic = .ok ()) (topics : List Topic) :
    topics.forM (checkKind disk current parsed) = .ok () := by
  induction topics with
  | nil => rfl
  | cons topic rest ih =>
    rw [List.forM_eq_forM, List.forM_cons, kinds]
    exact ih

/-- A call is in order if no directory is in the place of the configuration file and no file in the place of the directory. -/
theorem prepare_files (files : scope ≠ .program) {config root : String} {rest : List String} {others : List (Switch × Given)}
    (read : parse scope.switches true rest = .ok ⟨others, []⟩) (settings : others = [] ∨ others = [(cleanSwitch, .flag true)])
    (noNuls : '\x00' ∉ config.toList ∧ '\x00' ∉ root.toList) (file : disk.status current (Path.ofText config) ≠ .ok .directory)
    (directory : ∀ content, disk.status current (Path.ofText root) ≠ .ok (.file content)) :
    prepare disk current scope ("--config" :: config :: "--root" :: root :: rest) =
      .ok ⟨(configSwitch, .text config) :: (rootSwitch, .text root) :: others, []⟩ := by
  have kinds : ∀ topic, checkKind disk current ⟨(configSwitch, .text config) :: (rootSwitch, .text root) :: others, []⟩ topic = .ok () := by
    intro topic
    rcases settings with rfl | rfl <;> cases topic with
    | config => exact checkKind_config rfl noNuls.1 file
    | root => exact checkKind_root rfl noNuls.2 directory
    | debug | clean | help => rfl
  have help : Parsed.flag? ⟨(configSwitch, .text config) :: (rootSwitch, .text root) :: others, []⟩ .help = none := by
    rcases settings with rfl | rfl <;> rfl
  have taken : parse scope.switches true ("--config" :: config :: "--root" :: root :: rest) =
      .ok ⟨(configSwitch, .text config) :: (rootSwitch, .text root) :: others, []⟩ := by
    rw [parse_files files, read]
    rfl
  rw [prepare, taken]
  show (if (Parsed.flag? ⟨(configSwitch, .text config) :: (rootSwitch, .text root) :: others, []⟩ .help).isNone then _ else _) = _
  simp only [help, forM_checkKind kinds]
  rfl

end

end WorkflowCompiler.Command
