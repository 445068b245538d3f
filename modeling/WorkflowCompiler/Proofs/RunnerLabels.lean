import WorkflowCompiler.Proofs.BuiltRecords
import WorkflowCompiler.Proofs.Comparison

/-! The runner of a job with steps. Validation looks at the value as it was given, while what is wanted is a runner in
the record. The two agree on null, texts and lists; there are a few other values that are not empty as they stand and
render to something that is. -/

namespace WorkflowCompiler

namespace Tree

/-- Nothing, or a text, list or mapping with nothing in it. -/
def Bare (tree : Tree) : Prop := tree ∈ [.null, .text "", .list [], .map []]

@[simp] theorem bare_text {text : String} : (Tree.text text).Bare ↔ text = "" := by simp [Bare]

@[simp] theorem bare_list {items : List Tree} : (Tree.list items).Bare ↔ items = [] := by simp [Bare]

@[simp] theorem bare_map {entries : List (Tree × Tree)} : (Tree.map entries).Bare ↔ entries = [] := by simp [Bare]

@[simp] theorem bare_record {fields : List (String × Tree)} : (record fields).Bare ↔ fields = [] := by
  rw [record, bare_map, List.map_eq_nil_iff]

theorem putText_ne_nil (name : String) (value : Tree) (entries : List (Tree × Tree)) : putText name value entries ≠ [] := by
  unfold putText
  split
  · exact List.cons_ne_nil _ _
  · split <;> exact List.cons_ne_nil _ _
  · exact List.cons_ne_nil _ _

end Tree

namespace Value

variable {wording : Value → Except Failure String} {visit : Target → Except Failure Tree}

theorem plainEntry_filled (found : List (Tree × Tree)) (entry : Value × Value) : Gives (· ≠ []) (plainEntry wording visit found entry) := by
  have later : ∀ name : String, Gives (· ≠ []) (do return Tree.putText name (← plainWith wording visit entry.2) found) :=
    fun name => gives_bind fun tree => gives_ok (Tree.putText_ne_nil name tree found)
  obtain ⟨key, value⟩ := entry
  cases key with
  | choice key => exact later key.text
  | _ => exact gives_bind later

theorem plainEntries_filled {found : List (Tree × Tree)} (filled : found ≠ []) (entries : List (Value × Value)) :
    Gives (· ≠ []) (plainEntries wording visit found entries) := by
  induction entries generalizing found with
  | nil => exact gives_ok filled
  | cons entry rest ih => exact (plainEntry_filled found entry).bind fun _ filled => ih filled

end Value

namespace Store

/-- Values that pass for a runner although they render to an empty mapping or text: an empty mapping, a step without
settings, a command with an empty line, and a path without segments or with a single one that is empty. (The path of a
file is never empty.) -/
inductive RendersBare (store : Store) : Value → Prop
  | mapping : RendersBare store (.map [])
  | step (identity : Nat) (unset : ∀ field, (store.step identity).fields field = .null) : RendersBare store (.step identity)
  | command {line output exported : Value} (empty : line.chars? = some "") : RendersBare store (.command line output exported)
  | path {value : Value} {segments : List Label} (shown : value.segments? = some segments)
      (empty : segments.map Label.chars = [] ∨ segments.map Label.chars = [""]) : RendersBare store value
  | file : RendersBare store (.file "")

variable {store : Store} {plain : Value → Except Failure Tree} {job : Job} {jobId value : Value} {tree : Tree}

theorem dotted_eq_empty {segments : List Label} :
    dotted segments = "" ↔ segments.map Label.chars = [] ∨ segments.map Label.chars = [""] := by
  unfold dotted
  generalize segments.map Label.chars = names
  match names with
  | [] => simp
  | [name] => simp
  | first :: second :: rest =>
    simp [String.intercalate_cons_cons]

theorem interpolation_ne_empty (text : String) : interpolation text ≠ "" := by
  simp [interpolation]

/-- A record has no fields if nothing is set. -/
theorem recordOf_eq_nil {fields : List (String × Value)} {record : List (String × Tree)} (made : recordOf plain fields = .ok record) :
    record = [] ↔ ∀ field ∈ fields, field.2 = .null := by
  rw [← List.map_eq_nil_iff (f := Prod.fst), keys_recordOf made, List.map_eq_nil_iff, List.filter_eq_nil_iff]
  refine forall₂_congr fun field _ => ?_
  rw [Bool.not_eq_true', Bool.not_eq_false]
  exact ⟨eq_null, fun unset => by rw [unset]; rfl⟩

theorem bare_stepRecord {step : Step} (made : stepRecord plain step = .ok tree) :
    tree.Bare ↔ ∀ field, step.fields field = .null := by
  obtain ⟨fields, rendered, same⟩ := ok_of_bind made
  cases same
  rw [Tree.bare_record, recordOf_eq_nil rendered]
  constructor
  · exact fun unset field => unset _ (mem_stepFields step field)
  · intro unset entry member
    obtain ⟨field, -, rfl⟩ := List.mem_map.mp member
    exact unset field

/-- What is rendered has passed validation. -/
theorem checked_of_jobRecord (made : store.jobRecord plain job jobId = .ok tree) : store.jobFaults job jobId = .ok [] := by
  obtain ⟨faults, checked, made⟩ := ok_of_bind made
  cases faults with
  | nil => exact checked
  | cons fault more =>
    obtain ⟨_, -, refused⟩ := ok_of_bind made
    cases refused

/-- A job that passes has steps or calls a workflow, and a runner for its steps that is not empty as it stands. -/
theorem work_of_jobFaults (checked : store.jobFaults job jobId = .ok []) :
    (job.steps = [] → job.fields .uses ≠ .null) ∧ (job.steps ≠ [] → (job.fields .runsOn).isEmpty = false) := by
  obtain ⟨label, -, checked⟩ := ok_of_bind checked
  obtain ⟨repeated, -, same⟩ := ok_of_bind checked
  obtain ⟨others, -⟩ := List.append_eq_nil_iff.mp (List.map_eq_nil_iff.mp (Except.ok.inj same))
  obtain ⟨work, runner⟩ := List.append_eq_nil_iff.mp others
  constructor
  · intro none unset
    rw [none, unset] at work
    cases work
  · intro some
    by_contra missing
    rw [if_pos (by simpa [some] using missing)] at runner
    cases runner

/-- The record of a job tells at least its work. -/
theorem not_bare_jobRecord (made : store.jobRecord plain job jobId = .ok tree) : ¬ tree.Bare := by
  have checked := checked_of_jobRecord made
  obtain ⟨trees, settings, steps, fields, rfl⟩ := parts_of_jobRecord made
  rw [Tree.bare_record]
  intro bare
  obtain ⟨rfl, none⟩ := List.append_eq_nil_iff.mp bare
  have idle : job.steps = [] := by
    have empty := isEmpty_of_mapM steps
    cases trees with
    | nil => simpa [jobSteps] using empty
    | cons tree more => cases none
  exact (work_of_jobFaults checked).1 idle ((recordOf_eq_nil fields).mp rfl _ (mem_jobFields job .uses))

theorem filled_of_items {wording : Value → Except Failure String} {visit : Target → Except Failure Tree} {items : List Value}
    (filled : items ≠ []) : Gives (· ≠ []) (Value.plainItems wording visit items) := by
  cases items with
  | nil => exact absurd rfl filled
  | cons item rest => exact gives_bind fun _ => gives_bind fun _ => gives_ok (List.cons_ne_nil _ _)

theorem filled_of_entries {wording : Value → Except Failure String} {visit : Target → Except Failure Tree}
    {entries : List (Value × Value)} (filled : entries ≠ []) : Gives (· ≠ []) (Value.plainEntries wording visit [] entries) := by
  cases entries with
  | nil => exact absurd rfl filled
  | cons entry rest => exact (Value.plainEntry_filled [] entry).bind fun _ filled => Value.plainEntries_filled filled rest

theorem rendersBare_of_bare (rendered : store.plain value = .ok tree) (given : value.isEmpty = false) (bare : tree.Bare) :
    RendersBare store value := by
  cases value with
  | null => cases given
  | bool | int | float =>
    cases rendered
    simp [Tree.Bare] at bare
  | text written =>
    cases rendered
    rw [Tree.bare_text.mp bare] at given
    cases given
  | choice member =>
    cases rendered
    simp [Value.isEmpty, Value.chars?, Value.label?, Label.chars, Tree.bare_text.mp bare] at given
  | file name =>
    cases rendered
    rw [Tree.bare_text.mp bare]
    exact .file
  | list items | tuple items =>
    obtain ⟨trees, made, same⟩ := ok_of_bind rendered
    cases same
    have filled : items ≠ [] := by
      rintro rfl
      cases given
    exact absurd (Tree.bare_list.mp bare) (filled_of_items filled trees made)
  | map entries =>
    obtain ⟨trees, made, same⟩ := ok_of_bind rendered
    cases same
    cases entries with
    | nil => exact .mapping
    | cons entry rest => exact absurd (Tree.bare_map.mp bare) (filled_of_entries (List.cons_ne_nil entry rest) trees made)
  | path segments =>
    cases rendered
    exact .path rfl (dotted_eq_empty.mp (Tree.bare_text.mp bare))
  | pathLike identity segments =>
    rw [plain, Value.plainWith] at rendered
    split at rendered
    · next labels shown =>
      cases rendered
      exact .path shown (dotted_eq_empty.mp (Tree.bare_text.mp bare))
    · cases rendered
  | command line output exported =>
    rw [plain, Value.plainWith] at rendered
    split at rendered
    · next written known =>
      cases rendered
      rw [Tree.bare_text.mp bare] at known
      exact .command known
    · cases rendered
  | expression identity =>
    obtain ⟨text, -, same⟩ := ok_of_bind rendered
    cases same
    exact absurd (Tree.bare_text.mp bare) (interpolation_ne_empty text)
  | step identity => exact .step identity ((bare_stepRecord rendered).mp bare)
  | job identity => exact absurd bare (not_bare_jobRecord rendered)
  | workflow identity =>
    obtain ⟨sections, -, rendered⟩ := ok_of_bind rendered
    obtain ⟨name, -, same⟩ := ok_of_bind rendered
    cases same
    cases Tree.bare_record.mp bare
  | _ => cases rendered

theorem plain_of_segments {segments : List Label} (shown : value.segments? = some segments) :
    store.plain value = .ok (.text (dotted segments)) := by
  cases value with
  | path others =>
    cases shown
    rfl
  | pathLike identity others => rw [plain, Value.plainWith, shown]
  | _ => cases shown

theorem text_or_map_of_rendersBare (rendered : store.plain value = .ok tree) (bare : RendersBare store value) :
    tree = .text "" ∨ tree = .map [] := by
  cases bare with
  | mapping =>
    cases rendered
    exact .inr rfl
  | step identity unset =>
    obtain ⟨fields, -, same⟩ := ok_of_bind rendered
    have none := (bare_stepRecord rendered).mpr unset
    cases same
    rw [Tree.bare_record.mp none]
    exact .inr rfl
  | command empty =>
    rw [plain, Value.plainWith, empty] at rendered
    cases rendered
    exact .inl rfl
  | path shown empty =>
    cases (plain_of_segments shown).symm.trans rendered
    exact .inl (congrArg Tree.text (dotted_eq_empty.mpr empty))
  | file =>
    cases rendered
    exact .inl rfl

/-- A job with steps that is rendered has a runner in its record, which is neither null nor an empty list. It is an
empty text or an empty mapping just if the value given is one of the few that validation lets pass. -/
theorem renderJob_runner {identity : Nat} (steps : (store.job identity).steps ≠ []) (made : store.renderJob identity jobId = .ok tree) :
    ∃ fields runner, tree = Tree.record fields ∧ fields.lookup "runs-on" = some runner ∧
      store.plain ((store.job identity).fields .runsOn) = .ok runner ∧ runner ≠ .null ∧ runner ≠ .list [] ∧
      (runner = .text "" ∨ runner = .map [] ↔ RendersBare store ((store.job identity).fields .runsOn)) := by
  have given := (work_of_jobFaults (checked_of_jobRecord made)).2 steps
  obtain ⟨trees, settings, -, fields, rfl⟩ := parts_of_jobRecord made
  have set : (store.job identity).fields .runsOn ≠ .null := by
    intro unset
    rw [unset] at given
    cases given
  have distinct := (List.nodup_append.mp (nodup_jobKeys (store.job identity))).1
  obtain ⟨runner, rendered, found⟩ := exists_lookup_recordOf fields distinct (mem_jobFields _ .runsOn) set
  have bare (empty : runner.Bare) := text_or_map_of_rendersBare rendered (rendersBare_of_bare rendered given empty)
  refine ⟨_, runner, rfl, ?_, rendered, ?_, ?_, ?_, text_or_map_of_rendersBare rendered⟩
  · have there : settings.lookup "runs-on" = some runner := found
    rw [List.lookup_append, there, Option.some_or]
  · rintro rfl
    rcases bare (by simp [Tree.Bare]) with same | same <;> cases same
  · rintro rfl
    rcases bare (by simp) with same | same <;> cases same
  · rintro (rfl | rfl)
    · exact rendersBare_of_bare rendered given (by simp)
    · exact rendersBare_of_bare rendered given (by simp)

/-- A job whose runner is given as `runner`, with one step that runs a script. -/
def scriptOn (runner : Value) : Store where
  steps := [Step.set {} .run (.text "make")]
  jobs := [Job.set { steps := [0] } .runsOn runner]

theorem renderJob_runner_listed : ∃ fields, (scriptOn (.list [.choice (.runner .ubuntuLatest)])).renderJob 0 .null = .ok (Tree.record fields) ∧
    fields.lookup "runs-on" = some (.list [.text "ubuntu-latest"]) := by
  have made : (scriptOn (.list [.choice (.runner .ubuntuLatest)])).renderJob 0 .null = .ok
      (Tree.record [("runs-on", .list [.text "ubuntu-latest"]), ("steps", .list [Tree.record [("run", .text "make")]])]) := rfl
  have steps : ((scriptOn (.list [.choice (.runner .ubuntuLatest)])).job 0).steps ≠ [] := List.cons_ne_nil 0 []
  obtain ⟨fields, runner, same, found, rendered, -⟩ := renderJob_runner steps made
  cases rendered
  exact ⟨fields, by rw [made, same], found⟩

/-- A runner that is an empty mapping passes and is rendered as it is, where an empty list is refused. -/
theorem emptyMapping_rendered :
    (scriptOn (.map [])).renderJob 0 .null = .ok
      (Tree.record [("runs-on", .map []), ("steps", .list [Tree.record [("run", .text "make")]])]) ∧
    ((scriptOn (.map [])).job 0).steps ≠ [] ∧
    (scriptOn (.list [])).renderJob 0 .null = .error (.mk (.invalidJob "<unnamed>") [.ofCause (.noRunner "<unnamed>")]) :=
  ⟨rfl, List.cons_ne_nil 0 [], rfl⟩

end Store

end WorkflowCompiler
