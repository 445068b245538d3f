import WorkflowCompiler.Proofs.JobRecords

/-! The faults of workflows. Those of the jobs of one workflow are summed up, and so are those of a set
of workflows; what is reported in the end is one flat list in the order of the workflows and their jobs.
A workflow whose file name an earlier one has taken is not looked into any further. -/

namespace WorkflowCompiler

namespace Store

/-- The faults of all jobs of a workflow, in the order of its jobs. -/
def workflowFaults (store : Store) (workflow : Workflow) : Except Failure (List Failure) := do
  return (← workflow.jobs.mapM fun (jobId, job) => store.jobFaults (store.job job) jobId).flatten

/-- The settings of a job and of its steps can all be rendered, and its faults can be told. -/
structure RenderableJob (store : Store) (job : Job) (jobId : Value) : Prop where
  checked : ∃ faults, store.jobFaults job jobId = .ok faults
  settings : ∀ field, ∃ tree, store.plain (job.fields field) = .ok tree
  steps : ∀ step ∈ store.jobSteps job, ∀ field, ∃ tree, store.plain (step.fields field) = .ok tree

/-- The workflow has a text for a file name, and nothing in it is unrenderable. -/
structure Renderable (store : Store) (workflow : Workflow) : Prop where
  filed : workflow.fileName.label?.isSome
  named : ∃ name, store.wording workflow.name = .ok name
  settings : ∀ field, ∃ tree, store.plain (workflow.fields field) = .ok tree
  events : ∀ event ∈ workflow.events, ∃ options tree,
    store.eventOptions event.1 event.2 = .ok options ∧ store.plain options = .ok tree
  jobs : ∀ entry ∈ workflow.jobs, RenderableJob store (store.job entry.2) entry.1

section

variable {store : Store} {job : Job} {jobId : Value} {workflow : Workflow} {faults failures : List Failure}

theorem exists_recordOf (plain : Value → Except Failure Tree) (fields : List φ) (key : φ → String) (value : φ → Value)
    (each : ∀ field, ∃ tree, plain (value field) = .ok tree) :
    ∃ record, recordOf plain (fields.map fun field => (key field, value field)) = .ok record := by
  apply exists_mapM
  intro entry member
  obtain ⟨field, -, rfl⟩ := List.mem_map.mp (List.mem_filter.mp member).1
  obtain ⟨tree, rendered⟩ := each field
  refine ⟨(key field, tree), ?_⟩
  simp only [rendered]
  rfl

theorem mem_repetitions {label : String} {seen ids : List Value} {causes : List Cause}
    (found : jobFaults.repetitions store label seen ids = .ok causes) : ∀ cause ∈ causes, cause.category = .step := by
  induction ids generalizing seen causes with
  | nil =>
    cases found
    simp
  | cons id ids ih =>
    rw [jobFaults.repetitions] at found
    split at found
    · cases found
    · obtain ⟨more, later, found⟩ := ok_of_bind found
      split at found
      · obtain ⟨word, -, same⟩ := ok_of_bind found
        cases same
        exact List.forall_mem_cons.mpr ⟨rfl, ih later⟩
      · cases found
        exact ih later

/-- Every fault of a job is one of the job or of a step, and sums up no others. -/
theorem mem_jobFaults (checked : store.jobFaults job jobId = .ok faults) :
    ∀ fault ∈ faults, (fault.category = .job ∨ fault.category = .step) ∧ fault.children = [] := by
  obtain ⟨label, -, checked⟩ := ok_of_bind checked
  obtain ⟨repeated, found, same⟩ := ok_of_bind checked
  cases same
  intro fault member
  obtain ⟨cause, inside, rfl⟩ := List.mem_map.mp member
  refine ⟨?_, rfl⟩
  rcases List.mem_append.mp inside with early | late
  · left
    rcases List.mem_append.mp early with work | runner
    · split at work
      · rw [List.mem_singleton.mp work]
        rfl
      · split at work
        · rw [List.mem_singleton.mp work]
          rfl
        · cases work
    · split at runner
      · rw [List.mem_singleton.mp runner]
        rfl
      · cases runner
  · exact .inr (mem_repetitions found cause late)

theorem wording_jobId (checked : store.jobFaults job jobId = .ok faults) : ∃ name, store.wording jobId = .ok name := by
  by_cases unset : jobId.isNull = true
  · rw [eq_null unset]
    exact ⟨"None", rfl⟩
  · obtain ⟨label, called, -⟩ := ok_of_bind checked
    rw [Job.label, if_pos (by simp [unset])] at called
    exact ⟨label, called⟩

/-- A renderable job is rendered, unless it has faults: then these are what it fails with. -/
theorem jobRecord_outcome (renderable : RenderableJob store job jobId) :
    ∃ faults, store.jobFaults job jobId = .ok faults ∧
      (faults = [] → ∃ tree, store.jobRecord store.plain job jobId = .ok tree) ∧
      (faults ≠ [] → ∃ label, store.jobRecord store.plain job jobId = .error (.mk (.invalidJob label) faults)) := by
  obtain ⟨faults, checked⟩ := renderable.checked
  obtain ⟨label, called, -⟩ := ok_of_bind checked
  refine ⟨faults, checked, ?_, fun faulty => ⟨label, jobRecord_faulty called checked faulty⟩⟩
  rintro rfl
  have steps : ∀ step ∈ store.jobSteps job, ∃ tree, stepRecord store.plain step = .ok tree := by
    intro step member
    obtain ⟨record, made⟩ :=
      exists_recordOf store.plain StepField.all StepField.key step.fields (renderable.steps step member)
    exact ⟨Tree.record record, by rw [stepRecord, made]; rfl⟩
  obtain ⟨trees, rendered⟩ := exists_mapM steps
  obtain ⟨settings, made⟩ := exists_recordOf store.plain JobField.all JobField.key job.fields renderable.settings
  exact ⟨_, by rw [jobRecord_settled checked, rendered, made]; rfl⟩

theorem flatten_cons_aggregate {cause : Cause} (kind : cause.category = .validation) :
    Failure.flatten (.mk cause faults :: failures) = faults ++ Failure.flatten failures := by
  have summed : (Failure.mk cause faults).category = .validation := kind
  rw [Failure.flatten, List.flatMap_cons, summed]
  rfl

theorem flatten_cons_single {failure : Failure} (kind : failure.category ≠ .validation) :
    Failure.flatten (failure :: failures) = failure :: Failure.flatten failures := by
  rw [Failure.flatten, List.flatMap_cons, if_neg (by simpa using kind)]
  rfl

/-- The jobs of a workflow fail together with what each of them fails with. -/
theorem jobRecords_outcome {jobs : List (Value × Nat)}
    (renderable : ∀ entry ∈ jobs, RenderableJob store (store.job entry.2) entry.1) :
    ∃ faults records failures, jobs.mapM (fun (jobId, job) => store.jobFaults (store.job job) jobId) = .ok faults ∧
      store.jobRecords store.plain jobs = .ok (records, failures) ∧ Failure.flatten failures = faults.flatten ∧
      (failures = [] ↔ faults.flatten = []) := by
  induction jobs with
  | nil => exact ⟨[], [], [], rfl, rfl, rfl, by simp⟩
  | cons entry jobs ih =>
    obtain ⟨jobId, job⟩ := entry
    obtain ⟨faults, records, failures, found, collected, flat, none⟩ :=
      ih fun entry member => renderable entry (List.mem_cons_of_mem _ member)
    obtain ⟨own, checked, sound, faulty⟩ := jobRecord_outcome (renderable (jobId, job) List.mem_cons_self)
    have told : ((jobId, job) :: jobs).mapM (fun (jobId, job) => store.jobFaults (store.job job) jobId) =
        .ok (own :: faults) := by
      rw [List.mapM_cons, found]
      show (store.jobFaults (store.job job) jobId >>= fun _ => _) = _
      rw [checked]
      rfl
    by_cases settled : own = []
    · obtain ⟨tree, rendered⟩ := sound settled
      obtain ⟨name, worded⟩ := wording_jobId checked
      subst settled
      have kept : ∃ key, store.jobRecords store.plain ((jobId, job) :: jobs) = .ok ((.text key, tree) :: records, failures) := by
        cases jobId with
        | choice member =>
          refine ⟨member.text, ?_⟩
          rw [jobRecords, rendered]
          simp only
          rw [collected]
          rfl
        | _ =>
          refine ⟨name, ?_⟩
          rw [jobRecords, rendered]
          simp only
          rw [collected, worded]
          rfl
      obtain ⟨key, kept⟩ := kept
      exact ⟨[] :: faults, (.text key, tree) :: records, failures, told, kept, flat, none⟩
    · obtain ⟨label, failed⟩ := faulty settled
      refine ⟨own :: faults, records, .mk (.invalidJob label) own :: failures, told, ?_, ?_, ?_⟩
      · rw [jobRecords, failed]
        simp only
        rw [collected]
        rfl
      · rw [flatten_cons_aggregate rfl, flat, List.flatten_cons]
      · simp [settled]

theorem workflowSections_settled {plain : Value → Except Failure Tree} {jobs : List (Tree × Tree)}
    (collected : store.jobRecords plain workflow.jobs = .ok (jobs, [])) :
    store.workflowSections plain workflow = do
      let events ← workflow.events.mapM fun event => do
        return (event.1, ← plain (← store.eventOptions event.1 event.2))
      let settings ← recordOf plain (WorkflowField.all.map fun field => (field.key, workflow.fields field))
      return (if events.isEmpty then [] else [("on", Tree.record events)]) ++ settings
        ++ (if jobs.isEmpty then [] else [("jobs", .map (mergeKeys jobs))]) := by
  rw [workflowSections, collected]
  rfl

/-- A renderable workflow is rendered, unless its jobs have faults: then these are what it fails with. -/
theorem renderWorkflow_outcome {identity : Nat} (renderable : Renderable store (store.workflow identity)) :
    ∃ faults, store.workflowFaults (store.workflow identity) = .ok faults ∧
      (faults = [] → ∃ record, store.renderWorkflow identity = .ok record) ∧
      (faults ≠ [] → ∃ name, store.renderWorkflow identity = .error (.mk (.invalidWorkflow name) faults)) := by
  obtain ⟨faults, records, failures, found, collected, flat, none⟩ := jobRecords_outcome renderable.jobs
  refine ⟨faults.flatten, by rw [workflowFaults, found]; rfl, ?_, ?_⟩
  · intro settled
    rw [← none] at settled
    subst settled
    have events : ∀ event ∈ (store.workflow identity).events, ∃ entry : String × Tree, (do
        return (event.1, ← store.plain (← store.eventOptions event.1 event.2)) : Except Failure _) = .ok entry := by
      intro event member
      obtain ⟨options, tree, given, rendered⟩ := renderable.events event member
      exact ⟨(event.1, tree), by rw [given]; show (store.plain options >>= fun _ => _) = _; rw [rendered]; rfl⟩
    obtain ⟨on, told⟩ := exists_mapM events
    obtain ⟨settings, made⟩ := exists_recordOf store.plain WorkflowField.all WorkflowField.key
      (store.workflow identity).fields renderable.settings
    exact ⟨⟨(store.workflow identity).name, _⟩, by rw [renderWorkflow, workflowSections_settled collected, told, made]; rfl⟩
  · intro faulty
    obtain ⟨name, worded⟩ := renderable.named
    obtain ⟨failure, more, rfl⟩ := List.exists_cons_of_ne_nil (mt none.mp faulty)
    refine ⟨name, ?_⟩
    rw [renderWorkflow, workflowSections, collected]
    show (store.wording (store.workflow identity).name >>= fun _ => _) >>= _ = _
    rw [worded, ← flat]
    rfl

end

end Store

namespace Publish
open Store

/-- The fault of a workflow whose file name one of the earlier workflows has. -/
def clash (store : Store) (earlier : List Nat) (identity : Nat) : Except Failure (List Failure) :=
  let workflow := store.workflow identity
  match earlier.find? fun other => (store.workflow other).fileName.chars? == workflow.fileName.chars? with
  | none => .ok []
  | some owner => do
    return [.ofCause (.sharedFileName (← store.wording (store.workflow owner).name) (← store.wording workflow.name)
      (← store.wording workflow.fileName))]

/-- The faults of workflows in order, each one's file name first and then its jobs. With `hides`, the jobs
of a workflow whose file name is taken are left out. -/
def report (hides : Bool) (store : Store) (earlier : List Nat) : List Nat → Except Failure (List Failure)
  | [] => .ok []
  | identity :: rest => do
    let taken ← clash store earlier identity
    let faults ← store.workflowFaults (store.workflow identity)
    let others ← report hides store (earlier ++ [identity]) rest
    return taken ++ (if hides && !taken.isEmpty then [] else faults) ++ others

/-- The owners of file names are the first workflows that have them. -/
def Tracks (store : Store) (owners : Owners) (earlier : List Nat) : Prop :=
  ∀ label : Label, Value.lookup? (.ofLabel label) owners =
    (earlier.find? fun other => (store.workflow other).fileName.chars? == some label.chars).map fun other =>
      (store.workflow other).name

section

variable {store : Store} {owners : Owners} {earlier identities : List Nat} {identity : Nat}

theorem tracks_nil : Tracks store [] [] := fun _ => rfl

theorem Tracks.free {label : Label} (tracks : Tracks store owners earlier)
    (filed : (store.workflow identity).fileName = .ofLabel label) :
    Tracks store (owners ++ [((store.workflow identity).fileName, (store.workflow identity).name)]) (earlier ++ [identity]) := by
  intro other
  have before := tracks other
  rw [Value.lookup?] at before ⊢
  rw [List.find?_append, List.find?_append, Option.map_or, Option.map_or, before, filed]
  congr 1
  by_cases same : label.chars = other.chars
  · simp [filed, same]
  · simp [filed, same, Ne.symm same]

theorem Tracks.taken {label : Label} {owner : Nat} (tracks : Tracks store owners earlier)
    (filed : (store.workflow identity).fileName = .ofLabel label)
    (found : earlier.find? (fun other => (store.workflow other).fileName.chars? == some label.chars) = some owner) :
    Tracks store owners (earlier ++ [identity]) := by
  intro other
  rw [tracks other, List.find?_append]
  by_cases same : label.chars = other.chars
  · rw [← same, found]
    rfl
  · simp [filed, same]

/-- What has been collected: faults that sum up to the report, and if there are none the record of every
workflow under its file name. -/
structure Collected (store : Store) (identities : List Nat) (shown : List Failure)
    (entries : List (Value × WorkflowRecord)) (faults : List Failure) : Prop where
  flat : Failure.flatten faults = shown
  none : faults = [] ↔ shown = []
  whole : shown = [] → List.Forall₂ (fun identity entry =>
    entry.1 = (store.workflow identity).fileName ∧ store.renderWorkflow identity = .ok entry.2) identities entries

section
variable {shown own faults : List Failure} {entries : List (Value × WorkflowRecord)}

theorem Collected.taken {fault : Failure} (kind : fault.category ≠ .validation) (more : Collected store identities shown entries faults) :
    Collected store (identity :: identities) (fault :: shown) entries (fault :: faults) where
  flat := by rw [flatten_cons_single kind, more.flat]
  none := by simp
  whole := fun none => absurd none (List.cons_ne_nil _ _)

theorem Collected.sound {record : WorkflowRecord} (rendered : store.renderWorkflow identity = .ok record)
    (more : Collected store identities shown entries faults) :
    Collected store (identity :: identities) shown (((store.workflow identity).fileName, record) :: entries) faults where
  flat := more.flat
  none := more.none
  whole := fun none => .cons ⟨rfl, rendered⟩ (more.whole none)

theorem Collected.faulty {name : String} (faulty : own ≠ []) (more : Collected store identities shown entries faults) :
    Collected store (identity :: identities) (own ++ shown) entries (.mk (.invalidWorkflow name) own :: faults) where
  flat := by rw [flatten_cons_aggregate rfl, more.flat]
  none := by simp [faulty]
  whole := fun none => absurd (List.append_eq_nil_iff.mp none).1 faulty

end

theorem exists_wording_snoc (named : ∀ other ∈ earlier, ∃ name, store.wording (store.workflow other).name = .ok name)
    (here : ∃ name, store.wording (store.workflow identity).name = .ok name) :
    ∀ other ∈ earlier ++ [identity], ∃ name, store.wording (store.workflow other).name = .ok name := by
  intro other member
  rcases List.mem_append.mp member with before | last
  · exact named other before
  · rwa [List.mem_singleton.mp last]

theorem clash_free (found : earlier.find? (fun other =>
    (store.workflow other).fileName.chars? == (store.workflow identity).fileName.chars?) = none) :
    clash store earlier identity = .ok [] := by
  rw [clash, found]

theorem clash_taken {label : Label} {owner : Nat} (filed : (store.workflow identity).fileName = .ofLabel label)
    (named : ∀ other ∈ earlier, ∃ name, store.wording (store.workflow other).name = .ok name)
    (here : ∃ name, store.wording (store.workflow identity).name = .ok name)
    (found : earlier.find? (fun other =>
      (store.workflow other).fileName.chars? == (store.workflow identity).fileName.chars?) = some owner) :
    ∃ first second, store.wording (store.workflow owner).name = .ok first ∧
      store.wording (store.workflow identity).name = .ok second ∧
      clash store earlier identity = .ok [.ofCause (.sharedFileName first second label.word)] := by
  obtain ⟨first, owned⟩ := named owner (List.mem_of_find?_eq_some found)
  obtain ⟨second, worded⟩ := here
  refine ⟨first, second, owned, worded, ?_⟩
  rw [clash, found, filed, wording_ofLabel, worded]
  show (store.wording (store.workflow owner).name >>= fun _ => _) = _
  rw [owned]
  rfl

theorem clash_outcome {label : Label} (filed : (store.workflow identity).fileName = .ofLabel label)
    (named : ∀ other ∈ earlier, ∃ name, store.wording (store.workflow other).name = .ok name)
    (here : ∃ name, store.wording (store.workflow identity).name = .ok name) :
    ∃ taken, clash store earlier identity = .ok taken ∧ (taken ≠ [] ↔
      ∃ owner ∈ earlier, (store.workflow owner).fileName.chars? = (store.workflow identity).fileName.chars?) := by
  cases found : earlier.find? fun other =>
      (store.workflow other).fileName.chars? == (store.workflow identity).fileName.chars? with
  | none =>
    refine ⟨[], clash_free found, iff_of_false (by simp) ?_⟩
    rintro ⟨owner, member, same⟩
    exact List.find?_eq_none.mp found owner member (by simpa using same)
  | some owner =>
    obtain ⟨first, second, -, -, clashes⟩ := clash_taken filed named here found
    refine ⟨_, clashes, iff_of_true (by simp) ⟨owner, List.mem_of_find?_eq_some found, ?_⟩⟩
    simpa using List.find?_some found

theorem collectRecords_taken {owner : Value} {workflows : List Value} (isKey : (store.workflow identity).fileName.isKey = true)
    (owned : Value.lookup? (store.workflow identity).fileName owners = some owner) :
    collectRecords store owners (.workflow identity :: workflows) = do
      let fault := Failure.ofCause (.sharedFileName (← store.wording owner)
        (← store.wording (store.workflow identity).name) (← store.wording (store.workflow identity).fileName))
      let (records, faults) ← collectRecords store owners workflows
      return (records, fault :: faults) := by
  rw [collectRecords, isKey, owned]
  rfl

theorem collectRecords_free {workflows : List Value} (isKey : (store.workflow identity).fileName.isKey = true)
    (owned : Value.lookup? (store.workflow identity).fileName owners = none) :
    collectRecords store owners (.workflow identity :: workflows) =
      let owners := owners ++ [((store.workflow identity).fileName, (store.workflow identity).name)]
      match store.renderWorkflow identity with
      | .ok record => do
        let (records, faults) ← collectRecords store owners workflows
        return (((store.workflow identity).fileName, record) :: records, faults)
      | .error fault => do
        if fault.category != .validation then .error fault
        let (records, faults) ← collectRecords store owners workflows
        return (records, fault :: faults) := by
  rw [collectRecords, isKey, owned]
  rfl

theorem collectRecords_report (tracks : Tracks store owners earlier)
    (named : ∀ other ∈ earlier, ∃ name, store.wording (store.workflow other).name = .ok name)
    (renderable : ∀ identity ∈ identities, Renderable store (store.workflow identity)) :
    ∃ shown entries faults, report true store earlier identities = .ok shown ∧
      collectRecords store owners (identities.map .workflow) = .ok (entries, faults) ∧
      Collected store identities shown entries faults := by
  induction identities generalizing owners earlier with
  | nil => exact ⟨[], [], [], rfl, rfl, rfl, by simp, fun _ => .nil⟩
  | cons identity identities ih =>
    have here := renderable identity List.mem_cons_self
    obtain ⟨label, known⟩ := Option.isSome_iff_exists.mp here.filed
    have filed := eq_ofLabel known
    have later := fun other member => renderable other (List.mem_cons_of_mem _ member)
    have wordable := exists_wording_snoc named here.named
    obtain ⟨own, told, sound, faulty⟩ := renderWorkflow_outcome here
    have isKey : (store.workflow identity).fileName.isKey = true := by rw [filed, isKey_ofLabel]
    have chars : (store.workflow identity).fileName.chars? = some label.chars := by rw [filed, chars?_ofLabel]
    have owned := tracks label
    rw [← filed] at owned
    cases found : earlier.find? fun other => (store.workflow other).fileName.chars? == some label.chars with
    | some owner =>
      obtain ⟨shown, entries, faults, reported, collected, whole⟩ := ih (tracks.taken filed found) wordable later
      rw [← chars] at found
      obtain ⟨first, second, before, after, clashes⟩ := clash_taken filed named here.named found
      rw [← chars, found, Option.map_some] at owned
      let fault := Failure.ofCause (.sharedFileName first second label.word)
      have kind : fault.category ≠ .validation := by
        show Category.workflow ≠ _
        decide
      refine ⟨fault :: shown, entries, fault :: faults, ?_, ?_, whole.taken kind⟩
      · rw [report, clashes, told, reported]
        rfl
      · rw [List.map_cons, collectRecords_taken isKey owned, before, after, filed, wording_ofLabel, collected]
        rfl
    | none =>
      obtain ⟨shown, entries, faults, reported, collected, whole⟩ := ih (tracks.free filed) wordable later
      rw [← chars] at found
      rw [← chars, found, Option.map_none] at owned
      have reports : report true store earlier (identity :: identities) = .ok (own ++ shown) := by
        rw [report, clash_free found, told, reported]
        rfl
      by_cases settled : own = []
      · obtain ⟨record, rendered⟩ := sound settled
        subst settled
        refine ⟨shown, ((store.workflow identity).fileName, record) :: entries, faults, reports, ?_, whole.sound rendered⟩
        rw [List.map_cons, collectRecords_free isKey owned, rendered]
        simp only
        rw [collected]
        rfl
      · obtain ⟨name, failed⟩ := faulty settled
        refine ⟨own ++ shown, entries, .mk (.invalidWorkflow name) own :: faults, reports, ?_, whole.faulty settled⟩
        rw [List.map_cons, collectRecords_free isKey owned, failed]
        simp only
        rw [collected]
        rfl

/-- Workflows are rendered, or fail with what is reported of them. -/
theorem records_outcome (renderable : ∀ identity ∈ identities, Renderable store (store.workflow identity)) :
    ∃ shown, report true store [] identities = .ok shown ∧
      (shown = [] → ∃ entries, records store (identities.map .workflow) = .ok entries ∧ List.Forall₂ (fun identity entry =>
        entry.1 = (store.workflow identity).fileName ∧ store.renderWorkflow identity = .ok entry.2) identities entries) ∧
      (shown ≠ [] → records store (identities.map .workflow) = .error (.mk .invalidWorkflows shown)) := by
  obtain ⟨shown, entries, faults, reported, collected, whole⟩ := collectRecords_report tracks_nil (by simp) renderable
  refine ⟨shown, reported, ?_, ?_⟩
  · intro none
    refine ⟨entries, ?_, whole.whole none⟩
    rw [records, collected, whole.none.mpr none]
    rfl
  · intro faulty
    obtain ⟨fault, more, rfl⟩ := List.exists_cons_of_ne_nil (mt whole.none.mp faulty)
    rw [records, collected, ← whole.flat]
    rfl

theorem exists_workflowFaults (renderable : Renderable store (store.workflow identity)) :
    ∃ faults, store.workflowFaults (store.workflow identity) = .ok faults := by
  obtain ⟨faults, told, -⟩ := renderWorkflow_outcome renderable
  exact ⟨faults, told⟩

/-- With file names of their own, workflows are reported by the faults of their jobs alone. -/
theorem report_distinct (hides : Bool)
    (distinct : ((earlier ++ identities).map fun identity => (store.workflow identity).fileName.chars?).Nodup)
    (renderable : ∀ identity ∈ identities, Renderable store (store.workflow identity)) :
    ∃ faults, identities.mapM (fun identity => store.workflowFaults (store.workflow identity)) = .ok faults ∧
      report hides store earlier identities = .ok faults.flatten := by
  induction identities generalizing earlier with
  | nil => exact ⟨[], rfl, rfl⟩
  | cons identity identities ih =>
    have free : earlier.find? (fun other =>
        (store.workflow other).fileName.chars? == (store.workflow identity).fileName.chars?) = none := by
      rw [List.find?_eq_none]
      intro other before same
      rw [List.map_append, List.nodup_append] at distinct
      exact distinct.2.2 _ (List.mem_map_of_mem before) _ (List.mem_map_of_mem List.mem_cons_self) (by simpa using same)
    rw [List.append_cons] at distinct
    obtain ⟨faults, told, reported⟩ := ih distinct fun other member => renderable other (List.mem_cons_of_mem _ member)
    obtain ⟨own, first⟩ := exists_workflowFaults (renderable identity List.mem_cons_self)
    refine ⟨own :: faults, by rw [List.mapM_cons, first, told]; rfl, ?_⟩
    rw [report, clash_free free, first, reported]
    cases hides <;> rfl

/-- Leaving out the jobs of workflows whose file name is taken loses faults, unless these have none. -/
theorem report_hides (renderable : ∀ identity ∈ identities, Renderable store (store.workflow identity))
    (named : ∀ other ∈ earlier, ∃ name, store.wording (store.workflow other).name = .ok name) :
    ∃ shown complete, report true store earlier identities = .ok shown ∧ report false store earlier identities = .ok complete ∧
      shown.Sublist complete ∧
      (shown = complete ↔ ∀ before identity after, identities = before ++ identity :: after →
        (∃ owner ∈ earlier ++ before, (store.workflow owner).fileName.chars? = (store.workflow identity).fileName.chars?) →
        store.workflowFaults (store.workflow identity) = .ok []) := by
  induction identities generalizing earlier with
  | nil => exact ⟨[], [], rfl, rfl, .slnil, by simp⟩
  | cons identity identities ih =>
    have here := renderable identity List.mem_cons_self
    obtain ⟨label, known⟩ := Option.isSome_iff_exists.mp here.filed
    have wordable := exists_wording_snoc named here.named
    obtain ⟨shown, complete, reported, whole, less, same⟩ :=
      ih (fun other member => renderable other (List.mem_cons_of_mem _ member)) wordable
    obtain ⟨own, told⟩ := exists_workflowFaults here
    obtain ⟨taken, clashes, owned⟩ := clash_outcome (eq_ofLabel known) named here.named
    have split : (∀ before other after, identity :: identities = before ++ other :: after →
          (∃ owner ∈ earlier ++ before, (store.workflow owner).fileName.chars? = (store.workflow other).fileName.chars?) →
          store.workflowFaults (store.workflow other) = .ok []) ↔ (taken ≠ [] → own = []) ∧ shown = complete := by
      rw [same]
      constructor
      · intro all
        constructor
        · intro clashing
          have none := all [] identity identities rfl (by simpa using owned.mp clashing)
          exact Except.ok.inj (told.symm.trans none)
        · rintro before other after rfl
          simpa using all (identity :: before) other after rfl
      · rintro ⟨first, later⟩ before other after inside known
        rcases List.cons_eq_append_iff.mp inside with ⟨rfl, here⟩ | ⟨more, rfl, rest⟩
        · cases here
          rw [told, first (owned.mpr (by simpa using known))]
        · exact later more other after rest (by simpa using known)
    rw [split]
    refine ⟨taken ++ (if taken ≠ [] then [] else own) ++ shown, taken ++ own ++ complete, ?_, ?_, ?_, ?_⟩
    · rw [report, clashes, told, reported]
      cases taken <;> rfl
    · rw [report, clashes, told, whole]
      rfl
    · refine (List.Sublist.append_left ?_ taken).append less
      split <;> simp
    · by_cases clashing : taken ≠ []
      · rw [if_pos clashing, List.append_nil, List.append_assoc, List.append_cancel_left_eq]
        constructor
        · intro equal
          have none : own = [] := by
            have lengths := congrArg List.length equal
            have bound := less.length_le
            rw [List.length_append] at lengths
            exact List.length_eq_zero_iff.mp (by omega)
          exact ⟨fun _ => none, by rw [equal, none, List.nil_append]⟩
        · rintro ⟨none, equal⟩
          rw [none clashing, equal, List.nil_append]
      · rw [if_neg clashing]
        simp [clashing]

theorem workflowFaults_ne_nil_iff {workflow : Workflow} {faults : List Failure} (told : store.workflowFaults workflow = .ok faults) :
    faults ≠ [] ↔ ∃ entry ∈ workflow.jobs, ∃ fault more, store.jobFaults (store.job entry.2) entry.1 = .ok (fault :: more) := by
  obtain ⟨each, checked, same⟩ := ok_of_bind told
  cases same
  have paired := forall₂_of_mapM checked
  clear told checked
  generalize workflow.jobs = jobs at paired
  induction paired with
  | nil => simp
  | cons one _ ih =>
    rename_i entry own jobs each _
    rw [List.flatten_cons, List.exists_mem_cons_iff, ne_eq, List.append_eq_nil_iff, not_and_or]
    refine or_congr ?_ ih
    change store.jobFaults (store.job entry.2) entry.1 = .ok own at one
    rw [one]
    cases own <;> simp

theorem mem_workflowFaults {workflow : Workflow} {faults : List Failure} (told : store.workflowFaults workflow = .ok faults) :
    ∀ fault ∈ faults, (fault.category = .job ∨ fault.category = .step) ∧ fault.children = [] := by
  obtain ⟨each, checked, same⟩ := ok_of_bind told
  cases same
  intro fault member
  obtain ⟨own, inside, here⟩ := List.mem_flatten.mp member
  obtain ⟨entry, -, one⟩ := mem_mapM checked own inside
  exact mem_jobFaults one fault here

/-- Workflows with file names of their own fail exactly if some job has a fault, and then with the faults of all
jobs of all workflows in one flat list; otherwise each is rendered under its file name. -/
theorem records_sum_up_jobs (store : Store) (identities : List Nat)
    (distinct : (identities.map fun identity => (store.workflow identity).fileName.chars?).Nodup)
    (renderable : ∀ identity ∈ identities, Renderable store (store.workflow identity)) :
    ∃ faults, identities.mapM (fun identity => store.workflowFaults (store.workflow identity)) = .ok faults ∧
      ((∃ failure, records store (identities.map .workflow) = .error failure ∧ failure.category = .validation) ↔
        ∃ identity ∈ identities, ∃ entry ∈ (store.workflow identity).jobs, ∃ fault more,
          store.jobFaults (store.job entry.2) entry.1 = .ok (fault :: more)) ∧
      (∀ failure, records store (identities.map .workflow) = .error failure →
        failure = .mk .invalidWorkflows faults.flatten ∧ faults.flatten ≠ []) ∧
      (∀ fault ∈ faults.flatten, (fault.category = .job ∨ fault.category = .step) ∧ fault.children = []) ∧
      (faults.flatten = [] → ∃ entries, records store (identities.map .workflow) = .ok entries ∧
        List.Forall₂ (fun identity entry => entry.1 = (store.workflow identity).fileName ∧
          store.renderWorkflow identity = .ok entry.2) identities entries) := by
  obtain ⟨faults, told, reported⟩ : ∃ faults, _ ∧ report true store [] identities = .ok (List.flatten faults) :=
    report_distinct true distinct renderable
  obtain ⟨shown, same, sound, faulty⟩ := records_outcome renderable
  rw [reported] at same
  cases same
  have some : faults.flatten ≠ [] ↔ ∃ identity ∈ identities, ∃ entry ∈ (store.workflow identity).jobs, ∃ fault more,
      store.jobFaults (store.job entry.2) entry.1 = .ok (fault :: more) := by
    have paired := forall₂_of_mapM told
    clear told reported sound faulty renderable distinct
    induction paired with
    | nil => simp
    | cons one _ ih =>
      rw [List.flatten_cons, List.exists_mem_cons_iff, ne_eq, List.append_eq_nil_iff, not_and_or]
      exact or_congr (workflowFaults_ne_nil_iff one) ih
  refine ⟨faults, told, ?_, ?_, ?_, sound⟩
  · rw [← some]
    constructor
    · rintro ⟨failure, failed, -⟩ none
      obtain ⟨entries, made, -⟩ := sound none
      rw [made] at failed
      cases failed
    · exact fun any => ⟨_, faulty any, rfl⟩
  · intro failure failed
    by_cases none : faults.flatten = []
    · obtain ⟨entries, made, -⟩ := sound none
      rw [made] at failed
      cases failed
    · rw [faulty none] at failed
      cases failed
      exact ⟨rfl, none⟩
  · intro fault member
    obtain ⟨own, inside, here⟩ := List.mem_flatten.mp member
    obtain ⟨identity, -, one⟩ := mem_mapM told own inside
    exact mem_workflowFaults one fault here

/-- Workflows fail with one fault for each file name that is taken, in the place of whatever is wrong with the jobs
of that workflow. So the report is complete exactly if nothing is wrong with them. -/
theorem records_report_complete_iff (store : Store) (identities : List Nat)
    (renderable : ∀ identity ∈ identities, Renderable store (store.workflow identity)) :
    ∃ shown complete, report true store [] identities = .ok shown ∧ report false store [] identities = .ok complete ∧
      ((∃ failure, records store (identities.map .workflow) = .error failure) ↔ shown ≠ []) ∧
      (∀ failure, records store (identities.map .workflow) = .error failure → failure = .mk .invalidWorkflows shown) ∧
      shown.Sublist complete ∧
      (shown = complete ↔ ∀ before identity after, identities = before ++ identity :: after →
        (∃ owner ∈ before, (store.workflow owner).fileName.chars? = (store.workflow identity).fileName.chars?) →
        store.workflowFaults (store.workflow identity) = .ok []) := by
  obtain ⟨shown, complete, reported, whole, less, same⟩ :
      ∃ shown complete, report true store [] identities = .ok shown ∧ _ := report_hides renderable (by simp)
  obtain ⟨found, again, sound, faulty⟩ := records_outcome renderable
  rw [reported] at again
  cases again
  refine ⟨shown, complete, reported, whole, ⟨?_, fun some => ⟨_, faulty some⟩⟩, ?_, less, same⟩
  · rintro ⟨failure, failed⟩ none
    obtain ⟨entries, made, -⟩ := sound none
    rw [made] at failed
    cases failed
  · intro failure failed
    by_cases none : shown = []
    · obtain ⟨entries, made, -⟩ := sound none
      rw [made] at failed
      cases failed
    · rw [faulty none] at failed
      cases failed
      rfl

end

/-- Two workflows with one job each, which does nothing; `fileName` is that of the second one. -/
def idle (fileName : String) : Store where
  jobs := [{}]
  workflows := [
    { name := .text "CI", fileName := .text "ci", jobs := [(.text "build", 0)] },
    { name := .text "Release", fileName := .text fileName, jobs := [(.text "main", 0)] }]

theorem renderable_idle (fileName : String) :
    ∀ identity ∈ [0, 1], Renderable (idle fileName) ((idle fileName).workflow identity) := by
  have job : ∀ jobId, (∃ label, jobId = .text label) → RenderableJob (idle fileName) ((idle fileName).job 0) jobId := by
    rintro jobId ⟨label, rfl⟩
    refine ⟨⟨_, rfl⟩, fun field => ⟨.null, ?_⟩, ?_⟩
    · cases field <;> rfl
    · intro step member
      cases member
  intro identity member
  fin_cases member
  · refine ⟨rfl, ⟨"CI", rfl⟩, fun field => ⟨.null, by cases field <;> rfl⟩, ?_, ?_⟩
    · intro event inside
      cases inside
    · intro entry inside
      rw [List.mem_singleton.mp inside]
      exact job _ ⟨_, rfl⟩
  · refine ⟨rfl, ⟨"Release", rfl⟩, fun field => ⟨.null, by cases field <;> rfl⟩, ?_, ?_⟩
    · intro event inside
      cases inside
    · intro entry inside
      rw [List.mem_singleton.mp inside]
      exact job _ ⟨_, rfl⟩

theorem records_idle : records (idle "release") [.workflow 0, .workflow 1] =
    .error (.mk .invalidWorkflows ([.neitherStepsNorUses "build", .neitherStepsNorUses "main"].map .ofCause)) := by
  obtain ⟨faults, told, fails, failing, -⟩ := records_sum_up_jobs (idle "release") [0, 1] (by decide) (renderable_idle _)
  obtain ⟨failure, failed, -⟩ := fails.mpr ⟨0, by simp, (.text "build", 0), by simp [idle, Store.workflow], _, _, rfl⟩
  cases told
  rw [show [Value.workflow 0, Value.workflow 1] = [0, 1].map Value.workflow from rfl, failed, (failing failure failed).1]
  rfl

theorem records_clash : ∃ complete, report false (idle "ci") [] [0, 1] = .ok complete ∧
    records (idle "ci") [.workflow 0, .workflow 1] = .error (.mk .invalidWorkflows
      ([.neitherStepsNorUses "build", .sharedFileName "CI" "Release" "ci"].map .ofCause)) := by
  obtain ⟨shown, complete, reported, whole, fails, failing, -⟩ := records_report_complete_iff (idle "ci") [0, 1] (renderable_idle _)
  cases reported
  obtain ⟨failure, failed⟩ := fails.mpr (by simp)
  refine ⟨complete, whole, ?_⟩
  rw [show [Value.workflow 0, Value.workflow 1] = [0, 1].map Value.workflow from rfl, failed, failing failure failed]
  rfl

/-- A file name that is taken hides that the job of the second workflow does nothing. -/
theorem records_hide_job : ∃ shown complete, records (idle "ci") [.workflow 0, .workflow 1] = .error (.mk .invalidWorkflows shown) ∧
    report false (idle "ci") [] [0, 1] = .ok complete ∧
    Failure.ofCause (.neitherStepsNorUses "main") ∈ complete ∧ Failure.ofCause (.neitherStepsNorUses "main") ∉ shown := by
  obtain ⟨shown, reported, -, faulty⟩ := records_outcome (renderable_idle "ci")
  have computed : report true (idle "ci") [] [0, 1] =
      .ok ([.neitherStepsNorUses "build", .sharedFileName "CI" "Release" "ci"].map .ofCause) := rfl
  cases computed.symm.trans reported
  refine ⟨_, [.neitherStepsNorUses "build", .sharedFileName "CI" "Release" "ci", .neitherStepsNorUses "main"].map .ofCause,
    faulty (by simp), rfl, by simp, by simp [Failure.ofCause]⟩

end Publish

end WorkflowCompiler
