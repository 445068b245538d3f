import WorkflowCompiler.Proofs.BuiltRecords
import WorkflowCompiler.Proofs.SessionChanges
import WorkflowCompiler.Proofs.SpelledSessions

/-! The needs that a workflow has no job for. They are told from the jobs as they are now, yet they
are those of the record: needs are kept as texts and no workflow has two jobs under equal ids,
whatever has been called before. -/

namespace WorkflowCompiler

namespace Value

/-- No key equals one before it. -/
def KeysApart (entries : List (Value × α)) : Prop := entries.Pairwise fun first second => equals second.1 first.1 = false

theorem KeysApart.insert {entries : List (Value × α)} (apart : KeysApart entries) (key : Value) (item : α) :
    KeysApart (Value.insert key item entries) := by
  induction entries with
  | nil => exact List.pairwise_singleton _ _
  | cons entry rest ih =>
    obtain ⟨other, old⟩ := entry
    obtain ⟨first, later⟩ := List.pairwise_cons.mp apart
    rw [Value.insert]
    split
    · exact List.pairwise_cons.mpr ⟨first, later⟩
    · next new =>
      refine List.pairwise_cons.mpr ⟨fun entry member => ?_, ih later⟩
      rcases mem_insert entry member with same | old
      · rw [same]
        exact Bool.eq_false_iff.mpr new
      · obtain ⟨entry', there, same⟩ := List.mem_map.mp old
        rw [← same]
        exact first entry' there

end Value

theorem forall_mem_modify {good : α → Prop} {items : List α} {change : α → α} (all : ∀ item ∈ items, good item)
    (kept : ∀ item, good item → good (change item)) (position : Nat) : ∀ item ∈ items.modify position change, good item :=
  fun item member => (old_or_changed all kept position item member).elim (all item) id

theorem forall_mem_append_singleton {good : α → Prop} {items : List α} {new : α} (all : ∀ item ∈ items, good item) (fine : good new) :
    ∀ item ∈ items ++ [new], good item :=
  List.forall_mem_append.mpr ⟨all, List.forall_mem_singleton.mpr fine⟩

/-- Needs are unset or a list of texts. -/
def Job.NeedsTexts (job : Job) : Prop :=
  job.fields .needs = .null ∨ ∃ names : List String, job.fields .needs = .list (names.map .text)

namespace Store

/-- What all changes keep. -/
structure Tidy (store : Store) : Prop where
  needs : ∀ job ∈ store.jobs, job.NeedsTexts
  apart : ∀ workflow ∈ store.workflows, Value.KeysApart workflow.jobs

theorem Tidy.needs_job {store : Store} (tidy : store.Tidy) (identity : Nat) : (store.job identity).NeedsTexts := by
  rcases Nat.lt_or_ge identity store.jobs.length with inside | outside
  · exact forall_getD_iff.mpr tidy.needs identity inside
  · rw [job, List.getD_eq_default _ _ outside]
    exact .inl rfl

theorem Tidy.apart_workflow {store : Store} (tidy : store.Tidy) (identity : Nat) : Value.KeysApart (store.workflow identity).jobs := by
  rcases Nat.lt_or_ge identity store.workflows.length with inside | outside
  · exact forall_getD_iff.mpr tidy.apart identity inside
  · rw [workflow, List.getD_eq_default _ _ outside]
    exact .nil

theorem Tidy.change {before after : Store} (tidy : before.Tidy) (change : Change before after) : after.Tidy := by
  cases change with
  | elsewhere jobs workflows => exact ⟨jobs ▸ tidy.needs, workflows ▸ tidy.apart⟩
  | newJob => exact ⟨forall_mem_append_singleton tidy.needs (.inl rfl), tidy.apart⟩
  | job identity change same =>
    refine ⟨forall_mem_modify tidy.needs (fun job texts => ?_) identity, tidy.apart⟩
    unfold Job.NeedsTexts
    rwa [same]
  | needs identity names => exact ⟨forall_mem_modify tidy.needs (fun _ _ => .inr ⟨names, rfl⟩) identity, tidy.apart⟩
  | newWorkflow => exact ⟨tidy.needs, forall_mem_append_singleton tidy.apart .nil⟩
  | workflow identity change same =>
    refine ⟨tidy.needs, forall_mem_modify tidy.apart (fun workflow apart => ?_) identity⟩
    rwa [same]
  | putJob identity jobId job =>
    exact ⟨tidy.needs, forall_mem_modify tidy.apart (fun _ _ => (tidy.apart_workflow identity).insert jobId job) identity⟩

theorem Tidy.changes {before after : Store} (tidy : before.Tidy) (changes : Changes before after) : after.Tidy := by
  induction changes with
  | refl => exact tidy
  | tail _ change ih => exact ih.change change

end Store

theorem Session.Reached.tidy {workspace : Workspace} (reached : Session.Reached workspace) : workspace.store.Tidy :=
  Store.Tidy.changes ⟨List.forall_mem_nil _, List.forall_mem_nil _⟩ reached.changes

/-! What a record says of needs. Its jobs stand under their ids, each with its fields. -/

namespace Written

/-- The ids that a job with these fields needs. -/
def needs (fields : List (String × Tree)) : List String :=
  match fields.lookup "needs" with
  | some (.list items) => items.filterMap fun
    | .text name => some name
    | _ => none
  | _ => []

/-- Needs are written as texts, or not at all. -/
def NeedsListed (fields : List (String × Tree)) : Prop :=
  fields.lookup "needs" = none ∨ fields.lookup "needs" = some (.list ((needs fields).map .text))

/-- What a record holds of jobs; nothing if there are none. -/
def section? (jobs : List (String × List (String × Tree))) : Option Tree :=
  if jobs = [] then none else some (Tree.record (jobs.map fun job => (job.1, Tree.record job.2)))

/-- The needed ids that no job stands under, each with the id of the job that needs it. -/
def unmet (jobs : List (String × List (String × Tree))) : List (String × String) :=
  jobs.flatMap fun job => ((needs job.2).filter (· ∉ jobs.map Prod.fst)).map (job.1, ·)

theorem unmet_eq_nil_iff {jobs : List (String × List (String × Tree))} :
    unmet jobs = [] ↔ ∀ job ∈ jobs, ∀ needed ∈ needs job.2, needed ∈ jobs.map Prod.fst := by
  simp [unmet, List.flatMap_eq_nil_iff]

theorem needs_unset {fields : List (String × Tree)} (unset : fields.lookup "needs" = none) : needs fields = [] := by
  rw [needs, unset]

theorem needs_listed {fields : List (String × Tree)} {names : List String}
    (listed : fields.lookup "needs" = some (.list (names.map .text))) : needs fields = names := by
  rw [needs, listed]
  dsimp only
  rw [List.filterMap_map]
  exact List.filterMap_some

end Written

namespace Store

variable {store : Store}

theorem plain_texts (names : List String) : store.plain (.list (names.map .text)) = .ok (.list (names.map .text)) := by
  have items : Value.plainItems store.wording (store.targetWithin (store.size + 1)) (names.map .text) = .ok (names.map .text) := by
    induction names with
    | nil => rfl
    | cons name rest ih => rw [List.map_cons, Value.plainItems, ih]; rfl
  rw [plain, Value.plainWith, items]
  rfl

theorem neededJobs_unset {job : Job} (unset : job.fields .needs = .null) : job.neededJobs = [] := by
  rw [Job.neededJobs, unset]
  rfl

theorem neededJobs_texts {job : Job} {names : List String} (stored : job.fields .needs = .list (names.map .text)) :
    job.neededJobs = names := by
  rw [Job.neededJobs, stored]
  show (names.map Value.text).filterMap Value.chars? = names
  rw [List.filterMap_map]
  exact List.filterMap_some

/-- A written job shows the id and the needs of a job. -/
def ShowsNeeds (store : Store) (entry : String × Nat) (job : String × List (String × Tree)) : Prop :=
  job.1 = entry.1 ∧ Written.needs job.2 = (store.job entry.2).neededJobs

/-- A job is written with the needs that it has. -/
theorem written_of_jobRecord {job : Job} {jobId : Value} {tree : Tree} (texts : job.NeedsTexts)
    (rendered : store.jobRecord store.plain job jobId = .ok tree) :
    ∃ fields, tree = Tree.record fields ∧ Written.NeedsListed fields ∧ Written.needs fields = job.neededJobs := by
  obtain ⟨steps, settings, -, set, rfl⟩ := parts_of_jobRecord rendered
  refine ⟨_, rfl, ?_⟩
  have distinct : ((JobField.all.map fun field => (field.key, job.fields field)).map Prod.fst).Nodup :=
    (List.nodup_append.mp (nodup_jobKeys job)).1
  have looked : (settings ++ if steps.isEmpty then [] else [("steps", Tree.list steps)]).lookup "needs" = settings.lookup "needs" := by
    rw [List.lookup_append]
    split <;> exact Option.or_none
  have member := mem_jobFields job .needs
  rcases texts with unset | ⟨names, stored⟩
  · rw [unset] at member
    have absent := looked.trans (lookup_recordOf_unset set distinct member)
    exact ⟨.inl absent, (Written.needs_unset absent).trans (neededJobs_unset unset).symm⟩
  · rw [stored] at member
    have found := looked.trans (lookup_recordOf set distinct member nofun (plain_texts names))
    rw [Written.NeedsListed, Written.needs_listed found]
    exact ⟨.inr found, (neededJobs_texts stored).symm⟩

/-- Values that are all texts, as entries under texts. -/
theorem exists_named {entries : List (Value × α)} (texts : ∀ entry ∈ entries, ∃ name, entry.1 = .text name) :
    ∃ named : List (String × α), entries = named.map fun entry => (.text entry.1, entry.2) := by
  induction entries with
  | nil => exact ⟨[], rfl⟩
  | cons entry rest ih =>
    obtain ⟨⟨name, same⟩, later⟩ := List.forall_mem_cons.mp texts
    obtain ⟨named, rfl⟩ := ih later
    exact ⟨(name, entry.2) :: named, by rw [List.map_cons, ← same]⟩

theorem nodup_of_keysApart {named : List (String × α)}
    (apart : Value.KeysApart (named.map fun entry => (Value.text entry.1, entry.2))) : (named.map Prod.fst).Nodup := by
  refine List.pairwise_map.mpr ((List.pairwise_map.mp apart).imp fun {first second} differ same => ?_)
  rw [Publish.equals_text, same, beq_self_eq_true] at differ
  cases differ

/-- The jobs of a record: none, or those under `jobs`. -/
theorem lookup_jobs {workflow : Workflow} {entries : List (String × Tree)} (made : store.workflowSections store.plain workflow = .ok entries) :
    ∃ jobs, store.jobRecords store.plain workflow.jobs = .ok (jobs, []) ∧
      entries.lookup "jobs" = if jobs.isEmpty then none else some (.map (mergeKeys jobs)) := by
  obtain ⟨jobs, events, settings, reported, -, set, rfl⟩ := parts_of_workflowSections made
  have notSet : settings.lookup "jobs" = none := by
    rw [List.lookup_eq_none_iff]
    intro entry member
    have key : entry.1 ∈ WorkflowField.all.map WorkflowField.key := by
      have known := List.mem_map_of_mem (f := Prod.fst) member
      rw [keys_recordOf set] at known
      have listed := (List.filter_sublist.map Prod.fst).subset known
      rwa [List.map_map] at listed
    rw [bne_iff_ne]
    rintro same
    rw [← same] at key
    revert key
    decide
  refine ⟨jobs, reported, ?_⟩
  rw [List.lookup_append, List.lookup_append, notSet]
  split <;> split <;> rfl

/-- Records of jobs show the ids and the needs that the jobs have. -/
theorem written_of_records (tidy : store.Tidy) {named : List (String × Nat)} {records : List (String × Tree)}
    (recorded : (named.mapM fun (jobId, job) => do
      return (jobId, ← store.jobRecord store.plain (store.job job) (.text jobId))) = .ok records) :
    ∃ written, records = written.map (fun job => (job.1, Tree.record job.2)) ∧ (∀ job ∈ written, Written.NeedsListed job.2) ∧
      List.Forall₂ (ShowsNeeds store) named written := by
  have paired := forall₂_of_mapM recorded
  clear recorded
  induction paired with
  | nil => exact ⟨[], rfl, List.forall_mem_nil _, .nil⟩
  | @cons entry record _ _ one _ ih =>
    obtain ⟨written, rfl, listed, same⟩ := ih
    obtain ⟨tree, here, done⟩ := ok_of_bind one
    cases done
    obtain ⟨fields, rfl, texts, needs⟩ := written_of_jobRecord (tidy.needs_job entry.2) here
    exact ⟨(entry.1, fields) :: written, rfl, List.forall_mem_cons.mpr ⟨texts, listed⟩, .cons ⟨rfl, needs⟩ same⟩

theorem written_of_workflow {identity : Nat} {record : WorkflowRecord} {named : List (String × Nat)} (tidy : store.Tidy)
    (jobs : (store.workflow identity).jobs = named.map fun entry => (.text entry.1, entry.2))
    (rendered : store.renderWorkflow identity = .ok record) :
    ∃ written, record.sections.lookup "jobs" = Written.section? written ∧ (∀ job ∈ written, Written.NeedsListed job.2) ∧
      (written.map Prod.fst).Nodup ∧ List.Forall₂ (ShowsNeeds store) named written := by
  obtain ⟨sections, made, same⟩ := ok_of_bind rendered
  cases same
  obtain ⟨trees, reported, shown⟩ := lookup_jobs made
  have apart := tidy.apart_workflow identity
  rw [jobs] at reported apart
  obtain ⟨records, rfl, recorded⟩ := entries_of_jobRecords reported
  have ids : (named.map fun entry => (store.jobName (.text entry.1), entry.2)) = named := List.map_id named
  rw [List.map_map, Function.comp_def, ids] at recorded
  have distinct : (records.map Prod.fst).Nodup := by
    rw [Builder.names_of_mapM (fun jobId job => store.jobRecord store.plain (store.job job) (.text jobId)) recorded]
    exact nodup_of_keysApart apart
  rw [mergeKeys_record distinct, List.isEmpty_map] at shown
  obtain ⟨written, rfl, listed, same⟩ := written_of_records tidy recorded
  rw [List.map_map] at distinct
  refine ⟨written, ?_, listed, distinct, same⟩
  rw [shown]
  cases written <;> rfl

/-- The needs that dangle are those that the record leaves unmet. -/
theorem danglingNeeds_written {workflow : Workflow} {named : List (String × Nat)} {written : List (String × List (String × Tree))}
    (jobs : workflow.jobs = named.map fun entry => (.text entry.1, entry.2))
    (same : List.Forall₂ (ShowsNeeds store) named written) :
    store.danglingNeeds workflow = (Written.unmet written).map fun need => (.text need.1, need.2) := by
  have ids : written.map Prod.fst = named.map Prod.fst := by
    clear jobs
    induction same with
    | nil => rfl
    | cons one _ ih => rw [List.map_cons, List.map_cons, ih, one.1]
  have found (needed : String) : (named.map fun entry => (Value.text entry.1, entry.2)).any (fun entry => Value.equals (.text needed) entry.1) =
      decide (needed ∈ named.map Prod.fst) := by
    rw [Bool.eq_iff_iff, decide_eq_true_iff, List.mem_map, List.any_map, List.any_eq_true]
    refine exists_congr fun entry => and_congr_right fun _ => ?_
    show Value.equals (.text needed) (.text entry.1) = true ↔ _
    rw [Publish.equals_text, beq_iff_eq, eq_comm]
  rw [danglingNeeds, jobs, Written.unmet, ids]
  simp only [found, List.flatMap_map, List.map_flatMap]
  clear jobs found ids
  generalize named.map Prod.fst = present
  induction same with
  | nil => rfl
  | cons one _ ih =>
    rw [List.flatMap_cons, List.flatMap_cons, ih, one.1, one.2, List.map_map]
    simp [Function.comp_def]

/-- Whatever a session did before, the needs that dangle are, in their order, the pairs of a job id
and an id that the job is written with under `needs` while the record has no such job. -/
theorem danglingNeeds_rendered {workspace : Workspace} (reached : Session.Reached workspace) {identity : Nat} {record : WorkflowRecord}
    (texts : ∀ job ∈ (workspace.store.workflow identity).jobs, ∃ jobId, job.1 = .text jobId)
    (rendered : workspace.store.renderWorkflow identity = .ok record) :
    ∃ written, record.sections.lookup "jobs" = Written.section? written ∧ (∀ job ∈ written, Written.NeedsListed job.2) ∧
      (written.map Prod.fst).Nodup ∧
      workspace.store.danglingNeeds (workspace.store.workflow identity) =
        (Written.unmet written).map (fun need => (.text need.1, need.2)) ∧
      (workspace.store.danglingNeeds (workspace.store.workflow identity) = [] ↔
        ∀ job ∈ written, ∀ needed ∈ Written.needs job.2, needed ∈ written.map Prod.fst) := by
  obtain ⟨named, jobs⟩ := exists_named texts
  obtain ⟨written, shown, needs, distinct, same⟩ := written_of_workflow reached.tidy jobs rendered
  have dangling := danglingNeeds_written jobs same
  refine ⟨written, shown, needs, distinct, dangling, ?_⟩
  rw [dangling, List.map_eq_nil_iff, Written.unmet_eq_nil_iff]

end Store

namespace Session

theorem Reached.after {workspace : Workspace} (reached : Reached workspace) {statements : List Statement}
    (plain : ∀ statement ∈ statements, Value.AllWithin (fun _ => False) statement.values) : Reached (after statements workspace) := by
  induction statements generalizing workspace with
  | nil => exact reached
  | cons statement rest ih =>
    obtain ⟨first, later⟩ := List.forall_mem_cons.mp plain
    exact ih (reached.step first) later

/-- A job that calls a workflow. -/
def callOf (file : String) : Recipe := .job [("uses", [.value (.text file)])]

/-- A job stands under two ids and is given its needs once it has been added, and another is replaced. -/
def release : List Statement :=
  [.assign "test" (callOf "./test.yml"),
    .assign "ship" (callOf "./ship.yml"),
    .assign "release" (.workflow (.value (.text "Release")) (.value (.text "release"))
      [("job", [.value (.text "test"), .register "test"]), ("job", [.value (.text "ship"), .register "ship"]),
        ("job", [.value (.text "publish"), .register "ship"])]),
    .call "ship" "needs" [.list [.value (.text "test"), .value (.text "build")]],
    .call "release" "job" [.value (.text "test"), callOf "./tests.yml"]]

theorem reached_release : Reached (after release {}) := by
  refine (Reached.start false).after ?_
  simp [release, callOf, Statement.values, Recipe.values, Recipe.valuesOfAll, Recipe.valuesOfOperations, Recipe.valuesOfOperation,
    Value.AllWithin]

theorem danglingNeeds_rendered_release :
    Reached (after release {}) ∧ (∀ job ∈ ((after release {}).store.workflow 0).jobs, ∃ jobId, job.1 = .text jobId) ∧
    (after release {}).store.danglingNeeds ((after release {}).store.workflow 0) =
      [(.text "ship", "build"), (.text "publish", "build")] ∧
    ∃ record written, (after release {}).store.renderWorkflow 0 = .ok record ∧
      record.sections.lookup "jobs" = Written.section? written ∧ Written.unmet written = [("ship", "build"), ("publish", "build")] := by
  have texts : ∀ job ∈ ((after release {}).store.workflow 0).jobs, ∃ jobId, job.1 = .text jobId := by
    have jobs : ((after release {}).store.workflow 0).jobs = [(.text "test", 2), (.text "ship", 1), (.text "publish", 1)] := by
      with_unfolding_all rfl
    simp [jobs]
  obtain ⟨record, rendered⟩ : ∃ record, (after release {}).store.renderWorkflow 0 = .ok record := ⟨_, by with_unfolding_all rfl⟩
  have dangling : (after release {}).store.danglingNeeds ((after release {}).store.workflow 0) =
      [(.text "ship", "build"), (.text "publish", "build")] := by
    with_unfolding_all rfl
  obtain ⟨written, shown, -, -, same, -⟩ := Store.danglingNeeds_rendered reached_release texts rendered
  have unmet : Written.unmet written = [("ship", "build"), ("publish", "build")] := by
    refine List.map_injective_iff.mpr (fun first second alike => ?_) (same.symm.trans dangling)
    simpa [Prod.ext_iff] using alike
  exact ⟨reached_release, texts, dangling, record, written, rendered, shown, unmet⟩

end Session

end WorkflowCompiler
