import WorkflowCompiler.Proofs.BuiltObjects
import WorkflowCompiler.Proofs.JobRecords

/-! The records of what calls have built. A record has a section for each setting that was last given
a value, in a fixed order and whatever the order of the calls, so that two histories that leave the
same behind render to the same record. -/

namespace WorkflowCompiler

/-- A section of a record: the key, and the content unless there is none. -/
abbrev Section := String × Option (Except Failure Tree)

/-- A record has those sections that there are. -/
def Lists (sections : List Section) (entries : List (String × Tree)) : Prop :=
  List.Forall₂ (fun listed entry => entry.1 = listed.1 ∧ listed.2 = .ok entry.2)
    (sections.filterMap fun listed => listed.2.map (listed.1, ·)) entries

namespace Store

/-- A setting that is null has no content. -/
def content (store : Store) (value : Value) : Option (Except Failure Tree) :=
  if value.isNull then none else some (store.plain value)

/-- The options of an event; workflows whose runs are waited for are called by their names. -/
def named (store : Store) (name : String) (options : Value) : Value :=
  match name, options with
  | "workflow_run", .map entries =>
    match (Value.lookup? (.text "workflows") entries).bind Value.items? with
    | some workflows => .map (Value.insert (.text "workflows") (.list (workflows.map store.nameOf)) entries)
    | none => .map entries
  | _, options => options

/-- What stands for the id of a job in a record. -/
def jobName (store : Store) : Value → String
  | .choice jobId => jobId.text
  | jobId => (store.wording jobId).toOption.getD ""

end Store

namespace Builder

/-- The jobs of a workflow, in the order of their first addition with the job given last. -/
def jobs (store : Store) (made : List Made) : List (String × Nat) :=
  mapping ((made.flatMap Made.jobPuts).map fun put => (store.jobName put.1, put.2))

/-- Just the equal ids of jobs are written alike. -/
def IdsApart (store : Store) (made : List Made) : Prop :=
  ∀ put ∈ made.flatMap Made.jobPuts, ∀ other ∈ made.flatMap Made.jobPuts,
    Value.equals put.1 other.1 = (store.jobName put.1 == store.jobName other.1)

/-- The keys of a step as they are documented, with the settings that they hold. -/
def stepKeys : List (String × StepField) :=
  [("if", .condition), ("id", .id), ("name", .name), ("uses", .uses), ("run", .run), ("shell", .shell),
    ("working-directory", .workingDirectory), ("with", .inputs), ("env", .env), ("continue-on-error", .continueOnError),
    ("timeout-minutes", .timeoutMinutes)]

/-- The keys of a job as they are documented, apart from its steps. -/
def jobKeys : List (String × JobField) :=
  [("name", .name), ("permissions", .permissions), ("needs", .needs), ("if", .condition), ("runs-on", .runsOn),
    ("environment", .environment), ("concurrency", .concurrency), ("outputs", .outputs), ("env", .env), ("defaults", .defaults),
    ("timeout-minutes", .timeoutMinutes), ("strategy", .strategy), ("max-parallel", .maxParallel),
    ("continue-on-error", .continueOnError), ("container", .container), ("services", .services), ("uses", .uses),
    ("with", .inputs), ("secrets", .secrets)]

/-- The keys of a workflow as they are documented, apart from its events and jobs. -/
def workflowKeys : List (String × WorkflowField) :=
  [("permissions", .permissions), ("env", .env), ("defaults", .defaults), ("concurrency", .concurrency)]

/-! Records are written under the keys that are documented. -/

theorem stepKeys_eq : stepKeys = StepField.all.map fun field => (field.key, field) := rfl

theorem jobKeys_eq : jobKeys = JobField.all.map fun field => (field.key, field) := rfl

theorem workflowKeys_eq : workflowKeys = WorkflowField.all.map fun field => (field.key, field) := rfl

/-- The keys of a record in their documented order. -/
def keys : Builder → List String
  | .step _ => stepKeys.map Prod.fst
  | .job _ _ => jobKeys.map Prod.fst ++ ["steps"]
  | .workflow _ _ => ["on"] ++ workflowKeys.map Prod.fst ++ ["jobs"]

/-- The sections of a record in that order. -/
def sections (store : Store) (made : List Made) : Builder → List Section
  | .step _ => stepKeys.map fun (key, field) => (key, store.content (last (made.flatMap Made.stepPut) field))
  | .job _ _ =>
    let steps := made.flatMap Made.steps
    (jobKeys.map fun (key, field) => (key, store.content (last (made.flatMap Made.jobPut) field))) ++
      [("steps", if steps.isEmpty then none else some do return .list (← steps.mapM store.renderStep))]
  | .workflow _ _ =>
    [("on", if (events made).isEmpty then none else some do
      return Tree.record (← (events made).mapM fun (name, given) => do return (name, ← store.plain (store.named name given))))] ++
    (workflowKeys.map fun (key, field) => (key, store.content (last (made.flatMap Made.workflowPut) field))) ++
    [("jobs", if (jobs store made).isEmpty then none else some do
      return Tree.record (← (jobs store made).mapM fun (jobId, identity) => do return (jobId, ← store.renderJob identity (.text jobId))))]

/-- The name of a workflow, which its record holds before all sections. -/
def name? (made : List Made) : Builder → Option Value
  | .workflow _ name => some ((lastPut (made.flatMap Made.namePut) ()).getD name)
  | _ => none

/-- Whether rendering gives a record, with its name if it is that of a workflow. -/
def Renders (store : Store) (name : Option Value) (entries : List (String × Tree)) : Builder → Prop
  | .step identity => name = none ∧ store.renderStep identity = .ok (Tree.record entries)
  | .job identity jobId => name = none ∧ store.renderJob identity jobId = .ok (Tree.record entries)
  | .workflow identity _ => ∃ given, name = some given ∧ store.renderWorkflow identity = .ok ⟨given, entries⟩

/-- Workflows that are waited for are given in lists or tuples. -/
def NamesListed (made : List Made) : Prop :=
  ∀ entries, ("workflow_run", .map entries) ∈ events made → ∀ workflows,
    Value.lookup? (.text "workflows") entries = some workflows → workflows.items?.isSome

/-- Two histories of builders of one kind that leave the same behind. -/
def Agree (store : Store) (made other : List Made) : Builder → Builder → Prop
  | .step _, .step _ => ∀ field, last (made.flatMap Made.stepPut) field = last (other.flatMap Made.stepPut) field
  | .job _ _, .job _ _ =>
    (∀ field, last (made.flatMap Made.jobPut) field = last (other.flatMap Made.jobPut) field) ∧
    made.flatMap Made.steps = other.flatMap Made.steps
  | .workflow _ name, .workflow _ otherName =>
    (lastPut (made.flatMap Made.namePut) ()).getD name = (lastPut (other.flatMap Made.namePut) ()).getD otherName ∧
    (∀ field, last (made.flatMap Made.workflowPut) field = last (other.flatMap Made.workflowPut) field) ∧
    events made = events other ∧ jobs store made = jobs store other
  | _, _ => False

end Builder

section

variable {store : Store} {plain : Value → Except Failure Tree}

namespace Lists

theorem append {sections more : List Section} {entries others : List (String × Tree)} (first : Lists sections entries)
    (second : Lists more others) : Lists (sections ++ more) (entries ++ others) := by
  rw [Lists, List.filterMap_append]
  exact List.rel_append first second

/-- At most one record has the sections. -/
theorem unique {sections : List Section} {entries others : List (String × Tree)} (one : Lists sections entries)
    (other : Lists sections others) : entries = others := by
  unfold Lists at one other
  generalize (sections.filterMap fun listed => listed.2.map (listed.1, ·)) = contents at one other
  induction one generalizing others with
  | nil => cases other; rfl
  | @cons listed entry _ _ here _ ih =>
    cases other with
    | cons there later =>
      have content : entry.2 = _ := Except.ok.inj (here.2.symm.trans there.2)
      rw [ih later, Prod.ext (here.1.trans there.1.symm) content]

/-- The keys of a record stand in the order of the sections. -/
theorem keys_sublist {sections : List Section} {entries : List (String × Tree)} (lists : Lists sections entries) :
    (entries.map Prod.fst).Sublist (sections.map Prod.fst) := by
  have keys : entries.map Prod.fst = (sections.filterMap fun listed => listed.2.map (listed.1, ·)).map Prod.fst := by
    have paired := List.Forall₂.imp (fun listed entry same => Eq.symm same.1) lists
    rw [← List.forall₂_eq_eq_eq]
    exact (List.forall₂_map_left_iff.mpr (List.forall₂_map_right_iff.mpr paired)).flip.imp fun _ _ => Eq.symm
  rw [keys]
  clear lists keys
  induction sections with
  | nil => exact .slnil
  | cons listed rest ih =>
    obtain ⟨key, _ | content⟩ := listed
    · exact ih.cons key
    · exact ih.cons_cons key

theorem of_recordOf {fields : List (String × Value)} {entries : List (String × Tree)}
    (made : Store.recordOf store.plain fields = .ok entries) :
    Lists (fields.map fun field => (field.1, store.content field.2)) entries := by
  have listed : (fields.map fun field => (field.1, store.content field.2)).filterMap (fun listed => listed.2.map (listed.1, ·)) =
      (fields.filter fun field => !field.2.isNull).map fun field => (field.1, store.plain field.2) := by
    rw [List.filterMap_map, ← List.filterMap_eq_map, List.filterMap_filter]
    apply List.filterMap_congr
    intro field _
    cases unset : field.2.isNull <;> simp [Store.content, unset]
  rw [Lists, listed, List.forall₂_map_left_iff]
  refine (forall₂_of_mapM made).imp fun field entry one => ?_
  obtain ⟨tree, rendered, same⟩ := ok_of_bind one
  cases same
  exact ⟨rfl, rendered⟩

/-- A section that is left out if there is nothing in it. -/
theorem of_group {items : List α} {key : String} {content : Except Failure Tree} {tree : Tree} (rendered : content = .ok tree) :
    Lists [(key, if items.isEmpty then none else some content)] (if items.isEmpty then [] else [(key, tree)]) := by
  cases items with
  | nil => exact .nil
  | cons item rest => exact .cons ⟨rfl, rendered⟩ .nil

end Lists

theorem Tree.record_injective {entries others : List (String × Tree)} (same : Tree.record entries = Tree.record others) :
    entries = others := by
  refine List.map_injective_iff.mpr (fun one other paired => ?_) (Tree.map.inj same)
  obtain ⟨key, content⟩ := one
  obtain ⟨otherKey, otherContent⟩ := other
  cases paired
  rfl

/-- To put a value under a key of a record is to put it under a name of its fields. -/
theorem Tree.putText_record (key : String) (value : Tree) (fields : List (String × Tree)) :
    putText key value (fields.map fun field => (.text field.1, field.2)) =
      (Workflow.putNamed key value fields).map fun field => (.text field.1, field.2) := by
  induction fields with
  | nil => rfl
  | cons field rest ih =>
    rw [List.map_cons, putText, Workflow.putNamed]
    split
    · rfl
    · rw [ih]
      rfl

/-- A record that has no key twice is not merged any further. -/
theorem mergeKeys_record {entries : List (String × Tree)} (distinct : (entries.map Prod.fst).Nodup) :
    Tree.map (Store.mergeKeys (entries.map fun entry => (.text entry.1, entry.2))) = Tree.record entries := by
  suffices merged : Store.mergeKeys (entries.map fun entry => (.text entry.1, entry.2)) =
      entries.map fun entry => (.text entry.1, entry.2) from congrArg Tree.map merged
  induction entries using List.reverseRecOn with
  | nil => rfl
  | append_singleton entries entry ih =>
    rw [List.map_append, List.map_singleton, List.nodup_append] at distinct
    have new : entry.1 ∉ entries.map Prod.fst := fun there => distinct.2.2 _ there _ (List.mem_singleton_self _) rfl
    have last : Store.mergeKeys ((entries ++ [entry]).map fun entry => (.text entry.1, entry.2)) =
        Tree.putText entry.1 entry.2 (Store.mergeKeys (entries.map fun entry => (.text entry.1, entry.2))) := by
      rw [Store.mergeKeys, List.map_append, List.foldl_append]
      rfl
    rw [last, ih distinct.1, Tree.putText_record, Workflow.putNamed_fresh new]

namespace Store

variable {job : Job} {workflow : Workflow} {jobId : Value} {tree : Tree}

theorem parts_of_jobRecord (made : store.jobRecord plain job jobId = .ok tree) :
    ∃ trees settings, (store.jobSteps job).mapM (stepRecord plain) = .ok trees ∧
      recordOf plain (JobField.all.map fun field => (field.key, job.fields field)) = .ok settings ∧
      tree = Tree.record (settings ++ if trees.isEmpty then [] else [("steps", .list trees)]) := by
  obtain ⟨faults, checked, made⟩ := ok_of_bind made
  cases faults with
  | cons fault more =>
    obtain ⟨_, -, refused⟩ := ok_of_bind made
    cases refused
  | nil =>
    obtain ⟨trees, steps, made⟩ := ok_of_bind made
    obtain ⟨settings, fields, same⟩ := ok_of_bind made
    cases same
    exact ⟨trees, settings, steps, fields, rfl⟩

/-- Ids are repeated whatever the job is called. -/
theorem repetitions_relabel {before after : String} {ids seen : List Value}
    (none : jobFaults.repetitions store before seen ids = .ok []) : jobFaults.repetitions store after seen ids = .ok [] := by
  induction ids generalizing seen with
  | nil => rfl
  | cons id rest ih =>
    rw [jobFaults.repetitions] at none ⊢
    by_cases key : id.isKey = true
    · rw [key] at none ⊢
      obtain ⟨more, later, same⟩ := ok_of_bind none
      by_cases repeated : seen.any fun other => Value.equals id other
      · rw [if_pos repeated] at same
        obtain ⟨_, -, same⟩ := ok_of_bind same
        cases same
      · rw [if_neg repeated] at same
        cases same
        show (jobFaults.repetitions store after (id :: seen) rest >>= _) = _
        rw [ih later]
        exact if_neg repeated
    · rw [Bool.eq_false_iff.mpr key] at none
      cases none

/-- Whether a job has faults does not depend on what it is called. -/
theorem jobFaults_relabel {other : Value} {label : String} (checked : store.jobFaults job jobId = .ok [])
    (called : store.wording (job.label other) = .ok label) : store.jobFaults job other = .ok [] := by
  obtain ⟨before, -, checked⟩ := ok_of_bind checked
  obtain ⟨repeated, ids, same⟩ := ok_of_bind checked
  have faults := List.map_eq_nil_iff.mp (Except.ok.inj same)
  obtain ⟨rest, rfl⟩ := List.append_eq_nil_iff.mp faults
  rw [jobFaults, called]
  show (jobFaults.repetitions store label [] (store.stepIds job) >>= _) = _
  rw [repetitions_relabel ids]
  revert rest
  cases job.steps.isEmpty <;> cases (job.fields .uses).isNull <;> cases (job.fields .runsOn).isEmpty <;> simp

theorem jobRecord_relabel (made : store.jobRecord plain job jobId = .ok tree) (name : String) :
    store.jobRecord plain job (.text name) = .ok tree := by
  obtain ⟨faults, checked, rest⟩ := ok_of_bind made
  obtain rfl : faults = [] := by
    cases faults with
    | nil => rfl
    | cons fault more =>
      obtain ⟨_, -, refused⟩ := ok_of_bind rest
      cases refused
  rw [jobRecord_settled (jobFaults_relabel checked rfl), ← jobRecord_settled checked, made]

/-- The record of a job that could be rendered stands under the name of its id. -/
theorem jobRecords_cons {identity : Nat} {rest : List (Value × Nat)} {records : List (Tree × Tree)}
    (made : store.jobRecords plain ((jobId, identity) :: rest) = .ok (records, [])) :
    ∃ record later, store.jobRecord plain (store.job identity) jobId = .ok record ∧
      store.jobRecords plain rest = .ok (later, []) ∧ records = (.text (store.jobName jobId), record) :: later := by
  rcases rendered : store.jobRecord plain (store.job identity) jobId with failure | record
  · rw [jobRecords, rendered] at made
    dsimp only at made
    by_cases kind : (failure.category != .validation) = true
    · rw [kind] at made
      cases made
    · rw [Bool.eq_false_iff.mpr kind] at made
      obtain ⟨_, -, same⟩ := ok_of_bind made
      cases same
  · rw [jobRecords, rendered] at made
    obtain ⟨⟨later, failures⟩, more, made⟩ := ok_of_bind made
    have named : ∃ name, store.jobName jobId = name ∧
        (.ok ((Tree.text name, record) :: later, failures) : Except Failure _) = .ok (records, []) := by
      cases jobId with
      | choice => exact ⟨_, rfl, made⟩
      | _ =>
        obtain ⟨name, called, same⟩ := ok_of_bind made
        exact ⟨name, congrArg (fun text => text.toOption.getD "") called, same⟩
    obtain ⟨name, rfl, same⟩ := named
    cases same
    exact ⟨record, later, rfl, more, rfl⟩

/-- The records of jobs, each under the name of its id. -/
theorem entries_of_jobRecords {jobs : List (Value × Nat)} {records : List (Tree × Tree)}
    (made : store.jobRecords plain jobs = .ok (records, [])) :
    ∃ entries, records = entries.map (fun entry => (Tree.text entry.1, entry.2)) ∧
      (jobs.map fun job => (store.jobName job.1, job.2)).mapM (fun (jobId, identity) => do
        return (jobId, ← store.jobRecord plain (store.job identity) (.text jobId))) = .ok entries := by
  induction jobs generalizing records with
  | nil => cases made; exact ⟨[], rfl, rfl⟩
  | cons entry rest ih =>
    obtain ⟨jobId, identity⟩ := entry
    obtain ⟨record, later, rendered, more, rfl⟩ := jobRecords_cons made
    obtain ⟨entries, rfl, others⟩ := ih more
    refine ⟨(store.jobName jobId, record) :: entries, rfl, ?_⟩
    rw [List.map_cons, List.mapM_cons, others]
    show (store.jobRecord plain (store.job identity) (.text (store.jobName jobId)) >>= _) >>= _ = _
    rw [jobRecord_relabel rendered]
    rfl

theorem parts_of_workflowSections {entries : List (String × Tree)} (made : store.workflowSections plain workflow = .ok entries) :
    ∃ jobs events settings, store.jobRecords plain workflow.jobs = .ok (jobs, []) ∧
      (workflow.events.mapM fun (name, options) => do return (name, ← plain (← store.eventOptions name options))) = .ok events ∧
      recordOf plain (WorkflowField.all.map fun field => (field.key, workflow.fields field)) = .ok settings ∧
      entries = (if events.isEmpty then [] else [("on", Tree.record events)]) ++ settings ++
        (if jobs.isEmpty then [] else [("jobs", .map (mergeKeys jobs))]) := by
  obtain ⟨⟨jobs, failures⟩, reported, made⟩ := ok_of_bind made
  cases failures with
  | cons failure more =>
    obtain ⟨_, -, refused⟩ := ok_of_bind made
    cases refused
  | nil =>
    obtain ⟨events, started, made⟩ := ok_of_bind made
    obtain ⟨settings, fields, same⟩ := ok_of_bind made
    cases same
    exact ⟨jobs, events, settings, reported, started, fields, rfl⟩

/-- Workflows in lists and tuples are called by their names. -/
theorem eventOptions_eq_named {name : String} {options : Value}
    (listed : ∀ entries, name = "workflow_run" → options = .map entries → ∀ workflows,
      Value.lookup? (.text "workflows") entries = some workflows → workflows.items?.isSome) :
    store.eventOptions name options = .ok (store.named name options) := by
  unfold eventOptions
  split
  · next entries =>
    rcases found : Value.lookup? (.text "workflows") entries with _ | workflows
    · simp only [named, found, Option.bind_none]
    · obtain ⟨items, known⟩ := Option.isSome_iff_exists.mp (listed entries rfl rfl workflows found)
      have iterated : workflows.iterate = .ok items := by
        cases workflows <;> cases known <;> rfl
      simp only [named, found, known, Option.bind_some, iterated]
      rfl
  · next other =>
    unfold named
    split
    · next entries => exact absurd rfl (other entries rfl)
    · rfl

end Store

namespace Builder

theorem lists_step {made : List Made} {identity : Nat} {entries : List (String × Tree)}
    (stands : Stands store made (.step identity)) (rendered : store.renderStep identity = .ok (Tree.record entries)) :
    Lists (sections store made (.step identity)) entries := by
  obtain ⟨record, fields, same⟩ := ok_of_bind rendered
  obtain rfl := Tree.record_injective (Except.ok.inj same)
  have lists := Lists.of_recordOf fields
  simpa only [sections, stepKeys_eq, List.map_map, Function.comp_def, stands _] using lists

theorem lists_job {made : List Made} {identity : Nat} {jobId : Value} {entries : List (String × Tree)}
    (stands : Stands store made (.job identity jobId)) (rendered : store.renderJob identity jobId = .ok (Tree.record entries)) :
    Lists (sections store made (.job identity jobId)) entries := by
  obtain ⟨fields, steps⟩ := stands
  obtain ⟨trees, settings, listed, set, same⟩ := Store.parts_of_jobRecord rendered
  obtain rfl := Tree.record_injective same
  rw [Store.jobSteps, List.mapM_map, steps] at listed
  rw [isEmpty_of_mapM listed]
  refine Lists.append ?_ (Lists.of_group ?_)
  · simpa only [jobKeys_eq, List.map_map, Function.comp_def, fields _] using Lists.of_recordOf set
  · show ((made.flatMap Made.steps).mapM store.renderStep >>= _) = _
    rw [show (made.flatMap Made.steps).mapM store.renderStep = .ok trees from listed]
    rfl

/-- Ids that are texts are equal exactly if they are written alike. -/
theorem idsApart_of_texts {made : List Made} (texts : ∀ put ∈ made.flatMap Made.jobPuts, put.1.label?.isSome) :
    IdsApart store made := by
  intro put member other there
  obtain ⟨label, known⟩ := Option.isSome_iff_exists.mp (texts put member)
  obtain ⟨otherLabel, otherKnown⟩ := Option.isSome_iff_exists.mp (texts other there)
  have named (label : Label) : store.jobName (.ofLabel label) = label.chars := by cases label <;> rfl
  rw [Store.eq_ofLabel known, Store.eq_ofLabel otherKnown, Store.equals_ofLabel, named, named]

/-- Adding jobs one after the other leaves each where it was added first. -/
theorem jobs_eq {made : List Made} (apart : IdsApart store made) :
    ((made.flatMap Made.jobPuts).foldl (fun found put => Value.insert put.1 put.2 found) []).map
      (fun job => (store.jobName job.1, job.2)) = jobs store made := by
  rw [jobs]
  unfold IdsApart at apart
  generalize made.flatMap Made.jobPuts = puts at apart
  suffices inserted : (∀ job ∈ puts.foldl (fun found put => Value.insert put.1 put.2 found) [], job.1 ∈ puts.map Prod.fst) ∧
      (puts.foldl (fun found put => Value.insert put.1 put.2 found) []).map (fun job => (store.jobName job.1, job.2)) =
        mapping (puts.map fun put => (store.jobName put.1, put.2)) from inserted.2
  induction puts using List.reverseRecOn with
  | nil => exact ⟨by simp, rfl⟩
  | append_singleton puts put ih =>
    have ⟨earlier, same⟩ := ih fun one here other there => apart one (List.mem_append_left _ here) other (List.mem_append_left _ there)
    rw [List.foldl_append, List.foldl_cons, List.foldl_nil, List.map_append, List.map_append, List.map_singleton, List.map_singleton,
      mapping_append, ← same]
    constructor
    · intro job member
      rcases Value.mem_insert job member with new | old
      · exact List.mem_append_right _ (List.mem_singleton.mpr new)
      · obtain ⟨other, there, known⟩ := List.mem_map.mp old
        exact List.mem_append_left _ (known ▸ earlier other there)
    · apply insert_named
      intro job member
      obtain ⟨other, there, known⟩ := List.mem_map.mp (earlier job member)
      rw [← known]
      exact apart put (List.mem_append_right _ (List.mem_singleton_self _)) other (List.mem_append_left _ there)

/-- Each entry keeps the name of its item. -/
theorem names_of_mapM (make : String → α → Except Failure β) {items : List (String × α)} {results : List (String × β)}
    (made : (items.mapM fun (name, item) => do return (name, ← make name item)) = .ok results) :
    results.map Prod.fst = items.map Prod.fst := by
  have paired := forall₂_of_mapM made
  clear made
  induction paired with
  | nil => rfl
  | cons one _ ih =>
    obtain ⟨result, -, same⟩ := ok_of_bind one
    cases same
    rw [List.map_cons, List.map_cons, ih]

theorem lists_workflow {made : List Made} {identity : Nat} {name given : Value} {entries : List (String × Tree)}
    (stands : Stands store made (.workflow identity name)) (ids : IdsApart store made) (names : NamesListed made)
    (rendered : store.renderWorkflow identity = .ok ⟨given, entries⟩) :
    Lists (sections store made (.workflow identity name)) entries := by
  obtain ⟨-, events, fields, jobs⟩ := stands
  obtain ⟨_, whole, same⟩ := ok_of_bind rendered
  cases same
  obtain ⟨jobTrees, eventTrees, settings, reported, started, set, rfl⟩ := Store.parts_of_workflowSections whole
  rw [jobs] at reported
  obtain ⟨records, rfl, recorded⟩ := Store.entries_of_jobRecords reported
  rw [jobs_eq ids] at recorded
  have distinct : (records.map Prod.fst).Nodup := by
    rw [names_of_mapM (fun jobId identity => store.renderJob identity (.text jobId)) recorded, Builder.jobs, names_mapping]
    exact nodup_eraseDups _
  have begun : ((Builder.events made).mapM fun (name, given) => do
      return (name, ← store.plain (store.named name given))) = .ok eventTrees := by
    rw [← started, events]
    apply mapM_congr
    rintro ⟨name, options⟩ member
    have listed : store.eventOptions name options = .ok (store.named name options) :=
      Store.eventOptions_eq_named fun entries named same => names entries (by rw [← same, ← named]; exact member)
    show _ = store.eventOptions name options >>= _
    rw [listed]
    rfl
  have few : (records.map fun entry => (Tree.text entry.1, entry.2)).isEmpty = (Builder.jobs store made).isEmpty := by
    rw [List.isEmpty_map, isEmpty_of_mapM recorded]
  rw [isEmpty_of_mapM begun, few, mergeKeys_record distinct]
  refine Lists.append (Lists.append (Lists.of_group ?_) ?_) (Lists.of_group ?_)
  · rw [begun]
    rfl
  · simpa only [workflowKeys_eq, List.map_map, Function.comp_def, fields _] using Lists.of_recordOf set
  · show ((Builder.jobs store made).mapM _ >>= _) = _
    rw [show (Builder.jobs store made).mapM _ = .ok records from recorded]
    rfl

/-- Rendering a builder after any successful calls gives the sections of what was last given, in the
documented order, under the name that was given last. -/
theorem lists_of_built {depth : Nat} {builder : Builder} {made : List Made} {workspace : Workspace} {name : Option Value}
    {entries : List (String × Tree)} (built : Built depth builder made workspace) (ids : IdsApart workspace.store made)
    (names : NamesListed made) (rendered : builder.Renders workspace.store name entries) :
    name = builder.name? made ∧ Lists (sections workspace.store made builder) entries := by
  obtain ⟨-, stands⟩ := built.stands
  cases builder with
  | step identity =>
    obtain ⟨rfl, rendered⟩ := rendered
    exact ⟨rfl, lists_step stands rendered⟩
  | job identity jobId =>
    obtain ⟨rfl, rendered⟩ := rendered
    exact ⟨rfl, lists_job stands rendered⟩
  | workflow identity first =>
    obtain ⟨given, rfl, rendered⟩ := rendered
    obtain ⟨_, -, same⟩ := ok_of_bind rendered
    cases same
    exact ⟨congrArg some stands.1, lists_workflow stands ids names rendered⟩

/-- The sections do not depend on the order in which settings were given. -/
theorem sections_of_agree {builder other : Builder} {made history : List Made} (agree : Agree store made history builder other) :
    builder.name? made = other.name? history ∧ sections store made builder = sections store history other := by
  cases builder <;> cases other <;> try exact agree.elim
  · exact ⟨rfl, by simp only [sections, show ∀ field, _ = _ from agree]⟩
  · exact ⟨rfl, by simp only [sections, agree.1, agree.2]⟩
  · obtain ⟨name, fields, events, jobs⟩ := agree
    exact ⟨congrArg some name, by simp only [sections, fields, events, jobs]⟩

theorem keys_sections (store : Store) (made : List Made) (builder : Builder) :
    (sections store made builder).map Prod.fst = builder.keys := by
  cases builder <;> simp [sections, keys, Function.comp_def]

/-- The record of what successful calls with plain values have built: its keys stand in the documented
order, a setting is there exactly if it was last given a value, with the plain form of that value,
steps stand in the order in which they were appended, and events and jobs in the order of their first
addition with what they were given last. Histories that agree on all of this render to one record. -/
theorem record_of_built {depth : Nat} {builder : Builder} {made : List Made} {workspace : Workspace} {name : Option Value}
    {entries : List (String × Tree)} (built : Built depth builder made workspace) (ids : IdsApart workspace.store made)
    (names : NamesListed made) (rendered : builder.Renders workspace.store name entries) :
    (name = builder.name? made ∧ Lists (sections workspace.store made builder) entries) ∧
    (entries.map Prod.fst).Sublist builder.keys ∧
    ∀ otherDepth other history otherName others, Built otherDepth other history workspace → IdsApart workspace.store history → NamesListed history →
      Agree workspace.store made history builder other → other.Renders workspace.store otherName others →
        otherName = name ∧ others = entries := by
  obtain ⟨called, lists⟩ := lists_of_built built ids names rendered
  refine ⟨⟨called, lists⟩, keys_sections workspace.store made builder ▸ lists.keys_sublist, ?_⟩
  intro otherDepth other history otherName others otherBuilt otherIds otherNames agree otherRendered
  obtain ⟨otherCalled, otherLists⟩ := lists_of_built otherBuilt otherIds otherNames otherRendered
  obtain ⟨sameName, same⟩ := sections_of_agree agree
  rw [← same] at otherLists
  exact ⟨by rw [otherCalled, called, sameName], otherLists.unique lists⟩

/-- A job that calls a workflow, and two workflows that nothing has been said about. -/
def beginning : Workspace where
  store :=
    { jobs := [Job.set {} .uses (.text "./.github/workflows/test.yml"), Job.set {} .uses (.text "./.github/workflows/lint.yml")],
      workflows := [{ name := .text "Deploy", fileName := .text "deploy" }, { name := .text "Build", fileName := .text "build" }] }

/-- The workspace after a call of a method of the first workflow. -/
def afterCall (method : String) (arguments : List Value) (workspace : Workspace) : Workspace :=
  ((Build.callMethod (Build.callWithin 0) (.workflow 0) method arguments).run workspace).2

theorem built_beginning : Built 0 (.workflow 0 (.text "Deploy")) [] beginning := .new (by decide) ⟨.text "deploy", rfl⟩

theorem built_afterCall {made : List Made} {workspace : Workspace} {method : String} {arguments : List Value}
    (built : Built 0 (.workflow 0 (.text "Deploy")) made workspace) (plain : Made.Plain ⟨workspace, method, arguments⟩)
    (succeeds : ((Build.callMethod (Build.callWithin 0) (.workflow 0) method arguments).run workspace).1 = .ok (.workflow 0)) :
    Built 0 (.workflow 0 (.text "Deploy")) (made ++ [⟨workspace, method, arguments⟩]) (afterCall method arguments workspace) :=
  .called built plain (Prod.ext succeeds rfl)

def added : Workspace := afterCall "job" [.text "test", .job 0] beginning

def triggered : Workspace := afterCall "on" [.text "push", .map []] added

def cleared : Workspace := afterCall "permissions" [.bool false] triggered

def deployment : List Made :=
  [⟨beginning, "job", [.text "test", .job 0]⟩, ⟨added, "on", [.text "push", .map []]⟩, ⟨triggered, "permissions", [.bool false]⟩]

theorem built_cleared : Built 0 (.workflow 0 (.text "Deploy")) deployment cleared := by
  have job : Built 0 _ [_] added := built_afterCall built_beginning (by simp [Made.Plain, Made.callbacks]) rfl
  have event : Built 0 _ [_, _] triggered := built_afterCall job (by simp [Made.Plain, Made.callbacks]) rfl
  exact built_afterCall event (by simp [Made.Plain, Made.callbacks]) rfl

/-- The event comes first though the job was added before it, and cleared permissions are left out. -/
theorem record_of_deployment : ∃ entries, entries.map Prod.fst = ["on", "jobs"] ∧
    (Builder.workflow 0 (.text "Deploy")).Renders cleared.store (some (.text "Deploy")) entries ∧
    Lists (sections cleared.store deployment (.workflow 0 (.text "Deploy"))) entries := by
  have ids : IdsApart cleared.store deployment := idsApart_of_texts (by simp [deployment, Made.jobPuts, Made.job?, Value.label?])
  have names : NamesListed deployment := by
    rintro entries member
    have events : events deployment = [("push", .null)] := rfl
    simp [events] at member
  have rendered : (Builder.workflow 0 (.text "Deploy")).Renders cleared.store (some (.text "Deploy")) _ := ⟨_, rfl, rfl⟩
  exact ⟨_, rfl, rendered, (record_of_built built_cleared ids names rendered).1.2⟩

/-- A workflow that is started by the runs of another one. -/
def waiting : Workspace := afterCall "on" [.text "workflow_run", .map [(.text "workflows", .list [.workflow 1])]] beginning

/-- Jobs whose ids differ but are written alike. -/
def numbered : Workspace := afterCall "job" [.text "1", .job 1] (afterCall "job" [.int 1, .job 0] beginning)

/-- A workflow that is waited for is called by its name instead of being rendered, and of jobs whose ids
are written alike only one is kept, in the place of the other. -/
theorem forms_differ :
    (∃ made options whole names, Built 0 (.workflow 0 (.text "Deploy")) made waiting ∧
      events made = [("workflow_run", options)] ∧ waiting.store.plain options = .ok whole ∧
      waiting.store.renderWorkflow 0 = .ok ⟨.text "Deploy", [("on", Tree.record [("workflow_run", names)])]⟩ ∧ names ≠ whole) ∧
    ∃ made first second, Built 0 (.workflow 0 (.text "Deploy")) made numbered ∧
      made.flatMap Made.jobPuts = [(.int 1, 0), (.text "1", 1)] ∧ numbered.store.renderJob 0 (.int 1) = .ok first ∧
      numbered.store.renderWorkflow 0 = .ok ⟨.text "Deploy", [("jobs", Tree.record [("1", second)])]⟩ ∧ second ≠ first := by
  constructor
  · have built : Built 0 _ [_] waiting := built_afterCall built_beginning (by simp [Made.Plain, Made.callbacks]) rfl
    let whole := Tree.record [("workflows", .list [Tree.record [("name", .text "Build")]])]
    let names := Tree.record [("workflows", .list [.text "Build"])]
    have rendered : waiting.store.renderWorkflow 0 = .ok ⟨.text "Deploy", [("on", Tree.record [("workflow_run", names)])]⟩ := by
      with_unfolding_all rfl
    exact ⟨_, _, whole, names, built, rfl, rfl, rendered, by simp [whole, names, Tree.record]⟩
  · have one : Built 0 _ [_] (afterCall "job" [.int 1, .job 0] beginning) :=
      built_afterCall built_beginning (by simp [Made.Plain, Made.callbacks]) rfl
    have both : Built 0 _ [_, _] numbered := built_afterCall one (by simp [Made.Plain, Made.callbacks]) rfl
    let first := Tree.record [("uses", .text "./.github/workflows/test.yml")]
    let second := Tree.record [("uses", .text "./.github/workflows/lint.yml")]
    have rendered : numbered.store.renderWorkflow 0 = .ok ⟨.text "Deploy", [("jobs", Tree.record [("1", second)])]⟩ := by
      with_unfolding_all rfl
    exact ⟨_, first, second, both, rfl, rfl, rendered, by simp [first, second, Tree.record]⟩

end Builder

end

end WorkflowCompiler
