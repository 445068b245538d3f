import WorkflowCompiler.Proofs.JobFaults
import WorkflowCompiler.Proofs.PlainFailures

/-! The record of a job. What is wrong with a job is exactly what keeps it from having one, and the
rules that a job has to keep can be read off the record again. -/

namespace WorkflowCompiler.Store

/-- The fields of a job's record: steps or a workflow to call, a runner for the steps, ids of their own. -/
structure Consistent (fields : List (String × Tree)) : Prop where
  named : (fields.map Prod.fst).Nodup
  work : "steps" ∈ fields.map Prod.fst ↔ "uses" ∉ fields.map Prod.fst
  runner : "steps" ∈ fields.map Prod.fst → "runs-on" ∈ fields.map Prod.fst
  distinct : ∀ value, ("steps", value) ∈ fields → ∃ steps : List (List (String × Tree)),
    value = .list (steps.map Tree.record) ∧ (steps.filterMap (·.lookup "id")).Nodup

section

variable {store : Store} {job : Job} {jobId : Value} {plain : Value → Except Failure Tree}
  {fields : List (String × Value)} {record : List (String × Tree)}

theorem isEmpty_iff (value : Value) : value.isEmpty = true ↔ value ∈ [.null, .text "", .list [], .tuple []] := by
  cases value with
  | choice member =>
    have filled : member.text ≠ "" := by
      cases member with
      | _ inner => cases inner <;> decide
    simp [Value.isEmpty, Value.chars?, Value.label?, Label.chars, filled]
  | _ => simp [Value.isEmpty, Value.chars?, Value.label?, Label.chars]

theorem causes_eq_nil_iff (label : String) : store.causes label job = [] ↔ Settled store job := by
  have unset : job.fields .uses ≠ .null ↔ (job.fields .uses).isNull = false := by
    rw [← Bool.not_eq_true]
    exact not_congr ⟨fun same => by rw [same]; rfl, eq_null⟩
  rw [causes, List.append_eq_nil_iff, List.append_eq_nil_iff, List.map_eq_nil_iff, repeats_eq_nil_iff]
  constructor
  · rintro ⟨⟨work, runner⟩, distinct⟩
    refine ⟨?_, ?_, distinct⟩
    · have apart : job.steps.isEmpty ≠ (job.fields .uses).isNull := by
        intro same
        rw [if_pos same] at work
        cases work
      rw [← List.isEmpty_iff, unset]
      cases filled : job.steps.isEmpty <;> simp_all
    · intro filled missing
      rw [if_pos ⟨by simpa using filled, (isEmpty_iff _).mpr missing⟩] at runner
      cases runner
  · rintro ⟨work, runner, distinct⟩
    rw [← List.isEmpty_iff, unset] at work
    refine ⟨⟨if_neg ?_, if_neg ?_⟩, distinct⟩
    · cases filled : job.steps.isEmpty <;> simp_all
    · rintro ⟨filled, missing⟩
      exact runner (by simpa using filled) ((isEmpty_iff _).mp missing)

/-- A record has the names of the fields that are set, in their order. -/
theorem keys_recordOf (made : recordOf plain fields = .ok record) :
    record.map Prod.fst = (fields.filter fun field => !field.2.isNull).map Prod.fst := by
  have named : List.Forall₂ (fun field entry => field.1 = entry.1) (fields.filter fun field => !field.2.isNull) record := by
    refine (forall₂_of_mapM made).imp fun field entry one => ?_
    obtain ⟨tree, -, same⟩ := ok_of_bind one
    cases same
    rfl
  have paired := List.forall₂_map_left_iff.mpr (List.forall₂_map_right_iff.mpr named)
  rw [List.forall₂_eq_eq_eq] at paired
  exact paired.symm

theorem nodup_recordOf (made : recordOf plain fields = .ok record) (distinct : (fields.map Prod.fst).Nodup) :
    (record.map Prod.fst).Nodup := by
  rw [keys_recordOf made]
  exact distinct.sublist (List.filter_sublist.map Prod.fst)

theorem eq_of_mem_fields {name : String} {first second : Value} (distinct : (fields.map Prod.fst).Nodup)
    (one : (name, first) ∈ fields) (other : (name, second) ∈ fields) : first = second := by
  rw [← Disk.lookup_eq_some distinct] at one other
  exact Option.some.inj (one.symm.trans other)

/-- A name stands in a record if its field is set. -/
theorem mem_keys_recordOf {name : String} {value : Value} (made : recordOf plain fields = .ok record)
    (distinct : (fields.map Prod.fst).Nodup) (member : (name, value) ∈ fields) :
    name ∈ record.map Prod.fst ↔ value ≠ .null := by
  rw [keys_recordOf made]
  constructor
  · intro there unset
    obtain ⟨⟨other, found⟩, inside, same⟩ := List.mem_map.mp there
    obtain ⟨inside, set⟩ := List.mem_filter.mp inside
    cases same
    rw [eq_of_mem_fields distinct inside member, unset] at set
    cases set
  · intro set
    refine List.mem_map.mpr ⟨(name, value), List.mem_filter.mpr ⟨member, ?_⟩, rfl⟩
    rw [Bool.not_eq_true']
    exact Bool.eq_false_iff.mpr (mt eq_null set)

/-- What a record holds under a name that is set is the data of its field. -/
theorem exists_lookup_recordOf {name : String} {value : Value} (made : recordOf plain fields = .ok record)
    (distinct : (fields.map Prod.fst).Nodup) (member : (name, value) ∈ fields) (set : value ≠ .null) :
    ∃ tree, plain value = .ok tree ∧ record.lookup name = some tree := by
  obtain ⟨⟨other, found⟩, inside, same⟩ := List.mem_map.mp ((mem_keys_recordOf made distinct member).mpr set)
  cases same
  obtain ⟨⟨other, held⟩, there, one⟩ := mem_mapM made _ inside
  obtain ⟨data, done, same⟩ := ok_of_bind one
  cases same
  rw [eq_of_mem_fields distinct (List.mem_filter.mp there).1 member] at done
  exact ⟨found, done, (Disk.lookup_eq_some (nodup_recordOf made distinct)).mpr inside⟩

theorem lookup_recordOf {name : String} {value : Value} {tree : Tree} (made : recordOf plain fields = .ok record)
    (distinct : (fields.map Prod.fst).Nodup) (member : (name, value) ∈ fields) (set : value ≠ .null)
    (rendered : plain value = .ok tree) : record.lookup name = some tree := by
  obtain ⟨found, done, there⟩ := exists_lookup_recordOf made distinct member set
  cases rendered.symm.trans done
  exact there

theorem lookup_recordOf_unset {name : String} (made : recordOf plain fields = .ok record)
    (distinct : (fields.map Prod.fst).Nodup) (member : (name, .null) ∈ fields) : record.lookup name = none := by
  rw [List.lookup_eq_none_iff]
  intro entry inside
  rw [bne_iff_ne]
  rintro rfl
  exact (mem_keys_recordOf made distinct member).mp (List.mem_map_of_mem inside) rfl

theorem nodup_stepKeys (step : Step) : ((StepField.all.map fun field => (field.key, step.fields field)).map Prod.fst).Nodup := by
  rw [List.map_map]
  show (StepField.all.map StepField.key).Nodup
  decide

theorem nodup_jobKeys (job : Job) :
    ((JobField.all.map fun field => (field.key, job.fields field)).map Prod.fst ++ ["steps"]).Nodup := by
  rw [List.map_map]
  show (JobField.all.map JobField.key ++ ["steps"]).Nodup
  decide

theorem mem_stepFields (step : Step) (field : StepField) :
    (field.key, step.fields field) ∈ StepField.all.map fun field => (field.key, step.fields field) :=
  List.mem_map_of_mem (by cases field <;> decide)

theorem mem_jobFields (job : Job) (field : JobField) :
    (field.key, job.fields field) ∈ JobField.all.map fun field => (field.key, job.fields field) :=
  List.mem_map_of_mem (by cases field <;> decide)

/-- The rendered steps of a job show the ids that the steps have. -/
theorem ids_of_stepRecords {steps : List Step} {trees : List Tree} (texts : ∀ label, plain (.ofLabel label) = .ok (.text label.chars))
    (ids : ∀ step ∈ steps, step.id.isNull = true ∨ step.id.label?.isSome)
    (made : steps.mapM (stepRecord plain) = .ok trees) :
    ∃ records : List (List (String × Tree)), trees = records.map Tree.record ∧ records.filterMap (·.lookup "id") =
      (((steps.map Step.id).filter fun id => !id.isNull).filterMap Value.label?).map fun label => .text label.chars := by
  have paired := forall₂_of_mapM made
  clear made
  induction paired with
  | nil => exact ⟨[], rfl, rfl⟩
  | cons one _ ih =>
    rename_i step tree steps trees _
    obtain ⟨records, rfl, shown⟩ := ih fun step member => ids step (List.mem_cons_of_mem _ member)
    obtain ⟨record, made, same⟩ := ok_of_bind one
    cases same
    refine ⟨record :: records, rfl, ?_⟩
    have member := mem_stepFields step .id
    by_cases unset : step.id.isNull = true
    · have held : step.fields .id = .null := eq_null unset
      rw [held] at member
      have missing : record.lookup "id" = none := lookup_recordOf_unset made (nodup_stepKeys step) member
      rw [List.filterMap_cons_none missing, shown, List.map_cons,
        List.filter_cons_of_neg (by simpa using unset)]
    · obtain ⟨label, known⟩ := Option.isSome_iff_exists.mp ((ids step List.mem_cons_self).resolve_left unset)
      have held : step.fields .id = .ofLabel label := eq_ofLabel known
      have set : step.fields .id ≠ .null := fun none => unset (by rw [Step.id, none]; rfl)
      have rendered : plain (step.fields .id) = .ok (.text label.chars) := by rw [held, texts]
      have there : record.lookup "id" = some (.text label.chars) :=
        lookup_recordOf made (nodup_stepKeys step) member set rendered
      rw [List.filterMap_cons_some there, shown, List.map_cons,
        List.filter_cons_of_pos (by simpa using unset), List.filterMap_cons_some known, List.map_cons]

theorem plain_ofLabel (label : Label) : store.plain (.ofLabel label) = .ok (.text label.chars) := by
  cases label <;> rfl

theorem jobRecord_settled (checked : store.jobFaults job jobId = .ok []) :
    store.jobRecord plain job jobId = do
      let trees ← (store.jobSteps job).mapM (stepRecord plain)
      let settings ← recordOf plain (JobField.all.map fun field => (field.key, job.fields field))
      return Tree.record (settings ++ if trees.isEmpty then [] else [("steps", .list trees)]) := by
  rw [jobRecord, checked]
  rfl

/-- A job with faults fails with them. -/
theorem jobRecord_faulty {faults : List Failure} {label : String} (called : store.wording (job.label jobId) = .ok label)
    (checked : store.jobFaults job jobId = .ok faults) (faulty : faults ≠ []) :
    store.jobRecord plain job jobId = .error (.mk (.invalidJob label) faults) := by
  obtain ⟨fault, more, rfl⟩ := List.exists_cons_of_ne_nil faulty
  rw [jobRecord, checked, called]
  rfl

/-- A job without faults fails only where a setting of it or of a step cannot be rendered. -/
theorem quiet_jobRecord (checked : store.jobFaults job jobId = .ok []) (settings : ∀ field, Quiet (plain (job.fields field)))
    (steps : ∀ step ∈ store.jobSteps job, ∀ field, Quiet (plain (step.fields field))) :
    Quiet (store.jobRecord plain job jobId) := by
  rw [jobRecord_settled checked]
  refine (quiet_mapM fun step member => quiet_stepRecord (steps step member)).bind fun _ => ?_
  refine (quiet_recordOf ?_).bind fun _ => quiet_ok _
  intro entry member
  obtain ⟨field, -, rfl⟩ := List.mem_map.mp member
  exact settings field

theorem consistent_of_settled {trees : List Tree} {settings : List (String × Tree)} (settled : Settled store job)
    (texts : ∀ label, plain (.ofLabel label) = .ok (.text label.chars))
    (ids : ∀ step ∈ store.jobSteps job, step.id.isNull = true ∨ step.id.label?.isSome)
    (steps : (store.jobSteps job).mapM (stepRecord plain) = .ok trees)
    (fields : recordOf plain (JobField.all.map fun field => (field.key, job.fields field)) = .ok settings) :
    Consistent (settings ++ if trees.isEmpty then [] else [("steps", .list trees)]) := by
  have keys := nodup_jobKeys job
  have own := (List.nodup_append.mp keys).1
  have count := (forall₂_of_mapM steps).length_eq
  rw [jobSteps, List.length_map] at count
  have called : "uses" ∈ settings.map Prod.fst ↔ job.fields .uses ≠ .null :=
    mem_keys_recordOf fields own (mem_jobFields job .uses)
  have runner : "runs-on" ∈ settings.map Prod.fst ↔ job.fields .runsOn ≠ .null :=
    mem_keys_recordOf fields own (mem_jobFields job .runsOn)
  have apart : "steps" ∉ settings.map Prod.fst := by
    rw [keys_recordOf fields]
    intro inside
    exact (List.nodup_append.mp keys).2.2 _ ((List.filter_sublist.map Prod.fst).mem inside) _ List.mem_cons_self rfl
  have distinct := nodup_recordOf fields own
  by_cases none : job.steps = []
  · obtain rfl : trees = [] := List.length_eq_zero_iff.mp (by rw [← count, none]; rfl)
    rw [List.isEmpty_nil, if_pos rfl, List.append_nil]
    refine ⟨distinct, ?_, fun there => absurd there apart, fun value member => absurd (List.mem_map_of_mem member) apart⟩
    exact iff_of_false apart (not_not.mpr (called.mpr (settled.work.mp none)))
  · have filled : trees.isEmpty = false := by
      rw [List.isEmpty_eq_false_iff, ← List.length_pos_iff, ← count]
      exact List.length_pos_iff.mpr none
    rw [filled, if_neg Bool.false_ne_true]
    refine ⟨?_, ?_, ?_, ?_⟩
    · rw [List.map_append, List.nodup_append]
      refine ⟨distinct, by simp, ?_⟩
      rintro key inside _ other rfl
      rw [List.mem_singleton.mp other] at inside
      exact apart inside
    · have uncalled : job.fields .uses = .null := not_not.mp (mt settled.work.mpr none)
      refine iff_of_true (by simp) ?_
      rw [List.map_append, List.mem_append]
      exact not_or.mpr ⟨fun there => called.mp there uncalled, by simp⟩
    · intro _
      rw [List.map_append, List.mem_append]
      refine .inl (runner.mpr fun missing => settled.runner none ?_)
      simp [missing]
    · intro value member
      obtain rfl : value = .list trees := by
        rcases List.mem_append.mp member with early | late
        · exact absurd (List.mem_map_of_mem early) apart
        · cases List.mem_singleton.mp late
          rfl
      obtain ⟨records, rfl, shown⟩ := ids_of_stepRecords texts ids steps
      refine ⟨records, rfl, ?_⟩
      rw [shown]
      exact (List.pairwise_map.mp settled.distinct).map _ fun _ _ differ same => differ (Tree.text.inj same)

/-- A job's faults are what it should not have: one for its work, one for its runner, and one for each
step whose id an earlier step has. They are also all that is ever reported when the job is rendered,
and a job without any renders to a record that keeps the same rules. -/
theorem renderJob_reports (store : Store) (identity : Nat) (jobId : Value)
    (named : jobId.isNull = true ∨ jobId.label?.isSome)
    (ids : ∀ step ∈ store.jobSteps (store.job identity), step.id.isNull = true ∨ step.id.label?.isSome)
    (settings : ∀ field, ¬Embeds store ((store.job identity).fields field))
    (steps : ∀ step ∈ store.jobSteps (store.job identity), ∀ field, ¬Embeds store (step.fields field)) :
    ∃ label faults, store.wording ((store.job identity).label jobId) = .ok label ∧
      store.jobFaults (store.job identity) jobId = .ok faults ∧
      faults = (store.causes label (store.job identity)).map .ofCause ∧
      (faults = [] ↔ Settled store (store.job identity)) ∧
      (repeatsAfter [] (store.stepLabels (store.job identity))).length +
        ((store.stepLabels (store.job identity)).map Label.chars).toFinset.card = (store.stepIds (store.job identity)).length ∧
      ((∃ cause, store.renderJob identity jobId = .error (.mk cause faults) ∧ cause.category = .validation) ↔ faults ≠ []) ∧
      (∀ failure, store.renderJob identity jobId = .error failure → failure.category = .validation →
        failure.children = faults ∧ faults ≠ []) ∧
      ∀ tree, store.renderJob identity jobId = .ok tree → ∃ fields, tree = Tree.record fields ∧ Consistent fields := by
  obtain ⟨label, called, checked⟩ := jobFaults_eq named ids
  have settled : store.causes label (store.job identity) = [] ↔ Settled store (store.job identity) := causes_eq_nil_iff label
  have whole : (store.causes label (store.job identity)).map Failure.ofCause = [] → Quiet (store.renderJob identity jobId) := by
    intro none
    rw [none] at checked
    exact quiet_jobRecord checked (fun field => quiet_plain (settings field)) fun step member field =>
      quiet_plain (steps step member field)
  have faulty : _ ≠ [] → store.jobRecord store.plain (store.job identity) jobId = _ := jobRecord_faulty called checked
  refine ⟨label, _, called, checked, rfl, ?_, ?_, ⟨?_, ?_⟩, ?_, ?_⟩
  · rw [List.map_eq_nil_iff, settled]
  · rw [length_repeats, ← stepIds_eq ids, List.length_map]
  · rintro ⟨cause, failed, kind⟩ none
    exact whole none _ failed kind
  · exact fun some => ⟨_, faulty some, rfl⟩
  · intro failure failed kind
    by_cases none : (store.causes label (store.job identity)).map Failure.ofCause = []
    · exact absurd kind (whole none failure failed)
    · rw [renderJob, faulty none] at failed
      cases failed
      exact ⟨rfl, none⟩
  · intro tree made
    have none : (store.causes label (store.job identity)).map Failure.ofCause = [] := by
      by_contra some
      rw [renderJob, faulty some] at made
      cases made
    rw [none] at checked
    rw [renderJob, jobRecord_settled checked] at made
    obtain ⟨trees, steps, made⟩ := ok_of_bind made
    obtain ⟨fields, rendered, same⟩ := ok_of_bind made
    cases same
    rw [List.map_eq_nil_iff, settled] at none
    exact ⟨_, rfl, consistent_of_settled none plain_ofLabel ids steps rendered⟩

end

/-- A job that calls a workflow, has no runner, and takes one step three times. -/
def tripled : Store where
  steps := [Step.set {} .id (.text "build"), Step.set {} .id (.text "test")]
  jobs := [Job.set { steps := [0, 0, 1, 0] } .uses (.text "./.github/workflows/ci.yml")]

theorem renderJob_tripled : ∃ cause, tripled.renderJob 0 (.text "main") = .error (.mk cause
    ([.stepsAndUses "main", .noRunner "main", .repeatedStep "main" "build", .repeatedStep "main" "build"].map .ofCause)) := by
  have ids : ∀ step ∈ tripled.jobSteps (tripled.job 0), step.id.isNull = true ∨ step.id.label?.isSome := by
    show ∀ step ∈ [tripled.step 0, tripled.step 0, tripled.step 1, tripled.step 0], _
    simp only [List.forall_mem_cons]
    exact ⟨.inr rfl, .inr rfl, .inr rfl, .inr rfl, by simp⟩
  have settings : ∀ field, ¬Embeds tripled ((tripled.job 0).fields field) := by
    intro field inner
    cases field <;> cases inner
  have steps : ∀ step ∈ tripled.jobSteps (tripled.job 0), ∀ field, ¬Embeds tripled (step.fields field) := by
    have apart : ∀ identity < 2, ∀ field, ¬Embeds tripled ((tripled.step identity).fields field) := by
      intro identity small field inner
      obtain rfl | rfl : identity = 0 ∨ identity = 1 := by omega
      · cases field <;> cases inner
      · cases field <;> cases inner
    show ∀ step ∈ [tripled.step 0, tripled.step 0, tripled.step 1, tripled.step 0], _
    simp only [List.forall_mem_cons]
    exact ⟨apart 0 (by decide), apart 0 (by decide), apart 1 (by decide), apart 0 (by decide), by simp⟩
  obtain ⟨label, faults, called, checked, same, -, -, failed, -⟩ :=
    renderJob_reports tripled 0 (.text "main") (.inr rfl) ids settings steps
  cases called
  obtain ⟨cause, failure, -⟩ := failed.mpr (by rw [same]; decide)
  rw [same] at failure
  exact ⟨cause, failure⟩

end WorkflowCompiler.Store
