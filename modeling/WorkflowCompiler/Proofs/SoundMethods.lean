import WorkflowCompiler.Proofs.SoundMakers

/-! Methods in sound workspaces. What a method takes up is there already, and what a function gives for
it is there by then. -/

namespace WorkflowCompiler

open Value (AllWithin EntriesWithin NamedWithin)

/-- A workflow of a closed store, and the one that stands for none. -/
theorem Store.Closed.workflow {store : Store} (closed : store.Closed) (identity : Nat) : (store.workflow identity).Within store.Has := by
  by_cases has : store.Has (.workflow identity)
  · exact closed _ has
  · have none : store.workflow identity = { name := .null, fileName := .null } := by
      rw [Store.workflow, List.getD_eq_getElem?_getD, List.getElem?_eq_none (Nat.le_of_not_lt has), Option.getD_none]
    rw [none]
    exact ⟨Value.within_null, Value.within_null, nofun, fun _ => Value.within_null, nofun⟩

namespace Build

variable {inside : Target → Prop}

instance : Lasting fun (inside : Target → Prop) (entry : Value × Value) => entry.1.Within inside ∧ entry.2.Within inside :=
  ⟨fun more within => ⟨within.1.mono more, within.2.mono more⟩⟩

/-- Calls of functions leave sound workspaces. -/
def Safe (call : Call) : Prop :=
  ∀ (inside : Target → Prop) function ambient, ambient.Within inside → Upholds inside Value.Within (call function ambient)

theorem within_step {identity : Nat} : (Value.step identity).Within inside ↔ inside (.step identity) := Value.within_target rfl

theorem within_job {identity : Nat} : (Value.job identity).Within inside ↔ inside (.job identity) := Value.within_target rfl

theorem within_workflow {identity : Nat} : (Value.workflow identity).Within inside ↔ inside (.workflow identity) :=
  Value.within_target rfl

theorem reads_stepKnown (identity : Nat) : Reads (stepKnown identity) := reads_bind reads_store fun _ => reads_pure _

theorem reads_jobKnown (identity : Nat) : Reads (jobKnown identity) := reads_ask _

theorem clearable_within {value : Value} (within : value.Within inside) : (clearable value).Within inside := by
  unfold clearable
  split
  · exact Value.within_null
  · exact within

theorem upholds_discard {good : (Target → Prop) → α → Prop} {build : Build α} (upholds : Upholds inside good build) :
    Upholds inside Any (discard build) := by
  show Upholds inside Any ((fun _ => PUnit.unit) <$> build)
  rw [map_eq_pure_bind]
  exact upholds_bind upholds fun _ _ _ _ => upholds_pure trivial

/-- What a workspace keeps beside objects, functions and registers does not matter. -/
theorem upholds_modify {change : Workspace → Workspace}
    (same : ∀ workspace, (change workspace).store = workspace.store ∧ (change workspace).closures = workspace.closures ∧
      (change workspace).registers = workspace.registers) : Upholds inside Any (modify change : Build Unit) := by
  intro workspace sound _
  obtain ⟨store, closures, registers⟩ := same workspace
  show (change workspace).Sound ∧ _ ≤ (change workspace).store.Has ∧ _
  rw [store]
  exact ⟨⟨by rw [store]; exact sound.objects, by rw [store, closures]; exact sound.closures,
    by rw [store, registers]; exact sound.registers⟩, le_rfl, fun _ _ => trivial⟩

theorem reads_get : Reads (get : Build Workspace) := fun _ => rfl

theorem upholds_debugLine {line : Build String} (reads : Reads line) : Upholds inside Any (debugLine line) :=
  upholds_reads_bind reads fun _ => upholds_reads_bind reads_get fun _ =>
    upholds_ite (upholds_modify fun _ => ⟨rfl, rfl, rfl⟩) (upholds_pure trivial)

theorem upholds_jobSetting {field : JobField} {value : Value} (within : value.Within inside) :
    Upholds inside Value.Within (jobSetting field value) := by
  unfold jobSetting
  split
  · exact upholds_pure (clearable_within within)
  · refine upholds_reads_bind (reads_mapM fun _ => reads_ask _) fun names => upholds_pure (Value.within_list.mpr fun item member => ?_)
    obtain ⟨name, -, rfl⟩ := List.mem_map.mp member
    exact Value.within_text _
  · exact upholds_reads_bind reads_store fun _ => upholds_ask_bind fun _ => upholds_text _
  · exact upholds_pure within

theorem upholds_recordNames {identity : Nat} {field : JobField} {value : Value} :
    Upholds inside Any (recordNames identity field value) := by
  by_cases strategy : field = .strategy
  · subst strategy
    rw [recordNames_strategy]
    refine upholds_ask_bind fun axes => upholds_bind_any (upholds_modifyJob fun _ _ _ within => within) fun _ _ _ => ?_
    exact upholds_debugLine (reads_axesLine identity axes)
  · unfold recordNames
    split
    · exact absurd rfl strategy
    · exact upholds_reads_bind (reads_mapM fun _ => reads_ask _) fun _ => upholds_modifyJob fun _ _ _ within => within
    · exact upholds_pure trivial

theorem upholds_makeWorkflow {name fileName : Value} (onName : name.Within inside) (onFileName : fileName.Within inside) :
    Upholds inside (There .workflow) (makeWorkflow name fileName) := by
  have made {file : Value} (onFile : file.Within inside) : Upholds inside (There .workflow) (newWorkflow { name, fileName := file }) :=
    upholds_newWorkflow ⟨onName, onFile, nofun, fun _ => Value.within_null, nofun⟩
  unfold makeWorkflow
  refine upholds_ofExcept_bind fun named _ => upholds_ite (by rw [fail_bind]; exact upholds_fail _) ?_
  simp only [pure_bind, fail_bind]
  split
  · exact made (Value.within_text _)
  · exact upholds_fail _
  · exact made onFileName

section

variable {call : Call} (safe : Safe call)
include safe

theorem upholds_resolve {known : Build Known} (reads : Reads known) {value : Value} (within : value.Within inside) :
    Upholds inside Value.Within (resolve call known value) := by
  unfold resolve
  split
  · exact upholds_reads_bind reads fun known => safe inside _ (.names known) trivial
  · exact upholds_pure within

theorem upholds_callStep {identity : Nat} (there : inside (.step identity)) {method : String} {arguments : List Value}
    (within : AllWithin inside arguments) : Upholds inside Value.Within (callStep call identity method arguments) := by
  have done {wider : Target → Prop} (more : inside ≤ wider) : Upholds wider Value.Within (pure (.step identity)) :=
    upholds_pure (within_step.mpr (more _ there))
  unfold callStep
  split
  · refine upholds_bind (upholds_resolve safe (reads_stepKnown identity) (within _ List.mem_cons_self)) fun _ value more _ => ?_
    refine upholds_reads_bind (reads_mapM reads_scriptLine) fun lines => ?_
    refine upholds_bind_any (upholds_modifyStep (fun _ => rfl) fun _ step _ within => ?_) fun _ _ further => done (more.trans further)
    exact within_set within (Value.within_text _)
  · refine upholds_bind (upholds_resolve safe (reads_stepKnown identity) (within _ List.mem_cons_self)) fun _ value more onValue => ?_
    refine upholds_bind_any (upholds_modifyStep (fun _ => rfl) fun _ step further within => ?_) fun _ _ further => done (more.trans further)
    exact within_set within (onValue.mono further)
  · exact upholds_fail _
  · exact upholds_fail _

theorem upholds_itemStep {job : Nat} {value : Value} (within : value.Within inside) :
    Upholds inside (There .step) (itemStep call job value) := by
  unfold itemStep
  split
  · exact upholds_pure (within_step.mp within)
  · refine upholds_reads_bind (reads_jobKnown job) fun known => ?_
    refine upholds_bind (upholds_newStep fun _ => Value.within_null) fun _ fresh _ there => ?_
    refine upholds_bind (safe _ _ (.object (.step fresh)) (within_step.mpr there)) fun _ built _ onBuilt => ?_
    split
    · exact upholds_pure (within_step.mp onBuilt)
    · exact upholds_fail _
  · exact upholds_fail _

theorem upholds_addStep {job : Nat} {value : Value} (within : value.Within inside) : Upholds inside Any (addStep call job value) := by
  rw [addStep_eq]
  refine upholds_bind (upholds_itemStep safe within) fun _ step _ there => upholds_modifyJob fun _ job more within => ?_
  refine ⟨within.1, fun other member => ?_⟩
  rcases List.mem_append.mp member with old | new
  · exact within.2 other old
  · cases List.mem_singleton.mp new
    exact more _ there

theorem upholds_addSteps {job : Nat} {values : List Value} (within : AllWithin inside values) :
    Upholds inside Any (addSteps call job values) := by
  induction values generalizing inside with
  | nil => exact upholds_pure trivial
  | cons value rest ih =>
    obtain ⟨first, others⟩ := Value.allWithin_cons.mp within
    exact upholds_bind_any (upholds_addStep safe first) fun _ _ more => ih (others.mono more)

theorem upholds_callJob {identity : Nat} (there : inside (.job identity)) {method : String} {arguments : List Value}
    (within : AllWithin inside arguments) : Upholds inside Value.Within (callJob call identity method arguments) := by
  have done {wider : Target → Prop} (more : inside ≤ wider) : Upholds wider Value.Within (pure (.job identity)) :=
    upholds_pure (within_job.mpr (more _ there))
  unfold callJob
  split
  · exact upholds_bind_any (upholds_addStep safe (within _ List.mem_cons_self)) fun _ _ more => done more
  · refine upholds_ofExcept_bind fun items listed => ?_
    have onItems := Value.gives_iterate (within _ List.mem_cons_self) items listed
    exact upholds_bind_any (upholds_addSteps safe onItems) fun _ _ more => done more
  · refine upholds_bind (upholds_resolve safe (reads_jobKnown identity) (within _ List.mem_cons_self)) fun _ value more onValue => ?_
    refine upholds_bind (upholds_jobSetting onValue) fun _ stored further onStored => ?_
    refine upholds_bind_any (upholds_modifyJob fun _ job last within => ⟨fun other => ?_, within.2⟩) fun _ _ next => ?_
    · show (if other = _ then stored else job.fields other).Within _
      split
      · exact onStored.mono last
      · exact within.1 other
    · exact upholds_bind_any upholds_recordNames fun _ _ last => done (((more.trans further).trans next).trans last)
  · exact upholds_ite (upholds_fail _) (upholds_fail _)

omit safe in
theorem upholds_addEvents {workflow : Nat} {entries : List (Value × Value)} (within : EntriesWithin inside entries) :
    Upholds inside Any (addEvents workflow entries) := by
  induction entries generalizing inside with
  | nil => exact upholds_pure trivial
  | cons entry rest ih =>
    obtain ⟨first, others⟩ := Value.entriesWithin_cons.mp within
    obtain ⟨name, options⟩ := entry
    unfold addEvents
    refine upholds_ask_bind fun name => upholds_bind_any (upholds_modifyWorkflow fun _ workflow more held => ?_) fun _ _ more => ih (others.mono more)
    obtain ⟨named, fileName, events, fields, jobs⟩ := held
    exact ⟨named, fileName, Workflow.forall_mem_putNamed (first.2.mono more) events, fields, jobs⟩

omit safe in
theorem eventOptions_within {options : Value} (within : options.Within inside) : (Workflow.eventOptions options).Within inside := by
  unfold Workflow.eventOptions
  split
  · exact Value.within_null
  · exact Value.within_null
  · exact Value.within_null
  · exact Value.within_null
  · split
    · exact Value.within_null
    · exact within

omit safe in
theorem upholds_addEvent {workflow : Nat} {event options : Value} (onEvent : event.Within inside) (onOptions : options.Within inside) :
    Upholds inside Any (addEvent workflow event options) := by
  unfold addEvent
  split
  · refine upholds_ite (upholds_fail _) (upholds_ofExcept_bind fun entries made => upholds_addEvents ?_)
    exact Event.gives_entries _ onEvent entries made
  · refine upholds_ask_bind fun name => upholds_modifyWorkflow fun _ workflow more held => ?_
    obtain ⟨named, fileName, events, fields, jobs⟩ := held
    exact ⟨named, fileName, Workflow.forall_mem_putNamed ((eventOptions_within onOptions).mono more) events, fields, jobs⟩

theorem upholds_itemJob {jobId value : Value} (within : value.Within inside) : Upholds inside (There .job) (itemJob call jobId value) := by
  unfold itemJob
  split
  · exact upholds_pure (within_job.mp within)
  · refine upholds_bind (upholds_newJob ⟨fun _ => Value.within_null, nofun⟩) fun _ fresh _ there => ?_
    refine upholds_bind (safe _ _ (.object (.job fresh)) (within_job.mpr there)) fun _ built _ onBuilt => ?_
    split
    · exact upholds_pure (within_job.mp onBuilt)
    · exact upholds_ask_bind fun _ => upholds_fail _
  · exact upholds_ask_bind fun _ => upholds_fail _

theorem upholds_addJob {workflow : Nat} {jobId value : Value} (onId : jobId.Within inside) (onValue : value.Within inside) :
    Upholds inside Any (addJob call workflow jobId value) := by
  rw [addJob_eq]
  refine upholds_bind (upholds_itemJob safe onValue) fun _ job more there => upholds_store_bind fun store closed further => ?_
  refine upholds_ofExcept_bind fun jobs made => upholds_modifyWorkflow fun _ workflow last held => ?_
  have listed := Value.gives_insertKey (There .job store.Has) ((onId.mono more).mono further) (further _ there)
    (closed.workflow _).2.2.2.2 jobs made
  obtain ⟨named, fileName, events, fields, -⟩ := held
  exact ⟨named, fileName, events, fields, fun entry member => ⟨(listed entry member).1.mono last, last _ (listed entry member).2⟩⟩

theorem upholds_addJobs {workflow : Nat} {entries : List (Value × Value)} (within : EntriesWithin inside entries) :
    Upholds inside Any (addJobs call workflow entries) := by
  induction entries generalizing inside with
  | nil => exact upholds_pure trivial
  | cons entry rest ih =>
    obtain ⟨first, others⟩ := Value.entriesWithin_cons.mp within
    exact upholds_bind_any (upholds_addJob safe first.1 first.2) fun _ _ more => ih (others.mono more)

omit safe in
theorem upholds_findJob {workflow : Nat} {jobId : Value} : Upholds inside Value.Within (findJob workflow jobId) := by
  unfold findJob
  refine upholds_ite (upholds_fail _) (upholds_store_bind fun store closed more => ?_)
  split
  · next job found =>
    obtain ⟨entry, member, rfl⟩ := Value.mem_of_lookup? found
    exact upholds_pure (within_job.mpr ((closed.workflow _).2.2.2.2 entry member).2)
  · exact upholds_ask_bind fun _ => upholds_fail _

theorem upholds_callWorkflow {identity : Nat} (there : inside (.workflow identity)) {method : String} {arguments : List Value}
    (within : AllWithin inside arguments) : Upholds inside Value.Within (callWorkflow call identity method arguments) := by
  have done {wider : Target → Prop} (more : inside ≤ wider) : Upholds wider Value.Within (pure (.workflow identity)) :=
    upholds_pure (within_workflow.mpr (more _ there))
  unfold callWorkflow
  split
  · exact upholds_bind_any (upholds_addEvent (within _ (by simp)) Value.within_null) fun _ _ more => done more
  · exact upholds_bind_any (upholds_addEvent (within _ (by simp)) (within _ (by simp))) fun _ _ more => done more
  · exact upholds_bind_any (upholds_addJob safe (within _ (by simp)) (within _ (by simp))) fun _ _ more => done more
  · refine upholds_ofExcept_bind fun entries listed => ?_
    have onEntries := Value.gives_itemEntries (within _ (by simp)) entries listed
    exact upholds_bind_any (upholds_addJobs safe onEntries) fun _ _ more => done more
  · exact upholds_findJob
  · next name =>
    refine upholds_bind_any (upholds_modifyWorkflow fun _ workflow more held => ?_) fun _ _ more => done more
    exact ⟨(within name (by simp)).mono more, held.2⟩
  · split
    · refine upholds_bind (upholds_resolve safe (reads_pure _) (within _ (by simp))) fun _ value more onValue => ?_
      refine upholds_bind_any (upholds_modifyWorkflow fun _ workflow further held => ?_) fun _ _ further => done (more.trans further)
      obtain ⟨named, fileName, events, fields, jobs⟩ := held
      refine ⟨named, fileName, events, fun other => ?_, jobs⟩
      show (if other = _ then (if _ then clearable value else value) else workflow.fields other).Within _
      split
      · split
        · exact (clearable_within onValue).mono further
        · exact onValue.mono further
      · exact fields other
    · exact upholds_ite (upholds_fail _) (upholds_fail _)

omit safe in
theorem upholds_addFragments {identity : Nat} {values : List Value} (within : AllWithin inside values) :
    Upholds inside Any (addFragments identity values) := by
  induction values generalizing inside with
  | nil => exact upholds_pure trivial
  | cons value rest ih =>
    obtain ⟨first, others⟩ := Value.allWithin_cons.mp within
    unfold addFragments
    refine upholds_ofExcept_bind fun fragment made => ?_
    have held := gives_fragment first fragment made
    split
    · next fragment =>
      refine upholds_bind_any (upholds_modifyExpression fun _ expression more within inner member => ?_) fun _ _ more => ih (others.mono more)
      rcases List.mem_append.mp member with old | new
      · exact within inner old
      · cases List.mem_singleton.mp new
        exact more _ (held inner rfl)
    · exact ih others

/-- A method takes up what is there and gives what is there. -/
theorem upholds_callMethod {value : Value} (onValue : value.Within inside) {method : String} {arguments : List Value}
    (within : AllWithin inside arguments) : Upholds inside Value.Within (callMethod call value method arguments) := by
  unfold callMethod
  split
  · exact upholds_callStep safe (within_step.mp onValue) within
  · exact upholds_callJob safe (within_job.mp onValue) within
  · exact upholds_callWorkflow safe (within_workflow.mp onValue) within
  · refine upholds_ite ?_ (upholds_fail _)
    exact upholds_bind_any (upholds_addFragments within) fun _ _ more => upholds_pure (onValue.mono more)
  · exact upholds_ite upholds_extend (upholds_bind_any (upholds_discard upholds_attributeOf) fun _ _ _ => upholds_fail _)
  · exact upholds_fail _

end

end Build

end WorkflowCompiler
