import WorkflowCompiler.Proofs.CallFrames
import WorkflowCompiler.Proofs.EventEntries

/-! What a call of a method can come to. Each method either leaves the object as it is and fails,
or changes it in the one way that its name says. -/

namespace WorkflowCompiler

/-- A field that is found by a name has it. -/
theorem eq_of_find? {κ : Type} {name : κ → String} {all : List κ} {wanted : String} {field : κ}
    (found : all.find? (name · == wanted) = some field) : wanted = name field := by
  have same := List.find?_some found
  exact (beq_iff_eq.mp same).symm

@[simp] theorem StepField.ofSetter?_setter (field : StepField) : ofSetter? field.setter = some field := by
  cases field <;> rfl

theorem StepField.eq_setter {method : String} {field : StepField} (named : ofSetter? method = some field) : method = field.setter :=
  eq_of_find? named

@[simp] theorem JobField.ofSetter?_setter (field : JobField) : ofSetter? field.setter = some field := by
  cases field <;> rfl

theorem JobField.eq_setter {method : String} {field : JobField} (named : ofSetter? method = some field) : method = field.setter :=
  eq_of_find? named

theorem WorkflowField.eq_key {method : String} {field : WorkflowField} (named : ofSetter? method = some field) : method = field.key :=
  eq_of_find? named

namespace Workspace

def withStep (workspace : Workspace) (identity : Nat) (change : Step → Step) : Workspace :=
  { workspace with store := { workspace.store with steps := workspace.store.steps.modify identity change } }

def withJob (workspace : Workspace) (identity : Nat) (change : Job → Job) : Workspace :=
  { workspace with store := { workspace.store with jobs := workspace.store.jobs.modify identity change } }

def withWorkflow (workspace : Workspace) (identity : Nat) (change : Workflow → Workflow) : Workspace :=
  { workspace with store :=
    { workspace.store with workflows := workspace.store.workflows.modify identity change } }

theorem getD_modify {items : List α} {position : Nat} (inside : position < items.length) (change : α → α) (default : α) :
    (items.modify position change).getD position default = change (items.getD position default) := by
  simp [List.getD_eq_getElem?_getD, inside]

variable {workspace : Workspace} {identity : Nat}

@[simp] theorem step_withStep (has : workspace.store.Has (.step identity)) (change : Step → Step) :
    (workspace.withStep identity change).store.step identity = change (workspace.store.step identity) :=
  getD_modify has change _

@[simp] theorem job_withJob (has : workspace.store.Has (.job identity)) (change : Job → Job) :
    (workspace.withJob identity change).store.job identity = change (workspace.store.job identity) :=
  getD_modify has change _

@[simp] theorem workflow_withWorkflow (has : workspace.store.Has (.workflow identity)) (change : Workflow → Workflow) :
    (workspace.withWorkflow identity change).store.workflow identity = change (workspace.store.workflow identity) :=
  getD_modify has change _

@[simp] theorem has_withJob {target : Target} {change : Job → Job} :
    (workspace.withJob identity change).store.Has target ↔ workspace.store.Has target := by
  cases target <;> simp [withJob, Store.Has]

@[simp] theorem has_withWorkflow {target : Target} {change : Workflow → Workflow} :
    (workspace.withWorkflow identity change).store.Has target ↔ workspace.store.Has target := by
  cases target <;> simp [withWorkflow, Store.Has]

@[simp] theorem withWorkflow_id (workspace : Workspace) (identity : Nat) : workspace.withWorkflow identity id = workspace := by
  simp [withWorkflow]

@[simp] theorem withWorkflow_withWorkflow (first second : Workflow → Workflow) :
    (workspace.withWorkflow identity first).withWorkflow identity second = workspace.withWorkflow identity (second ∘ first) := by
  simp [withWorkflow, List.modify_modify_eq]

end Workspace

/-- A workflow with an entry of an event's section. -/
def Workflow.addEntry (workflow : Workflow) : Value × Value → Workflow
  | (.text name, options) => workflow.addEvent name options
  | _ => workflow

namespace Build

open Store (Keeps Same)

@[simp] theorem run_modifyJob (identity : Nat) (change : Job → Job) (workspace : Workspace) :
    (modifyJob identity change).run workspace = (.ok (), workspace.withJob identity change) := rfl

@[simp] theorem run_modifyWorkflow (identity : Nat) (change : Workflow → Workflow) (workspace : Workspace) :
    (modifyWorkflow identity change).run workspace = (.ok (), workspace.withWorkflow identity change) := rfl

theorem Maintains.run {free : List Target} {build : Build α} (maintains : Maintains free build) {workspace after : Workspace}
    {result : Except Failure α} (ran : build.run workspace = (result, after)) : Keeps free workspace.store after.store := by
  simpa [ran] using maintains workspace

variable {call : Call} {identity : Nat} {workspace after : Workspace} {method : String} {arguments : List Value}
  {result : Except Failure Value}

/-- What a method of a step comes to: either it fails before it changes anything, or its argument
has been resolved and is stored, as it is or as a script. -/
inductive StepOutcome (call : Call) (identity : Nat) (workspace : Workspace) :
    String → List Value → Except Failure Value → Workspace → Prop
  | refused {method arguments failure after} (keeps : Keeps [] workspace.store after.store) :
      StepOutcome call identity workspace method arguments (.error failure) after
  | script {method argument value lines between}
      (named : StepField.ofSetter? method = some .run)
      (resolved : (resolve call (stepKnown identity) argument).run workspace = (.ok value, between))
      (written : (((value.items?).getD [value]).mapM scriptLine).run between = (.ok lines, between)) :
      StepOutcome call identity workspace method [argument] (.ok (.step identity))
        (between.withStep identity (·.setScript lines ((value.items?).getD [value])))
  | set {method argument field value between}
      (named : StepField.ofSetter? method = some field) (plain : field ≠ .run)
      (resolved : (resolve call (stepKnown identity) argument).run workspace = (.ok value, between)) :
      StepOutcome call identity workspace method [argument] (.ok (.step identity))
        (between.withStep identity (·.set field value))

/-- Building that only looks at what there is. -/
def Reads (build : Build α) : Prop := ∀ workspace, (build.run workspace).2 = workspace

theorem Reads.run {build : Build α} (reads : Reads build) {workspace after : Workspace} {result : Except Failure α}
    (ran : build.run workspace = (result, after)) : after = workspace := by
  simpa [ran] using reads workspace

@[simp] theorem reads_pure (value : α) : Reads (pure value) := fun _ => rfl

@[simp] theorem reads_fail (cause : Cause) : Reads (fail cause : Build α) := fun _ => rfl

@[simp] theorem reads_ask (question : Store → Except Failure α) : Reads (ask question) :=
  fun workspace => run_ask_snd question workspace

@[simp] theorem reads_ofExcept (result : Except Failure α) : Reads (ofExcept result) := by
  cases result <;> exact fun _ => rfl

@[simp] theorem reads_store : Reads store := fun _ => rfl

@[simp] theorem reads_bind {first : Build α} {next : α → Build β} (onFirst : Reads first) (onNext : ∀ value, Reads (next value)) :
    Reads (first >>= next) := by
  intro workspace
  rcases ran : (first >>= next).run workspace with ⟨result, after⟩
  rcases run_bind_cases ran with ⟨failure, failed, -⟩ | ⟨value, between, made, ran⟩
  · exact onFirst.run failed
  · rw [← onFirst.run made]
    exact (onNext value).run ran

@[simp] theorem reads_map {change : α → β} {build : Build α} (reads : Reads build) : Reads (change <$> build) := by
  rw [map_eq_pure_bind]
  exact reads_bind reads fun _ => reads_pure _

@[simp] theorem reads_mapM {each : α → Build β} {items : List α} (onEach : ∀ item, Reads (each item)) : Reads (items.mapM each) := by
  induction items with
  | nil => simp
  | cons item items ih =>
    rw [List.mapM_cons]
    exact reads_bind (onEach item) fun _ => reads_bind ih fun _ => reads_pure _

@[simp] theorem reads_scriptLine (value : Value) : Reads (scriptLine value) := by
  unfold scriptLine lineText
  split
  · simp
  · simp
  · split <;> simp
  · split
    · split
      · simp
      · simp
      · split <;> simp
    · simp

@[simp] theorem reads_jobSetting (field : JobField) (value : Value) : Reads (jobSetting field value) := by
  unfold jobSetting
  split <;> simp

theorem callStep_outcome (tame : Tame call) (ran : (callStep call identity method arguments).run workspace = (result, after)) :
    StepOutcome call identity workspace method arguments result after := by
  have onResolve (argument : Value) : Maintains [] (resolve call (stepKnown identity) argument) :=
    maintains_resolve tame (maintains_stepKnown identity) argument
  unfold callStep at ran
  split at ran
  case h_1 argument named =>
    rcases run_bind_cases ran with ⟨failure, failed, rfl⟩ | ⟨value, between, resolved, rest⟩
    · exact .refused ((onResolve argument).run failed)
    · rcases run_bind_cases rest with ⟨failure, failed, rfl⟩ | ⟨lines, same, written, stored⟩
      · obtain rfl := (reads_mapM reads_scriptLine).run failed
        exact .refused ((onResolve argument).run resolved)
      · obtain rfl := (reads_mapM reads_scriptLine).run written
        cases stored
        exact .script named resolved written
  case h_2 field argument plain named =>
    rcases run_bind_cases ran with ⟨failure, failed, rfl⟩ | ⟨value, between, resolved, rest⟩
    · exact .refused ((onResolve argument).run failed)
    · cases rest
      exact .set named plain resolved
  all_goals
    cases ran
    exact .refused (.refl [] workspace.store)

/-- The step that an item of a job's list of steps stands for. -/
def itemStep (call : Call) (job : Nat) (value : Value) : Build Nat := do
  match value with
  | .step identity => return identity
  | .function function =>
    let fresh ← newStep { known := some (← jobKnown job) }
    match ← call function (.object (.step fresh)) with
    | .step identity => return identity
    | other => fail (.builtNoStep other.typeName)
  | other => fail (.notAStep other.typeName)

theorem addStep_eq (call : Call) (job : Nat) (value : Value) :
    addStep call job value = itemStep call job value >>= fun step => modifyJob job (·.addStep step) := by
  cases value with
  | step identity => rfl
  | function function =>
    simp only [addStep, itemStep, bind_assoc]
    congr 1
    funext known
    congr 1
    funext fresh
    congr 1
    funext built
    cases built <;> rfl
  | _ => rfl

theorem maintains_itemStep (tame : Tame call) (job : Nat) (value : Value) : Maintains [] (itemStep call job value) := by
  cases value with
  | function function =>
    apply maintains_bind (maintains_jobKnown job)
    intro known
    apply maintains_newStep_bind
    intro fresh
    apply maintains_bind (tame.step _ List.mem_cons_self)
    intro built
    cases built <;> first | exact maintains_pure _ | exact maintains_fail _
  | step identity => exact maintains_pure identity
  | _ => exact maintains_fail _

/-- The line that tells the axes of a job's strategy. -/
def axesLine (job : Nat) (axes : Option (List String)) : Build String := do
  let shown (value : Value) : Build String := ask (·.shown value)
  let axes := (texts axes).elim Value.null Value.tuple
  return s!"job {← shown (((← store).job job).fields .name)}: matrix axes {← shown axes}"

/-- What a job notes beside the value of a setting: the names of the axes of its strategy and those
of its services. The value is stored by then, even where the names cannot be told. -/
inductive NameOutcome (job : Nat) (workspace : Workspace) : JobField → Value → Except Failure Unit → Workspace → Prop
  | none {field value} (strategy : field ≠ .strategy) (services : ∀ entries, ¬ (field = .services ∧ value = .map entries)) :
      NameOutcome job workspace field value (.ok ()) workspace
  | axes {value axes result after} (named : matrixAxes workspace.store.wording value = .ok axes)
      (noted : after.store = (workspace.withJob job fun job => { job with axes }).store)
      (written : (debugLine (axesLine job axes)).run (workspace.withJob job fun job => { job with axes }) = (result, after)) :
      NameOutcome job workspace .strategy value result after
  | axesUntold {value failure} (untold : matrixAxes workspace.store.wording value = .error failure) :
      NameOutcome job workspace .strategy value (.error failure) workspace
  | services {entries services} (named : (entries.mapM fun entry => workspace.store.wording entry.1) = .ok services) :
      NameOutcome job workspace .services (.map entries) (.ok ()) (workspace.withJob job fun job => { job with services })
  | servicesUntold {entries failure} (untold : (entries.mapM fun entry => workspace.store.wording entry.1) = .error failure) :
      NameOutcome job workspace .services (.map entries) (.error failure) workspace

theorem Reads.debugLine_store {line : Build String} (reads : Reads line) {result : Except Failure Unit}
    (ran : (debugLine line).run workspace = (result, after)) : after.store = workspace.store := by
  rcases run_bind_cases ran with ⟨failure, failed, -⟩ | ⟨text, between, made, rest⟩
  · rw [reads.run failed]
  · obtain rfl := reads.run made
    rcases run_bind_cases rest with ⟨failure, failed, -⟩ | ⟨_, _, got, rest⟩
    · cases failed
    · cases got
      split at rest <;> cases rest <;> rfl

theorem recordNames_strategy (job : Nat) (value : Value) :
    recordNames job .strategy value = (do
      let axes ← ask fun store => matrixAxes store.wording value
      modifyJob job fun job => { job with axes }
      debugLine (axesLine job axes)) := rfl

theorem reads_axesLine (job : Nat) (axes : Option (List String)) : Reads (axesLine job axes) :=
  reads_bind reads_store fun _ => by simp

theorem recordNames_outcome {job : Nat} {field : JobField} {value : Value} {result : Except Failure Unit}
    (ran : (recordNames job field value).run workspace = (result, after)) :
    NameOutcome job workspace field value result after := by
  by_cases strategy : field = .strategy
  · subst strategy
    rw [recordNames_strategy, run_bind, run_ask_eq] at ran
    rcases named : matrixAxes workspace.store.wording value with failure | axes
    · rw [named] at ran
      cases ran
      exact .axesUntold named
    · rw [named] at ran
      exact .axes named ((reads_axesLine job axes).debugLine_store ran) ran
  · unfold recordNames at ran
    split at ran
    · exact absurd rfl strategy
    · rename_i entries
      rw [run_bind, run_mapM_ask fun store (entry : Value × Value) => store.wording entry.1] at ran
      rcases named : entries.mapM fun entry => workspace.store.wording entry.1 with failure | services
      · rw [named] at ran
        cases ran
        exact .servicesUntold named
      · rw [named] at ran
        cases ran
        exact .services named
    · rename_i services
      cases ran
      exact .none strategy fun entries ⟨same, map⟩ => services entries same map

/-- What a method of a job comes to. -/
inductive JobOutcome (call : Call) (job : Nat) (workspace : Workspace) :
    String → List Value → Except Failure Value → Workspace → Prop
  | refused {method arguments failure after} (keeps : Keeps [] workspace.store after.store) :
      JobOutcome call job workspace method arguments (.error failure) after
  | step {value step between} (made : (itemStep call job value).run workspace = (.ok step, between)) :
      JobOutcome call job workspace "step" [value] (.ok (.job job)) (between.withJob job (·.addStep step))
  | steps {values items result after} (iterated : values.iterate = .ok items)
      (ran : (addSteps call job items).run workspace = (result, after)) :
      JobOutcome call job workspace "steps" [values] (result.map fun _ => .job job) after
  | set {method argument field value stored between result after} (named : JobField.ofSetter? method = some field)
      (resolved : (resolve call (jobKnown job) argument).run workspace = (.ok value, between))
      (normal : (jobSetting field value).run between = (.ok stored, between))
      (noted : NameOutcome job (between.withJob job (·.set field stored)) field stored result after) :
      JobOutcome call job workspace method [argument] (result.map fun _ => .job job) after

theorem callJob_outcome (tame : Tame call) (ran : (callJob call identity method arguments).run workspace = (result, after)) :
    JobOutcome call identity workspace method arguments result after := by
  unfold callJob at ran
  split at ran
  · rename_i value
    rw [addStep_eq] at ran
    rcases run_bind_cases ran with ⟨failure, failed, rfl⟩ | ⟨_, appended, rest, stored⟩
    · rcases run_bind_cases failed with ⟨failure, failed, same⟩ | ⟨step, between, made, stored⟩
      · cases same
        exact .refused ((maintains_itemStep tame identity value).run failed)
      · cases stored
    · rcases run_bind_cases rest with ⟨failure, failed, same⟩ | ⟨step, between, made, appended⟩
      · cases same
      · cases appended
        cases stored
        exact .step made
  · rename_i values
    rw [run_bind, run_ofExcept_eq] at ran
    rcases iterated : values.iterate with failure | items
    · rw [iterated] at ran
      cases ran
      exact .refused (.refl [] workspace.store)
    · rw [iterated] at ran
      rcases run_bind_cases ran with ⟨failure, failed, rfl⟩ | ⟨_, between, appended, stored⟩
      · exact .steps iterated failed
      · cases stored
        exact .steps iterated appended
  · rename_i field argument unstep unsteps named
    have onResolve : Maintains [] (resolve call (jobKnown identity) argument) :=
      maintains_resolve tame (maintains_jobKnown identity) argument
    rcases run_bind_cases ran with ⟨failure, failed, rfl⟩ | ⟨value, between, resolved, later⟩
    · exact .refused (onResolve.run failed)
    rcases run_bind_cases later with ⟨failure, failed, rfl⟩ | ⟨stored, same, normal, rest⟩
    · obtain rfl := (reads_jobSetting field value).run failed
      exact .refused (onResolve.run resolved)
    obtain rfl := (reads_jobSetting field value).run normal
    rw [run_bind_ok (run_modifyJob _ _ _)] at rest
    rcases run_bind_cases rest with ⟨failure, unnamed, rfl⟩ | ⟨_, noted, recorded, finished⟩
    · exact .set named resolved normal (recordNames_outcome unnamed)
    · cases finished
      exact .set named resolved normal (recordNames_outcome recorded)
  · split at ran <;> cases ran <;> exact .refused (.refl [] workspace.store)

/-- Of a failing run through items, those before the one that fails have been dealt with. -/
theorem run_forM_cases {each : α → Build Unit} {items : List α} {failure : Failure}
    (ran : (forM items each).run workspace = (.error failure, after)) :
    ∃ earlier item later between, items = earlier ++ item :: later ∧
      (forM earlier each).run workspace = (.ok (), between) ∧ (each item).run between = (.error failure, after) := by
  induction items generalizing workspace with
  | nil => cases ran
  | cons item rest ih =>
    rw [List.forM_cons] at ran
    rcases run_bind_cases ran with ⟨failure, failed, same⟩ | ⟨_, between, done, ran⟩
    · cases same
      exact ⟨[], item, rest, workspace, rfl, rfl, failed⟩
    · obtain ⟨earlier, next, later, reached, rfl, before, failed⟩ := ih ran
      exact ⟨item :: earlier, next, later, reached, rfl, by rw [List.forM_cons, run_bind_ok done, before], failed⟩

theorem addSteps_eq (call : Call) (job : Nat) (items : List Value) : addSteps call job items = forM items (addStep call job) := by
  induction items with
  | nil => rfl
  | cons item rest ih => rw [addSteps, ih, List.forM_cons]

theorem addJobs_eq (call : Call) (workflow : Nat) (entries : List (Value × Value)) :
    addJobs call workflow entries = forM entries fun entry => addJob call workflow entry.1 entry.2 := by
  induction entries with
  | nil => rfl
  | cons entry rest ih => rw [addJobs, ih, List.forM_cons]

/-- The job that an item of a workflow's jobs stands for. -/
def itemJob (call : Call) (jobId value : Value) : Build Nat := do
  match value with
  | .job identity => return identity
  | .function function =>
    let fresh ← newJob {}
    match ← call function (.object (.job fresh)) with
    | .job identity => return identity
    | other => fail (.builtNoJob (← ask (·.wording jobId)) other.typeName)
  | other => fail (.notAJob (← ask (·.wording jobId)) other.typeName)

theorem addJob_eq (call : Call) (workflow : Nat) (jobId value : Value) :
    addJob call workflow jobId value = (do
      let job ← itemJob call jobId value
      let jobs ← ofExcept (Value.insertKey ((← store).workflow workflow).jobs jobId job)
      modifyWorkflow workflow fun workflow => { workflow with jobs }) := by
  cases value with
  | job identity => rfl
  | function function =>
    simp only [addJob, itemJob, bind_assoc]
    congr 1
    funext fresh
    congr 1
    funext built
    cases built <;> first | rfl | simp
  | _ => simp [addJob, itemJob]

theorem maintains_itemJob (tame : Tame call) (jobId value : Value) : Maintains [] (itemJob call jobId value) := by
  cases value with
  | function function =>
    apply maintains_newJob_bind
    intro fresh
    apply maintains_bind (tame.job _ List.mem_cons_self)
    intro built
    cases built <;> first | exact maintains_pure _ | simp
  | job identity => exact maintains_pure identity
  | _ => simp [itemJob]

theorem addJob_outcome (tame : Tame call) {workflow : Nat} {jobId value : Value} {result : Except Failure Unit}
    (ran : (addJob call workflow jobId value).run workspace = (result, after)) :
    ((∃ failure, result = .error failure) ∧ Keeps [] workspace.store after.store) ∨
    ∃ job between, (itemJob call jobId value).run workspace = (.ok job, between) ∧ jobId.isKey ∧ result = .ok () ∧
      after = between.withWorkflow workflow fun changed =>
        { changed with jobs := Value.insert jobId job (between.store.workflow workflow).jobs } := by
  rw [addJob_eq] at ran
  rcases run_bind_cases ran with ⟨failure, failed, rfl⟩ | ⟨job, between, made, ran⟩
  · exact .inl ⟨⟨failure, rfl⟩, (maintains_itemJob tame jobId value).run failed⟩
  · rw [run_bind_ok (run_store between), run_bind, run_ofExcept_eq, Value.insertKey] at ran
    by_cases key : jobId.isKey = true
    · rw [if_pos key] at ran
      cases ran
      exact .inr ⟨job, between, made, key, rfl, rfl⟩
    · rw [if_neg key] at ran
      cases ran
      exact .inl ⟨⟨_, rfl⟩, (maintains_itemJob tame jobId value).run made⟩

theorem run_addEvents {workflow : Nat} {entries : List (Value × Value)} (named : Event.AllNamed entries) (workspace : Workspace) :
    (addEvents workflow entries).run workspace = (.ok (), workspace.withWorkflow workflow (entries.foldl Workflow.addEntry)) := by
  induction entries generalizing workspace with
  | nil => exact congrArg (Prod.mk (Except.ok ())) (workspace.withWorkflow_id workflow).symm
  | cons entry rest ih =>
    obtain ⟨key, options⟩ := entry
    obtain ⟨⟨name, rfl⟩, others⟩ := List.forall_mem_cons.mp named
    have worded : workspace.store.wording (.text name) = .ok name := rfl
    rw [addEvents, run_bind_ok (run_ask worded), run_bind_ok (run_modifyWorkflow _ _ _), ih others,
      Workspace.withWorkflow_withWorkflow]
    rfl

/-- What a method of a workflow comes to. -/
inductive WorkflowOutcome (call : Call) (workflow : Nat) (workspace : Workspace) :
    String → List Value → Except Failure Value → Workspace → Prop
  | refused {method arguments failure after} (keeps : Keeps [] workspace.store after.store) :
      WorkflowOutcome call workflow workspace method arguments (.error failure) after
  | found {jobId job} : WorkflowOutcome call workflow workspace "get_job" [jobId] (.ok (.job job)) workspace
  | entries {kind settings options arguments entries} (given : arguments = [] ∨ arguments = [options]) (plain : options.isNull)
      (listed : Event.entries (.event kind settings) = .ok entries) :
      WorkflowOutcome call workflow workspace "on" (.event kind settings :: arguments) (.ok (.workflow workflow))
        (workspace.withWorkflow workflow (entries.foldl Workflow.addEntry))
  | event {event options arguments name} (given : arguments = [] ∧ options = .null ∨ arguments = [options])
      (other : ∀ kind settings, event ≠ .event kind settings) (named : workspace.store.wording event = .ok name) :
      WorkflowOutcome call workflow workspace "on" (event :: arguments) (.ok (.workflow workflow))
        (workspace.withWorkflow workflow (·.addEvent name (Workflow.eventOptions options)))
  | job {jobId value job between} (made : (itemJob call jobId value).run workspace = (.ok job, between)) (key : jobId.isKey) :
      WorkflowOutcome call workflow workspace "job" [jobId, value] (.ok (.workflow workflow))
        (between.withWorkflow workflow fun changed =>
          { changed with jobs := Value.insert jobId job (between.store.workflow workflow).jobs })
  | jobs {values entries result after} (listed : values.itemEntries = .ok entries)
      (ran : (addJobs call workflow entries).run workspace = (result, after)) :
      WorkflowOutcome call workflow workspace "jobs" [values] (result.map fun _ => .workflow workflow) after
  | renamed {name} : WorkflowOutcome call workflow workspace "set_name" [name] (.ok (.workflow workflow))
      (workspace.withWorkflow workflow fun workflow => { workflow with name })
  | set {method argument field value between} (named : WorkflowField.ofSetter? method = some field)
      (resolved : (resolve call (return {}) argument).run workspace = (.ok value, between)) :
      WorkflowOutcome call workflow workspace method [argument] (.ok (.workflow workflow))
        (between.withWorkflow workflow (·.set field (if field = .permissions then clearable value else value)))

/-- An event is taken up as a whole or not at all: its entries are all named by texts. -/
theorem addEvent_outcome {workflow : Nat} {event options : Value} {result : Except Failure Unit}
    (ran : (addEvent workflow event options).run workspace = (result, after)) :
    ((∃ failure, result = .error failure) ∧ after = workspace) ∨ result = .ok () ∧
      ((∃ kind settings entries, event = .event kind settings ∧ options.isNull ∧ Event.entries event = .ok entries ∧
          after = workspace.withWorkflow workflow (entries.foldl Workflow.addEntry)) ∨
        ∃ name, (∀ kind settings, event ≠ .event kind settings) ∧ workspace.store.wording event = .ok name ∧
          after = workspace.withWorkflow workflow (·.addEvent name (Workflow.eventOptions options))) := by
  unfold addEvent at ran
  split at ran
  · rename_i kind settings
    by_cases plain : options.isNull = true
    · rw [if_neg (by simpa using plain), run_bind, run_ofExcept_eq] at ran
      rcases listed : Event.entries (.event kind settings) with failure | entries
      · rw [listed] at ran
        cases ran
        exact .inl ⟨⟨failure, rfl⟩, rfl⟩
      · rw [listed] at ran
        dsimp only at ran
        rw [run_addEvents (Event.entries_named _ _ listed)] at ran
        cases ran
        exact .inr ⟨rfl, .inl ⟨kind, settings, entries, rfl, plain, rfl, rfl⟩⟩
    · rw [if_pos (by simpa using plain)] at ran
      cases ran
      exact .inl ⟨⟨_, rfl⟩, rfl⟩
  · rename_i other
    rw [run_bind, run_ask_eq] at ran
    rcases named : workspace.store.wording event with failure | name
    · rw [named] at ran
      cases ran
      exact .inl ⟨⟨failure, rfl⟩, rfl⟩
    · rw [named] at ran
      cases ran
      exact .inr ⟨rfl, .inr ⟨name, other, rfl, rfl⟩⟩

theorem on_outcome {workflow : Nat} {event options : Value} {others : List Value}
    (given : others = [] ∧ options = .null ∨ others = [options])
    (ran : (addEvent workflow event options >>= fun _ => pure (.workflow workflow)).run workspace = (result, after)) :
    WorkflowOutcome call workflow workspace "on" (event :: others) result after := by
  rcases run_bind_cases ran with ⟨failure, failed, rfl⟩ | ⟨_, between, added, rest⟩
  · rcases addEvent_outcome failed with ⟨-, rfl⟩ | ⟨same, -⟩
    · exact .refused (.refl [] _)
    · cases same
  · cases rest
    rcases addEvent_outcome added with ⟨⟨failure, same⟩, -⟩ | ⟨-, taken⟩
    · cases same
    rcases taken with ⟨kind, settings, entries, rfl, plain, listed, rfl⟩ | ⟨name, other, named, rfl⟩
    · refine .entries ?_ plain listed
      rcases given with ⟨alone, -⟩ | given
      · exact .inl alone
      · exact .inr given
    · exact .event given other named

theorem findJob_outcome {workflow : Nat} {jobId : Value} (ran : (findJob workflow jobId).run workspace = (result, after)) :
    after = workspace ∧ ∀ found, result = .ok found → ∃ job, found = .job job := by
  unfold findJob at ran
  split at ran
  · cases ran
    exact ⟨rfl, by simp⟩
  · rw [run_bind_ok (run_store workspace)] at ran
    split at ran
    · rename_i job found
      cases ran
      exact ⟨rfl, fun _ same => by cases same; exact ⟨job, rfl⟩⟩
    · rw [run_bind, run_ask_eq] at ran
      revert ran
      rcases workspace.store.shown jobId with failure | shown <;> rintro ⟨⟩ <;> exact ⟨rfl, by simp⟩

theorem callWorkflow_outcome (tame : Tame call)
    (ran : (callWorkflow call identity method arguments).run workspace = (result, after)) :
    WorkflowOutcome call identity workspace method arguments result after := by
  unfold callWorkflow at ran
  split at ran
  · exact on_outcome (.inl ⟨rfl, rfl⟩) ran
  · exact on_outcome (.inr rfl) ran
  · rename_i jobId value
    rcases run_bind_cases ran with ⟨failure, failed, rfl⟩ | ⟨_, between, added, rest⟩
    · rcases addJob_outcome tame failed with ⟨-, keeps⟩ | ⟨job, between, made, key, same, rfl⟩
      · exact .refused keeps
      · cases same
    · rcases addJob_outcome tame added with ⟨⟨failure, same⟩, -⟩ | ⟨job, between, made, key, -, rfl⟩
      · cases same
      · cases rest
        exact .job made key
  · rename_i values
    rw [run_bind, run_ofExcept_eq] at ran
    rcases listed : values.itemEntries with failure | entries
    · rw [listed] at ran
      cases ran
      exact .refused (.refl [] workspace.store)
    · rw [listed] at ran
      rcases run_bind_cases ran with ⟨failure, failed, rfl⟩ | ⟨_, between, added, rest⟩
      · exact .jobs listed failed
      · cases rest
        exact .jobs listed added
  · rename_i jobId
    have plain : (findJob identity jobId).run workspace = (result, after) := by
      simpa using ran
    obtain ⟨rfl, found⟩ := findJob_outcome plain
    rcases result with failure | value
    · exact .refused (.refl [] _)
    · obtain ⟨job, rfl⟩ := found value rfl
      exact .found
  · cases ran
    exact .renamed
  · split at ran
    · rename_i field argument named _ _ _ _ _ _
      have onResolve : Maintains [] (resolve call (return {}) argument) := maintains_resolve tame (maintains_pure _) argument
      rcases run_bind_cases ran with ⟨failure, failed, rfl⟩ | ⟨value, between, resolved, rest⟩
      · exact .refused (onResolve.run failed)
      · cases rest
        exact .set named resolved
    · split at ran <;> cases ran <;> exact .refused (.refl [] workspace.store)

end Build

end WorkflowCompiler
