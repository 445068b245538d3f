import WorkflowCompiler.Proofs.MethodOutcomes
import WorkflowCompiler.Proofs.SpelledMakers

/-! Methods of objects, run on arguments and on their spelled copies. What a method reads as text is
collected along its run: the jobs that are needed, the names of axes and services, the name of an
event, and the file name of a workflow that a job uses. As long as these show no member, the method
does the same to both. -/

namespace WorkflowCompiler

@[simp] theorem Job.neededJobs_spelled (job : Job) : job.spelled.neededJobs = job.neededJobs := by
  have needed : job.spelled.fields .needs = (job.fields .needs).spelled := rfl
  rw [neededJobs, needed, Value.asList_spelled, List.filterMap_map, neededJobs]
  exact congrArg (List.filterMap · _) (funext Value.chars?_spelled)

theorem Job.set_spelled (job : Job) (field : JobField) (value : Value) :
    (job.set field value).spelled = job.spelled.set field value.spelled := by
  simp only [Job.set, Job.spelled, apply_ite Value.spelled]

theorem Step.setScript_spelled (step : Step) (lines : List String) (items : List Value) :
    (step.setScript lines items).spelled = step.spelled.setScript lines (items.map Value.spelled) := by
  simp only [setScript, spelled, set, apply_ite Value.spelled, List.map_filterMap, List.filterMap_map]
  congr 2
  · funext item
    cases item with
    | command line output exported => cases output <;> rfl
    | _ => rfl
  · funext item
    cases item with
    | command line output exported => cases exported <;> rfl
    | _ => rfl

theorem Workflow.set_spelled (workflow : Workflow) (field : WorkflowField) (value : Value) :
    (workflow.set field value).spelled = workflow.spelled.set field value.spelled := by
  simp only [Workflow.set, Workflow.spelled, apply_ite Value.spelled]

theorem Workflow.addEvent_spelled (workflow : Workflow) (name : String) (options : Value) :
    (workflow.addEvent name options).spelled = workflow.spelled.addEvent name options.spelled := by
  have put (events : List (String × Value)) :
      Value.spelledNamed (putNamed name options events) = putNamed name options.spelled (Value.spelledNamed events) := by
    induction events with
    | nil => rfl
    | cons event rest ih =>
      obtain ⟨other, old⟩ := event
      simp only [Value.spelledNamed, List.map_cons, Prod.map_apply, putNamed, id]
      split
      · rfl
      · rw [← ih]
        rfl
  simp only [addEvent, spelled, put]

theorem Workflow.eventOptions_spelled (options : Value) : eventOptions options.spelled = (eventOptions options).spelled := by
  cases options with
  | bool value => cases value <;> rfl
  | map entries => cases entries <;> rfl
  | list items => cases items <;> rfl
  | tuple items => cases items <;> rfl
  | text value =>
    simp only [Value.spelled, eventOptions]
    split <;> rfl
  | choice value => simp [Value.spelled, eventOptions, Value.chars?, Value.label?, Label.chars, Choice.text_ne_empty]
  | _ => rfl

theorem clearable_spelled (value : Value) : clearable value.spelled = (clearable value).spelled := by
  cases value with
  | bool value => cases value <;> rfl
  | _ => rfl

namespace Store

theorem stepOutputs_spelled (store : Store) (job : Job) :
    Agrees (List.map (Prod.map Value.spelled (List.map Value.spelled)) · = ·) (store.stepOutputs job)
      (store.spelled.stepOutputs job.spelled) := by
  have named : ((store.spelled.jobSteps job.spelled).filter fun step => !step.id.isNull) =
      ((store.jobSteps job).filter fun step => !step.id.isNull).map Step.spelled := by
    have set : ((fun step : Step => !step.id.isNull) ∘ Step.spelled) = fun step => !step.id.isNull := by
      funext step
      exact congrArg (!·) (Value.isNull_spelled step.id)
    rw [jobSteps_spelled, List.filter_map, set]
  have keys : ((fun step : Step => step.outputs.all Value.isKey) ∘ Step.spelled) = fun step => step.outputs.all Value.isKey := by
    funext step
    simp [Step.spelled, Function.comp_def]
  have outputs : ∀ steps : List Step, (steps.map Step.spelled).map (fun step => (step.id, step.outputs)) =
      (steps.map fun step => (step.id, step.outputs)).map (Prod.map Value.spelled (List.map Value.spelled)) := by
    intro steps
    rw [List.map_map, List.map_map]
    rfl
  rw [stepOutputs, stepOutputs, named, List.all_map, keys, outputs]
  split
  · exact .error rfl
  · exact Value.ofEntries_spelled _ _

theorem knownNames_spelled (store : Store) (job : Job) :
    Agrees (Known.spelled · = ·) (store.knownNames job) (store.spelled.knownNames job.spelled) := by
  refine (stepOutputs_spelled store job).next fun outputs => ?_
  exact .ok (by simp [Known.spelled, Function.comp_def]; exact ⟨rfl, rfl⟩)

end Store

namespace Build

open Value (spelled spelledNamed spelledPairs)

/-- What is read after a step of building, if that gives a value. -/
def afterwards (build : Build α) (workspace : Workspace) (next : α → Workspace → List Value) : List Value :=
  match build.run workspace with
  | (.ok value, after) => next value after
  | (.error _, _) => []

theorem steady_afterwards {build : Build α} {workspace after : Workspace} {next : α → Workspace → List Value} {value : α}
    (steady : Steady (afterwards build workspace next)) (ran : build.run workspace = (.ok value, after)) : Steady (next value after) := by
  rwa [afterwards, ran] at steady

/-- What is read by a step of building for each item. -/
def eachReads (each : α → Build Unit) (reads : α → Workspace → List Value) : List α → Workspace → List Value
  | [], _ => []
  | item :: rest, workspace =>
    reads item workspace ++ afterwards (each item) workspace fun _ between => eachReads each reads rest between

theorem forM_alike {each : α → Build Unit} {copy : β → Build Unit} {reads : α → Workspace → List Value} {spell : α → β} {items : List α}
    (onEach : ∀ item workspace, Steady (reads item workspace) → Alike Eq (each item) (copy (spell item)) workspace) {workspace : Workspace}
    (steady : Steady (eachReads each reads items workspace)) : Alike Eq (forM items each) (forM (items.map spell) copy) workspace := by
  induction items generalizing workspace with
  | nil => exact .pure rfl
  | cons item rest ih =>
    obtain ⟨onItem, onRest⟩ := steady_append.mp steady
    rw [List.map_cons, List.forM_cons, List.forM_cons]
    exact (onEach item workspace onItem).bind fun _ _ between ran _ => ih (steady_afterwards onRest ran)

/-- Calls of functions are alike as long as what they read shows no member. -/
def AlikeCalls (call : Call) (reads : Nat → Ambient → Workspace → List Value) : Prop :=
  ∀ function ambient workspace, Steady (reads function ambient workspace) →
    Alike (spelled · = ·) (call function ambient) (call function ambient.spelled) workspace

section

variable (call : Call) (reads : Nat → Ambient → Workspace → List Value)

def resolveReads (known : Build Known) (value : Value) (workspace : Workspace) : List Value :=
  match value with
  | .function function => afterwards known workspace fun known between => reads function (.names known) between
  | _ => []

def stepReads (identity : Nat) (method : String) (arguments : List Value) (workspace : Workspace) : List Value :=
  match StepField.ofSetter? method, arguments with
  | some _, [value] => resolveReads reads (stepKnown identity) value workspace
  | _, _ => []

def itemStepReads (job : Nat) (value : Value) (workspace : Workspace) : List Value :=
  match value with
  | .function function =>
    afterwards (jobKnown job) workspace fun known between =>
      afterwards (newStep { known := some known }) between fun fresh after => reads function (.object (.step fresh)) after
  | _ => []

/-- The names of a matrix that become axes. -/
def axisNames (strategy : Value) : List Value :=
  match strategy with
  | .map entries =>
    match Value.lookup? (.text "matrix") entries with
    | some (.map matrix) =>
      let included := match ((Value.lookup? (.text "include") matrix).getD .null).items? with
        | some rows => rows.flatMap fun
          | .map entries => entries.map Prod.fst
          | _ => []
        | none => []
      (matrix.filter fun (key, _) => !isMatrixRow key).map Prod.fst ++ included
    | _ => []
  | _ => []

/-- The names that a job records beside a setting. -/
def recordReads (field : JobField) (value : Value) : List Value :=
  match field, value with
  | .strategy, strategy => axisNames strategy
  | .services, .map entries => entries.map Prod.fst
  | _, _ => []

/-- What a setter of a job reads as text. -/
def settingReads (store : Store) (field : JobField) (value : Value) : List Value :=
  match field, value with
  | .needs, value => value.asList
  | .uses, .workflow identity => [(store.workflow identity).fileName]
  | field, value => recordReads field value

def jobReads (identity : Nat) (method : String) (arguments : List Value) (workspace : Workspace) : List Value :=
  match method, JobField.ofSetter? method, arguments with
  | "step", _, [value] => itemStepReads reads identity value workspace
  | "steps", _, [values] =>
    match values.iterate with
    | .ok items => eachReads (addStep call identity) (itemStepReads reads identity) items workspace
    | .error _ => []
  | _, some field, [value] =>
    resolveReads reads (jobKnown identity) value workspace ++
      afterwards (resolve call (jobKnown identity) value) workspace fun value between => settingReads between.store field value
  | _, _, _ => []

def eventReads (event : Value) : List Value :=
  match event with
  | .event _ _ => []
  | name => [name]

def itemJobReads (value : Value) (workspace : Workspace) : List Value :=
  match value with
  | .function function => afterwards (newJob {}) workspace fun fresh between => reads function (.object (.job fresh)) between
  | _ => []

def workflowReads (identity : Nat) (method : String) (arguments : List Value) (workspace : Workspace) : List Value :=
  match method, arguments with
  | "on", [event] => eventReads event
  | "on", [event, _] => eventReads event
  | "job", [_, value] => itemJobReads reads value workspace
  | "jobs", [values] =>
    match values.itemEntries with
    | .ok entries =>
      eachReads (fun entry => addJob call identity entry.1 entry.2) (fun entry => itemJobReads reads entry.2) entries workspace
    | .error _ => []
  | method, arguments =>
    match WorkflowField.ofSetter? method, arguments with
    | some _, [value] => resolveReads reads (return {}) value workspace
    | _, _ => []

/-- What a method reads as text. -/
def methodReads (value : Value) (method : String) (arguments : List Value) (workspace : Workspace) : List Value :=
  match value with
  | .step identity => stepReads reads identity method arguments workspace
  | .job identity => jobReads call reads identity method arguments workspace
  | .workflow identity => workflowReads call reads identity method arguments workspace
  | _ => []

end

variable {call : Call} {reads : Nat → Ambient → Workspace → List Value} (calls : AlikeCalls call reads) {workspace : Workspace}

section

include calls

theorem resolve_alike {known : Build Known} (names : ∀ workspace, Alike (Known.spelled · = ·) known known workspace) (value : Value)
    (steady : Steady (resolveReads reads known value workspace)) :
    Alike (spelled · = ·) (resolve call known value) (resolve call known value.spelled) workspace := by
  cases value with
  | function function =>
    refine (names workspace).next fun known between ran => ?_
    have onCall := steady_afterwards steady ran
    exact calls function (.names known) between onCall
  | _ => exact .pure rfl

end

theorem stepKnown_alike (identity : Nat) (workspace : Workspace) :
    Alike (Known.spelled · = ·) (stepKnown identity) (stepKnown identity) workspace := by
  refine Alike.store.next fun store between _ => ?_
  refine .pure ?_
  rw [Store.step_spelled, Step.spelled]
  cases (store.step identity).known <;> rfl

theorem jobKnown_alike (identity : Nat) (workspace : Workspace) :
    Alike (Known.spelled · = ·) (jobKnown identity) (jobKnown identity) workspace := by
  refine .ask ?_
  rw [Store.job_spelled]
  exact Store.knownNames_spelled _ _

theorem scriptLine_alike (value : Value) : Alike Eq (scriptLine value) (scriptLine value.spelled) workspace := by
  cases value with
  | text value => exact .pure rfl
  | choice value => exact .pure rfl
  | command line output exported =>
    simp only [spelled, scriptLine, Value.chars?_spelled]
    cases line.chars? with
    | some text => exact .pure rfl
    | none => exact .fail rfl
  | expression identity => exact lineText_alike (.expression identity) rfl
  | path segments => exact lineText_alike (.path segments) rfl
  | pathLike identity segments =>
    have written : Alike Eq (lineText (.pathLike identity segments)) (lineText (Value.pathLike identity segments).spelled) workspace :=
      lineText_alike (.pathLike identity segments) rfl
    have same := Value.isPath_spelled (.pathLike identity segments)
    simp only [spelled] at same written
    simp only [spelled, scriptLine, isExpression, same]
    exact .ite written (.fail rfl)
  | _ => exact .fail rfl

section

include calls

theorem callStep_alike (identity : Nat) (method : String) (arguments : List Value)
    (steady : Steady (stepReads reads identity method arguments workspace)) :
    Alike (spelled · = ·) (callStep call identity method arguments) (callStep call identity method (arguments.map spelled)) workspace := by
  unfold stepReads at steady
  unfold callStep
  generalize StepField.ofSetter? method = field at steady ⊢
  cases field with
  | none => exact .fail rfl
  | some field =>
    match arguments with
    | [value] =>
      have resolved := resolve_alike calls (stepKnown_alike identity) value steady
      cases field with
      | run =>
        refine resolved.next fun value between _ => ?_
        have items : (value.spelled.items?).getD [value.spelled] = ((value.items?).getD [value]).map spelled := by
          rw [Value.items?_spelled]
          cases value.items? <;> rfl
        rw [items]
        refine (Alike.mapM_eq fun item _ workspace => scriptLine_alike item).next fun lines after _ => ?_
        exact (Alike.modifyStep identity fun step => step.setScript_spelled lines _).next fun _ _ _ => .pure rfl
      | _ =>
        refine resolved.next fun value between _ => ?_
        exact (Alike.modifyStep identity fun step => stepSet_spelled step _ value).next fun _ _ _ => .pure rfl
    | [] => cases field <;> exact .fail rfl
    | _ :: _ :: _ => cases field <;> exact .fail rfl

theorem itemStep_alike (job : Nat) (value : Value) (steady : Steady (itemStepReads reads job value workspace)) :
    Alike Eq (itemStep call job value) (itemStep call job value.spelled) workspace := by
  cases value with
  | step identity => exact .pure rfl
  | function function =>
    refine (jobKnown_alike job workspace).next fun known between ranKnown => ?_
    refine (Alike.newStep { known := some known }).next fun fresh after ranFresh => ?_
    have onCall := steady_afterwards (steady_afterwards steady ranKnown) ranFresh
    refine (calls function (.object (.step fresh)) after onCall).next fun built _ _ => ?_
    cases built with
    | step identity => exact .pure rfl
    | _ => exact .fail rfl
  | _ => exact .fail rfl

theorem addStep_alike (job : Nat) (value : Value) (steady : Steady (itemStepReads reads job value workspace)) :
    Alike Eq (addStep call job value) (addStep call job value.spelled) workspace := by
  rw [addStep_eq, addStep_eq]
  refine (itemStep_alike calls job value steady).next fun step _ _ => ?_
  exact .modifyJob job fun _ => rfl

theorem itemJob_alike (jobId value : Value) (steady : Steady (itemJobReads reads value workspace)) :
    Alike Eq (itemJob call jobId value) (itemJob call jobId.spelled value.spelled) workspace := by
  have refused {workspace : Workspace} (typeName other : String) :
      Alike Eq (do fail (.notAJob (← ask (·.wording jobId)) typeName) : Build Nat)
        (do fail (.notAJob (← ask (·.wording jobId.spelled)) other)) workspace :=
    failWith_alike (anyWording_alike jobId) fun _ _ => rfl
  have unbuilt {workspace : Workspace} (typeName other : String) :
      Alike Eq (do fail (.builtNoJob (← ask (·.wording jobId)) typeName) : Build Nat)
        (do fail (.builtNoJob (← ask (·.wording jobId.spelled)) other)) workspace :=
    failWith_alike (anyWording_alike jobId) fun _ _ => rfl
  cases value with
  | job identity => exact .pure rfl
  | function function =>
    rw [itemJobReads] at steady
    refine (Alike.newJob {}).next fun fresh between ran => ?_
    have onCall := steady_afterwards steady ran
    refine (calls function (.object (.job fresh)) between onCall).next fun built _ _ => ?_
    cases built with
    | job identity => exact .pure rfl
    | _ => exact unbuilt _ _
  | _ => exact refused _ _

theorem addJob_alike (workflow : Nat) (jobId value : Value) (steady : Steady (itemJobReads reads value workspace)) :
    Alike Eq (addJob call workflow jobId value) (addJob call workflow jobId.spelled value.spelled) workspace := by
  rw [addJob_eq, addJob_eq]
  refine (itemJob_alike calls jobId value steady).next fun job _ _ => ?_
  refine Alike.store.next fun store _ _ => ?_
  rw [Store.workflow_spelled]
  refine (Alike.ofExcept (Value.insertKey_spelled id jobId job _)).next fun jobs _ _ => ?_
  exact .modifyWorkflow workflow fun _ => rfl

end

theorem jobSetting_alike (field : JobField) (value : Value) (steady : Steady (settingReads workspace.store field value)) :
    Alike (spelled · = ·) (jobSetting field value) (jobSetting field value.spelled) workspace := by
  cases field with
  | permissions => exact .pure (clearable_spelled value).symm
  | needs =>
    have names : Alike Eq (value.asList.mapM fun item => ask (·.wording item))
        ((value.asList.map spelled).mapM fun item => ask (·.wording item)) workspace :=
      Alike.mapM_eq fun item member _ => wording_alike (steady item member)
    rw [jobSetting, jobSetting, Value.asList_spelled]
    refine names.next fun names _ _ => ?_
    exact .pure (by simp [spelled, Function.comp_def])
  | uses =>
    cases value with
    | workflow identity =>
      refine Alike.store.next fun store between ran => ?_
      cases ran
      rw [Store.workflow_spelled]
      refine (wording_alike (steady _ List.mem_cons_self)).next fun fileName _ _ => ?_
      exact .pure rfl
    | _ => exact .pure rfl
  | _ => exact .pure rfl

theorem entryNames_spelled (store : Store) (entries : List (Value × α)) (spell : α → β) (steady : Steady (entries.map Prod.fst)) :
    Agrees Eq (entries.mapM fun (key, _) => store.wording key)
      ((entries.map (Prod.map spelled spell)).mapM fun (key, _) => store.spelled.wording key) :=
  Agrees.mapM_eq fun _ member => store.settledWording (steady _ (List.mem_map_of_mem member))

theorem isMatrixRow_spelled (key : Value) : isMatrixRow key.spelled = isMatrixRow key := by
  have equal (text : String) : Value.equals key.spelled (.text text) = Value.equals key (.text text) := Value.equals_spelled key (.text text)
  rw [isMatrixRow, equal, equal, isMatrixRow]

theorem matrixAxes_spelled (store : Store) (strategy : Value) (steady : Steady (axisNames strategy)) :
    Agrees Eq (matrixAxes store.wording strategy) (matrixAxes store.spelled.wording strategy.spelled) := by
  cases strategy with
  | map entries =>
    have found : Value.lookup? (.text "matrix") (spelledPairs entries) = (Value.lookup? (.text "matrix") entries).map spelled :=
      Value.lookup?_spelled spelled (.text "matrix") entries
    simp only [axisNames] at steady
    simp only [spelled, Value.spelledEntries_eq, matrixAxes, found]
    cases listed : Value.lookup? (.text "matrix") entries with
    | none => exact .ok rfl
    | some matrix =>
      rw [listed] at steady
      cases matrix with
      | map matrix =>
        obtain ⟨onAxes, onRows⟩ := steady_append.mp steady
        have axes : (spelledPairs matrix).filter (fun (key, _) => !isMatrixRow key) =
            spelledPairs (matrix.filter fun (key, _) => !isMatrixRow key) := by
          have row : ((fun entry : Value × Value => !isMatrixRow entry.1) ∘ Prod.map spelled spelled) =
              fun entry => !isMatrixRow entry.1 := by
            funext entry
            exact congrArg (!·) (isMatrixRow_spelled entry.1)
          rw [spelledPairs, List.filter_map, row]
        have included : ((Value.lookup? (.text "include") (spelledPairs matrix)).getD .null) =
            ((Value.lookup? (.text "include") matrix).getD .null).spelled := by
          have listed : Value.lookup? (.text "include") (spelledPairs matrix) = (Value.lookup? (.text "include") matrix).map spelled :=
            Value.lookup?_spelled spelled (.text "include") matrix
          rw [listed]
          cases Value.lookup? (.text "include") matrix <;> rfl
        simp only [Option.map_some, spelled, Value.spelledEntries_eq, axes, included, Value.items?_spelled, Value.isNull_spelled]
        refine (entryNames_spelled store _ spelled onAxes).next fun axes => ?_
        generalize (Value.lookup? (.text "include") matrix).getD .null = included at onRows ⊢
        cases onItems : included.items? with
        | none => cases included.isNull <;> exact .ok rfl
        | some rows =>
          rw [onItems] at onRows
          refine (Agrees.mapM_eq fun row member => ?_).bind ?_
          · have names := steady_flatMap.mp onRows row member
            cases row with
            | map entries =>
              simp only [spelled, Value.spelledEntries_eq]
              exact entryNames_spelled store entries spelled names
            | _ => exact .ok rfl
          · rintro more _ rfl
            exact .ok rfl
      | _ => exact .ok rfl
  | _ => exact .ok rfl

theorem recordNames_alike (identity : Nat) (field : JobField) (value : Value) (steady : Steady (recordReads field value)) :
    Alike Eq (recordNames identity field value) (recordNames identity field value.spelled) workspace := by
  cases field with
  | strategy =>
    rw [recordNames_strategy, recordNames_strategy]
    refine (Alike.ask (matrixAxes_spelled workspace.store value steady)).next fun axes _ _ => ?_
    have noted {workspace : Workspace} : Alike Eq (modifyJob identity fun job => { job with axes })
        (modifyJob identity fun job => { job with axes }) workspace := .modifyJob identity fun _ => rfl
    refine noted.next fun _ _ _ => .debugLine ?_
    refine Alike.store.next fun store between _ => ?_
    rw [Store.job_spelled]
    have listed : ((texts axes).elim Value.null Value.tuple).spelled = (texts axes).elim Value.null Value.tuple := by
      cases axes with
      | none => rfl
      | some axes => simp [texts, spelled, Function.comp_def]
    refine (shown_alike ((store.job identity).fields .name)).bind fun _ _ between _ _ => ?_
    have shown := between.store.anyShown_spelled ((texts axes).elim Value.null Value.tuple)
    rw [listed] at shown
    exact (Alike.ask shown).bind fun _ _ _ _ _ => .pure trivial
  | services =>
    cases value with
    | map entries =>
      simp only [spelled, Value.spelledEntries_eq]
      have names : Alike Eq (entries.mapM fun (name, _) => ask (·.wording name))
          ((spelledPairs entries).mapM fun (name, _) => ask (·.wording name)) workspace :=
        Alike.mapM_eq fun _ member _ => wording_alike (steady _ (List.mem_map_of_mem member))
      refine names.next fun services _ _ => ?_
      exact .modifyJob identity fun _ => rfl
    | _ => exact .pure rfl
  | _ => exact .pure rfl

/-- Names are recorded for settings that are stored as they are given. -/
theorem steady_recordReads {field : JobField} {value stored : Value} {between after : Workspace}
    (ran : (jobSetting field value).run between = (.ok stored, after)) (steady : Steady (settingReads between.store field value)) :
    Steady (recordReads field stored) := by
  cases field with
  | permissions => exact fun _ member => nomatch member
  | needs => exact fun _ member => nomatch member
  | uses => exact fun _ member => nomatch member
  | _ =>
    cases ran
    exact steady

/-- A method of a job by its name and arguments: the two that add steps, and the setters. -/
inductive JobMethod : String → List Value → Prop
  | step (value : Value) : JobMethod "step" [value]
  | steps (values : Value) : JobMethod "steps" [values]
  | setter {method : String} {field : JobField} (value : Value) (unstep : method ≠ "step") (unsteps : method ≠ "steps")
      (named : JobField.ofSetter? method = some field) : JobMethod method [value]

theorem callJob_setter {method : String} {field : JobField} (identity : Nat) (value : Value) (unstep : method ≠ "step")
    (unsteps : method ≠ "steps") (named : JobField.ofSetter? method = some field) :
    callJob call identity method [value] = (do
      let value ← jobSetting field (← resolve call (jobKnown identity) value)
      modifyJob identity (·.set field value)
      recordNames identity field value
      return .job identity) := by
  unfold callJob
  split <;> simp_all

theorem jobReads_setter {method : String} {field : JobField} (identity : Nat) (value : Value) (unstep : method ≠ "step")
    (unsteps : method ≠ "steps") (named : JobField.ofSetter? method = some field) :
    jobReads call reads identity method [value] workspace =
      resolveReads reads (jobKnown identity) value workspace ++
        afterwards (resolve call (jobKnown identity) value) workspace fun value between => settingReads between.store field value := by
  unfold jobReads
  split <;> simp_all

theorem callJob_other {identity : Nat} {method : String} {arguments : List Value} (other : ¬ JobMethod method arguments) :
    callJob call identity method arguments = (do
      if (JobField.ofSetter? method).isSome || method == "step" || method == "steps" then fail .mistyped
      else fail (.noAttribute "Job" method)) := by
  unfold callJob
  split
  · exact absurd (.step _) other
  · exact absurd (.steps _) other
  · next unstep unsteps named => exact absurd (.setter _ unstep unsteps named) other
  · split <;> rfl

theorem JobMethod.of_spelled {method : String} {arguments : List Value} (known : JobMethod method (arguments.map spelled)) :
    JobMethod method arguments := by
  generalize same : arguments.map spelled = copies at known
  cases known with
  | step value =>
    obtain ⟨given, rfl, -⟩ := List.map_eq_singleton_iff.mp same
    exact .step given
  | steps values =>
    obtain ⟨given, rfl, -⟩ := List.map_eq_singleton_iff.mp same
    exact .steps given
  | setter value unstep unsteps named =>
    obtain ⟨given, rfl, -⟩ := List.map_eq_singleton_iff.mp same
    exact .setter given unstep unsteps named

section

include calls

theorem setJob_alike (identity : Nat) (field : JobField) (value : Value)
    (steady : Steady (resolveReads reads (jobKnown identity) value workspace ++
      afterwards (resolve call (jobKnown identity) value) workspace fun value between => settingReads between.store field value)) :
    Alike (spelled · = ·)
      (do
        let value ← jobSetting field (← resolve call (jobKnown identity) value)
        modifyJob identity (·.set field value)
        recordNames identity field value
        return .job identity)
      (do
        let value ← jobSetting field (← resolve call (jobKnown identity) value.spelled)
        modifyJob identity (·.set field value)
        recordNames identity field value
        return .job identity) workspace := by
  obtain ⟨onResolve, onSetting⟩ := steady_append.mp steady
  refine (resolve_alike calls (jobKnown_alike identity) value onResolve).next fun value between ran => ?_
  have onValue := steady_afterwards onSetting ran
  refine (jobSetting_alike field value onValue).next fun stored after ranSetting => ?_
  refine (Alike.modifyJob identity fun job => job.set_spelled field stored).next fun _ _ _ => ?_
  exact (recordNames_alike identity field stored (steady_recordReads ranSetting onValue)).next fun _ _ _ => .pure rfl

theorem callJob_alike (identity : Nat) (method : String) (arguments : List Value)
    (steady : Steady (jobReads call reads identity method arguments workspace)) :
    Alike (spelled · = ·) (callJob call identity method arguments) (callJob call identity method (arguments.map spelled)) workspace := by
  by_cases known : JobMethod method arguments
  · cases known with
    | step value => exact (addStep_alike calls identity value steady).next fun _ _ _ => .pure rfl
    | steps values =>
      have iterated := Value.iterate_spelled values
      simp only [jobReads] at steady
      simp only [List.map_cons, List.map_nil, callJob]
      generalize values.iterate = items at steady iterated ⊢
      generalize values.spelled.iterate = copies at iterated ⊢
      cases iterated with
      | error alike => exact fun _ spells => ⟨.error alike, spells⟩
      | ok same =>
        subst same
        have added := forM_alike (fun value _ => addStep_alike calls identity value) steady
        rw [← addSteps_eq, ← addSteps_eq] at added
        exact added.next fun _ _ _ => .pure rfl
    | setter value unstep unsteps named =>
      rw [jobReads_setter identity value unstep unsteps named] at steady
      rw [List.map_cons, List.map_nil, callJob_setter identity value unstep unsteps named,
        callJob_setter identity value.spelled unstep unsteps named]
      exact setJob_alike calls identity _ value steady
  · rw [callJob_other known, callJob_other (mt JobMethod.of_spelled known)]
    exact .ite (.fail rfl) (.fail rfl)

end

theorem addEvents_alike (workflow : Nat) (entries : List (Value × Value)) (named : Event.AllNamed entries) :
    Alike Eq (addEvents workflow entries) (addEvents workflow (spelledPairs entries)) workspace := by
  induction entries generalizing workspace with
  | nil => exact .pure rfl
  | cons entry rest ih =>
    obtain ⟨key, options⟩ := entry
    obtain ⟨⟨name, rfl⟩, others⟩ := List.forall_mem_cons.mp named
    refine (Alike.ask (Agrees.refl _)).next fun name _ _ => ?_
    exact (Alike.modifyWorkflow workflow fun held => held.addEvent_spelled name options).next fun _ _ _ => ih others

theorem addEvent_alike (workflow : Nat) (event options : Value) (steady : Steady (eventReads event)) :
    Alike Eq (addEvent workflow event options) (addEvent workflow event.spelled options.spelled) workspace := by
  have added {workspace : Workspace} (name : Value) (settled : name.settled) : Alike Eq
      (do
        let name ← ask (·.wording name)
        modifyWorkflow workflow (·.addEvent name (Workflow.eventOptions options)))
      (do
        let name ← ask (·.wording name.spelled)
        modifyWorkflow workflow (·.addEvent name (Workflow.eventOptions options.spelled))) workspace := by
    refine (wording_alike settled).next fun name _ _ => ?_
    refine .modifyWorkflow workflow fun held => ?_
    rw [Workflow.eventOptions_spelled, Workflow.addEvent_spelled]
  cases event with
  | event kind settings =>
    have entries := (Event.entries_spelled (.event kind settings)).gives (Event.entries_named (.event kind settings))
    simp only [spelled, Value.spelledItems_eq] at entries
    simp only [spelled, Value.spelledItems_eq, addEvent, Value.isNull_spelled]
    refine .ite (.fail rfl) ((Alike.ofExcept entries).bind ?_)
    rintro entries _ _ - ⟨named, rfl⟩
    exact addEvents_alike workflow entries named
  | _ => exact added _ (steady _ List.mem_cons_self)

theorem findJob_alike (workflow : Nat) (jobId : Value) :
    Alike (spelled · = ·) (findJob workflow jobId) (findJob workflow jobId.spelled) workspace := by
  rw [findJob, findJob, Value.isKey_spelled]
  refine .ite (.fail rfl) (Alike.store.bind ?_)
  rintro store _ _ - rfl
  have found : Value.lookup? jobId.spelled (store.spelled.workflow workflow).jobs = Value.lookup? jobId (store.workflow workflow).jobs := by
    rw [Store.workflow_spelled]
    exact (Value.lookup?_spelled id jobId _).trans (Option.map_id_apply)
  rw [found]
  cases Value.lookup? jobId (store.workflow workflow).jobs with
  | some job => exact .pure rfl
  | none => exact failWith_alike (shown_alike jobId) fun _ _ => rfl

/-- A method of a workflow by its name and arguments. -/
inductive WorkflowMethod : String → List Value → Prop
  | on (event : Value) : WorkflowMethod "on" [event]
  | onOptions (event options : Value) : WorkflowMethod "on" [event, options]
  | job (jobId value : Value) : WorkflowMethod "job" [jobId, value]
  | jobs (values : Value) : WorkflowMethod "jobs" [values]
  | getJob (jobId : Value) : WorkflowMethod "get_job" [jobId]
  | setName (name : Value) : WorkflowMethod "set_name" [name]
  | setter (field : WorkflowField) (value : Value) : WorkflowMethod field.key [value]

theorem callWorkflow_setter (identity : Nat) (field : WorkflowField) (value : Value) :
    callWorkflow call identity field.key [value] = (do
      let value ← resolve call (return {}) value
      modifyWorkflow identity (·.set field (if field = .permissions then clearable value else value))
      return .workflow identity) := by
  cases field <;> rfl

theorem workflowReads_setter (identity : Nat) (field : WorkflowField) (value : Value) :
    workflowReads call reads identity field.key [value] workspace = resolveReads reads (return {}) value workspace := by
  cases field <;> rfl

theorem callWorkflow_other {identity : Nat} {method : String} {arguments : List Value} (other : ¬ WorkflowMethod method arguments) :
    callWorkflow call identity method arguments = (do
      if (WorkflowField.ofSetter? method).isSome || ["on", "job", "jobs", "get_job", "set_name"].contains method then fail .mistyped
      else fail (.noAttribute "Workflow" method)) := by
  unfold callWorkflow
  split
  · exact absurd (.on _) other
  · exact absurd (.onOptions _ _) other
  · exact absurd (.job _ _) other
  · exact absurd (.jobs _) other
  · exact absurd (.getJob _) other
  · exact absurd (.setName _) other
  · split
    · next named _ _ _ _ _ _ =>
      rw [WorkflowField.eq_key named] at other
      exact absurd (.setter _ _) other
    · split <;> rfl

theorem WorkflowMethod.of_spelled {method : String} {arguments : List Value} (known : WorkflowMethod method (arguments.map spelled)) :
    WorkflowMethod method arguments := by
  generalize same : arguments.map spelled = copies at known
  cases known with
  | on event =>
    obtain ⟨given, rfl, -⟩ := List.map_eq_singleton_iff.mp same
    exact .on given
  | onOptions event options =>
    obtain ⟨event, rest, rfl, -, same⟩ := List.map_eq_cons_iff.mp same
    obtain ⟨options, rfl, -⟩ := List.map_eq_singleton_iff.mp same
    exact .onOptions event options
  | job jobId value =>
    obtain ⟨jobId, rest, rfl, -, same⟩ := List.map_eq_cons_iff.mp same
    obtain ⟨value, rfl, -⟩ := List.map_eq_singleton_iff.mp same
    exact .job jobId value
  | jobs values =>
    obtain ⟨given, rfl, -⟩ := List.map_eq_singleton_iff.mp same
    exact .jobs given
  | getJob jobId =>
    obtain ⟨given, rfl, -⟩ := List.map_eq_singleton_iff.mp same
    exact .getJob given
  | setName name =>
    obtain ⟨given, rfl, -⟩ := List.map_eq_singleton_iff.mp same
    exact .setName given
  | setter field value =>
    obtain ⟨given, rfl, -⟩ := List.map_eq_singleton_iff.mp same
    exact .setter field given

section

include calls

theorem callWorkflow_alike (identity : Nat) (method : String) (arguments : List Value)
    (steady : Steady (workflowReads call reads identity method arguments workspace)) :
    Alike (spelled · = ·) (callWorkflow call identity method arguments)
      (callWorkflow call identity method (arguments.map spelled)) workspace := by
  by_cases known : WorkflowMethod method arguments
  · cases known with
    | on event => exact (addEvent_alike identity event .null steady).next fun _ _ _ => .pure rfl
    | onOptions event options => exact (addEvent_alike identity event options steady).next fun _ _ _ => .pure rfl
    | job jobId value => exact (addJob_alike calls identity jobId value steady).next fun _ _ _ => .pure rfl
    | jobs values =>
      have entered := Value.itemEntries_spelled values
      simp only [workflowReads] at steady
      simp only [List.map_cons, List.map_nil, callWorkflow]
      generalize values.itemEntries = entries at steady entered ⊢
      generalize values.spelled.itemEntries = copies at entered ⊢
      cases entered with
      | error alike => exact fun _ spells => ⟨.error alike, spells⟩
      | @ok entries _ same =>
        subst same
        have added : Alike Eq (addJobs call identity entries) (addJobs call identity (spelledPairs entries)) workspace := by
          rw [addJobs_eq, addJobs_eq]
          exact forM_alike (fun entry _ => addJob_alike calls identity entry.1 entry.2) steady
        exact added.next fun _ _ _ => .pure rfl
    | getJob jobId => exact findJob_alike identity jobId
    | setName name =>
      have named : Alike Eq (modifyWorkflow identity fun workflow => { workflow with name })
          (modifyWorkflow identity fun workflow => { workflow with name := name.spelled }) workspace :=
        .modifyWorkflow identity fun _ => rfl
      exact named.next fun _ _ _ => .pure rfl
    | setter field value =>
      rw [workflowReads_setter] at steady
      rw [List.map_cons, List.map_nil, callWorkflow_setter, callWorkflow_setter]
      refine (resolve_alike calls (fun _ => .pure rfl) value steady).next fun value _ _ => ?_
      refine (Alike.modifyWorkflow identity fun held => ?_).next fun _ _ _ => .pure rfl
      rw [Workflow.set_spelled, clearable_spelled, apply_ite spelled]
  · rw [callWorkflow_other known, callWorkflow_other (mt WorkflowMethod.of_spelled known)]
    exact .ite (.fail rfl) (.fail rfl)

theorem callMethod_alike (value : Value) (method : String) (arguments : List Value)
    (steady : Steady (methodReads call reads value method arguments workspace)) :
    Alike (spelled · = ·) (callMethod call value method arguments) (callMethod call value.spelled method (arguments.map spelled)) workspace := by
  cases value with
  | step identity => exact callStep_alike calls identity method arguments steady
  | job identity => exact callJob_alike calls identity method arguments steady
  | workflow identity => exact callWorkflow_alike calls identity method arguments steady
  | expression identity =>
    exact .ite ((addFragments_alike identity arguments).next fun _ _ _ => .pure rfl) (.fail rfl)
  | path segments =>
    have discarded : Alike (fun _ _ => True) (discard (attributeOf (.path segments) method) : Build Unit)
        (discard (attributeOf (.path (segments.map Label.spelled)) method)) workspace :=
      (attributeOf_alike (.path segments) method).next fun _ _ _ => .pure trivial
    exact .ite (extend_alike segments arguments) (discarded.bind fun _ _ _ _ _ => .fail rfl)
  | _ => exact .fail rfl

end

theorem makeWorkflow_alike (name fileName : Value) : Alike Eq (makeWorkflow name fileName)
    (makeWorkflow name.spelled fileName.spelled) workspace := by
  have made (fileName : Value) {workspace : Workspace} : Alike Eq (newWorkflow { name, fileName })
      (newWorkflow { name := name.spelled, fileName := fileName.spelled }) workspace := .newWorkflow { name, fileName }
  rw [makeWorkflow, makeWorkflow, Value.truth_spelled]
  refine (Alike.ofExcept (.refl name.truth)).next fun isSet _ _ => ?_
  cases isSet with
  | false => exact .fail rfl
  | true =>
    rw [Value.chars?_spelled]
    cases fileName with
    | null =>
      cases name.chars? with
      | none => exact .fail rfl
      | some name => exact made (.text (Text.kebab name))
    | _ => exact made _

end Build

end WorkflowCompiler
