import WorkflowCompiler.Builder.Rendering
import WorkflowCompiler.Proofs.EventEntries
import WorkflowCompiler.Proofs.SpelledTexts

/-! Records of objects with their members spelled out. A value and a job id are rendered as the texts
that members stand for. So is a member that is the key of a mapping; the text of any other key is
what `keys` collects. If these texts show no members, an object and its spelled copy render to the
same record, or both have the same structural faults. -/

namespace WorkflowCompiler

/-- Values whose texts show no members. -/
def Steady (values : List Value) : Prop := ∀ value ∈ values, value.settled

theorem steady_append {first second : List Value} : Steady (first ++ second) ↔ Steady first ∧ Steady second :=
  List.forall_mem_append

theorem steady_flatMap {items : List α} {values : α → List Value} : Steady (items.flatMap values) ↔ ∀ item ∈ items, Steady (values item) :=
  List.forall_mem_flatMap

namespace Value

/-- A key by its text, unless it is a member. -/
def named : Value → List Value
  | .choice _ => []
  | value => [value]

mutual

/-- The keys that are rendered by their texts, in the value and inside it. -/
def keys : Value → List Value
  | .list items => itemKeys items
  | .tuple items => itemKeys items
  | .map entries => entryKeys entries
  | _ => []

def itemKeys : List Value → List Value
  | [] => []
  | value :: rest => keys value ++ itemKeys rest

def entryKeys : List (Value × Value) → List Value
  | [] => []
  | entry :: rest => pairKeys entry ++ entryKeys rest

def pairKeys : Value × Value → List Value
  | (key, value) => named key ++ keys value

end

theorem steady_itemKeys {items : List Value} : Steady (itemKeys items) ↔ ∀ item ∈ items, Steady item.keys := by
  induction items with
  | nil => simp [itemKeys, Steady]
  | cons item rest ih => rw [itemKeys, steady_append, ih, List.forall_mem_cons]

theorem steady_entryKeys {entries : List (Value × Value)} :
    Steady (entryKeys entries) ↔ ∀ entry ∈ entries, Steady (named entry.1) ∧ Steady entry.2.keys := by
  induction entries with
  | nil => simp [entryKeys, Steady]
  | cons entry rest ih => rw [entryKeys, steady_append, ih, List.forall_mem_cons, pairKeys, steady_append]

mutual

theorem steady_keys_of_settled (value : Value) (settled : value.settled) : Steady value.keys := by
  cases value with
  | list items => exact steady_itemKeys_of_settled items settled
  | tuple items => exact steady_itemKeys_of_settled items settled
  | map entries => exact steady_entryKeys_of_settled entries settled
  | _ => simp [keys, Steady]

theorem steady_itemKeys_of_settled (items : List Value) (settled : settledItems items) : Steady (itemKeys items) := by
  cases items with
  | nil => simp [itemKeys, Steady]
  | cons value rest =>
    obtain ⟨first, others⟩ := Bool.and_eq_true_iff.mp settled
    exact steady_append.mpr ⟨steady_keys_of_settled value first, steady_itemKeys_of_settled rest others⟩

theorem steady_entryKeys_of_settled (entries : List (Value × Value)) (settled : settledEntries entries) : Steady (entryKeys entries) := by
  cases entries with
  | nil => simp [entryKeys, Steady]
  | cons entry rest =>
    obtain ⟨first, others⟩ := Bool.and_eq_true_iff.mp settled
    exact steady_append.mpr ⟨steady_pairKeys_of_settled entry first, steady_entryKeys_of_settled rest others⟩

theorem steady_pairKeys_of_settled (entry : Value × Value) (settled : settledEntry entry) : Steady (pairKeys entry) := by
  obtain ⟨key, value⟩ := entry
  obtain ⟨onKey, onValue⟩ := Bool.and_eq_true_iff.mp settled
  refine steady_append.mpr ⟨?_, steady_keys_of_settled value onValue⟩
  cases key <;> simp_all [named, Steady, settledEntry]

end

theorem steady_keys_of_named {key : Value} (steady : Steady key.named) : Steady key.keys := by
  cases key with
  | choice key => simp [keys, Steady]
  | _ => exact steady_keys_of_settled _ (steady _ List.mem_cons_self)

section

variable {wording copied : Value → Except Failure String} {visit visited : Target → Except Failure Tree}

/-- Two ways of rendering, of values and of their spelled copies, that come to the same as long as
no member shows. -/
structure RenderAlike (wording copied : Value → Except Failure String) (visit visited : Target → Except Failure Tree) : Prop where
  texts : ∀ text, copied (.text text) = .ok text
  names : ∀ value, value.settled → Agrees Eq (wording value) (copied value.spelled)
  objects : ∀ target, Agrees Eq (visit target) (visited target)

/-- The text of a key. -/
def keyText (wording : Value → Except Failure String) : Value → Except Failure String
  | .choice key => pure key.text
  | key => wording key

theorem keyText_spelled (alike : RenderAlike wording copied visit visited) (key : Value) (steady : Steady key.named) :
    Agrees Eq (keyText wording key) (keyText copied key.spelled) := by
  cases key with
  | choice key =>
    show Agrees Eq (.ok key.text) (copied (.text key.text))
    rw [alike.texts]
    exact .refl _
  | _ => exact alike.names _ (steady _ List.mem_cons_self)

mutual

theorem plainWith_spelled (alike : RenderAlike wording copied visit visited) (value : Value) (steady : Steady value.keys) :
    Agrees Eq (plainWith wording visit value) (plainWith copied visited value.spelled) := by
  cases value with
  | list items =>
    simp only [spelled, spelledItems_eq, plainWith]
    exact (plainItems_spelled alike items steady).bind fun trees _ same => .ok (by rw [same])
  | tuple items =>
    simp only [spelled, spelledItems_eq, plainWith]
    exact (plainItems_spelled alike items steady).bind fun trees _ same => .ok (by rw [same])
  | map entries =>
    simp only [spelled, spelledEntries_eq, plainWith]
    exact (plainEntries_spelled alike entries steady []).bind fun trees _ same => .ok (by rw [same])
  | path segments => exact .ok (by rw [dotted_spelled])
  | pathLike identity segments =>
    have same := segments?_spelled (.pathLike identity segments)
    simp only [spelled] at same
    simp only [spelled, plainWith, same]
    cases (pathLike identity segments).segments? with
    | none => exact .fail rfl
    | some labels => exact .ok (by rw [dotted_spelled])
  | command line output exported =>
    simp only [spelled, plainWith, chars?_spelled]
    exact .refl _
  | expression identity => exact alike.objects _
  | step identity => exact alike.objects _
  | job identity => exact alike.objects _
  | workflow identity => exact alike.objects _
  | bytes _ => exact .fail rfl
  | foreign _ _ => exact .fail rfl
  | event _ _ => exact .fail rfl
  | input _ _ => exact .fail rfl
  | function _ => exact .fail rfl
  | failure _ _ => exact .fail rfl
  | _ => exact .refl _

theorem plainItems_spelled (alike : RenderAlike wording copied visit visited) (items : List Value) (steady : Steady (itemKeys items)) :
    Agrees Eq (plainItems wording visit items) (plainItems copied visited (items.map spelled)) := by
  cases items with
  | nil => exact .ok rfl
  | cons value rest =>
    obtain ⟨first, others⟩ := steady_append.mp steady
    exact (plainWith_spelled alike value first).bind fun tree _ one =>
      (plainItems_spelled alike rest others).bind fun trees _ more => .ok (by rw [one, more])

theorem plainEntries_spelled (alike : RenderAlike wording copied visit visited) (entries : List (Value × Value))
    (steady : Steady (entryKeys entries))
    (found : List (Tree × Tree)) :
    Agrees Eq (plainEntries wording visit found entries) (plainEntries copied visited found (spelledPairs entries)) := by
  cases entries with
  | nil => exact .ok rfl
  | cons entry rest =>
    obtain ⟨first, others⟩ := steady_append.mp steady
    refine (plainEntry_spelled alike entry first found).next fun found => ?_
    exact plainEntries_spelled alike rest others found

theorem plainEntry_spelled (alike : RenderAlike wording copied visit visited) (entry : Value × Value) (steady : Steady (pairKeys entry))
    (found : List (Tree × Tree)) :
    Agrees Eq (plainEntry wording visit found entry) (plainEntry copied visited found (Prod.map spelled spelled entry)) := by
  obtain ⟨key, value⟩ := entry
  obtain ⟨onKey, onValue⟩ := steady_append.mp steady
  have entered (wording : Value → Except Failure String) (visit : Target → Except Failure Tree) (key value : Value) :
      plainEntry wording visit found (key, value) =
        do return Tree.putText (← keyText wording key) (← plainWith wording visit value) found := by
    cases key <;> rfl
  rw [Prod.map_apply, entered, entered]
  exact (keyText_spelled alike key onKey).bind fun name _ one =>
    (plainWith_spelled alike value onValue).bind fun tree _ more => .ok (by rw [one, more])

end

end

end Value

namespace Step

/-- The keys of mappings that a step holds. -/
def keys (step : Step) : List Value := StepField.all.flatMap fun field => (step.fields field).keys

end Step

namespace Job

def keys (job : Job) : List Value := JobField.all.flatMap fun field => (job.fields field).keys

end Job

namespace Workflow

/-- The keys of mappings and the ids of jobs. -/
def keys (workflow : Workflow) : List Value :=
  workflow.name.keys ++ workflow.events.flatMap (fun event => event.2.keys)
    ++ WorkflowField.all.flatMap (fun field => (workflow.fields field).keys)
    ++ workflow.jobs.flatMap fun job => job.1.named

end Workflow

namespace Store

/-- The keys that are rendered by their texts with some object. -/
def keys (store : Store) : List Value :=
  store.steps.flatMap Step.keys ++ store.jobs.flatMap Job.keys ++ store.workflows.flatMap Workflow.keys

variable {store : Store}

theorem steady_getD {items : List α} {keys : α → List Value} {default : α} (steady : Steady (items.flatMap keys))
    (fallback : keys default = []) (place : Nat) : Steady (keys (items.getD place default)) := by
  rw [List.getD_eq_getElem?_getD]
  cases found : items[place]? with
  | none => simp [fallback, Steady]
  | some item => exact steady_flatMap.mp steady item (List.mem_of_getElem? found)

theorem steady_step (steady : Steady store.keys) (identity : Nat) : Steady (store.step identity).keys :=
  steady_getD (steady_append.mp (steady_append.mp steady).1).1 rfl identity

theorem steady_job (steady : Steady store.keys) (identity : Nat) : Steady (store.job identity).keys :=
  steady_getD (steady_append.mp (steady_append.mp steady).1).2 rfl identity

theorem steady_workflow (steady : Steady store.keys) (identity : Nat) : Steady (store.workflow identity).keys :=
  steady_getD (steady_append.mp steady).2 rfl identity

theorem jobSteps_spelled (job : Job) : store.spelled.jobSteps job.spelled = (store.jobSteps job).map Step.spelled := by
  rw [jobSteps, jobSteps, List.map_map]
  exact List.map_congr_left fun identity _ => store.step_spelled identity

theorem stepIds_spelled (job : Job) : store.spelled.stepIds job.spelled = (store.stepIds job).map Value.spelled := by
  have ids : Step.id ∘ Step.spelled = Value.spelled ∘ Step.id := rfl
  rw [stepIds, stepIds, jobSteps_spelled, List.map_map, ids, ← List.map_map, List.filter_map]
  simp [Function.comp_def]

theorem repetitions_spelled (label copied : String) (seen ids : List Value) :
    Agrees (fun causes copies => causes.map Cause.category = copies.map Cause.category)
      (jobFaults.repetitions store label seen ids)
      (jobFaults.repetitions store.spelled copied (seen.map Value.spelled) (ids.map Value.spelled)) := by
  induction ids generalizing seen with
  | nil => exact .ok rfl
  | cons id rest ih =>
    rw [List.map_cons, jobFaults.repetitions, jobFaults.repetitions, Value.isKey_spelled]
    cases id.isKey with
    | false => exact .fail rfl
    | true =>
      refine (ih (id :: seen)).bind fun more copies same => ?_
      rw [List.any_map]
      simp only [Function.comp_def, Value.equals_spelled]
      cases seen.any fun other => Value.equals id other with
      | false => exact .ok same
      | true =>
        exact (store.anyWording_spelled id).bind fun _ _ _ => .ok (congrArg (Category.step :: ·) same)

theorem jobLabel_spelled (job : Job) (jobId : Value) : job.spelled.label jobId.spelled = (job.label jobId).spelled := by
  simp only [Job.label, Value.isNull_spelled, Job.spelled]
  split
  · rfl
  · cases job.fields .name <;> rfl

/-- Both have faults of the same categories in the same order. -/
theorem jobFaults_spelled (job : Job) (jobId : Value) :
    Agrees (fun faults copies => faults.map Failure.bare = copies.map Failure.bare) (store.jobFaults job jobId)
      (store.spelled.jobFaults job.spelled jobId.spelled) := by
  rw [jobFaults, jobFaults, jobLabel_spelled, stepIds_spelled]
  refine (store.anyWording_spelled _).bind fun label copied _ => ?_
  refine (repetitions_spelled label copied [] (store.stepIds job)).bind fun causes copies same => .ok ?_
  have bared (causes : List Cause) :
      (causes.map Failure.ofCause).map Failure.bare = (causes.map Cause.category).map fun category => .mk (.stated category "") [] := by
    simp [Failure.ofCause, Failure.bare, Function.comp_def]
  have uses : (job.spelled.fields .uses).isNull = (job.fields .uses).isNull := Value.isNull_spelled _
  have runner : (job.spelled.fields .runsOn).isEmpty = (job.fields .runsOn).isEmpty := Value.isEmpty_spelled _
  have steps : job.spelled.steps = job.steps := rfl
  simp only [bared, uses, runner, steps, List.map_append, same]
  cases job.steps.isEmpty <;> cases (job.fields .uses).isNull <;> cases (job.fields .runsOn).isEmpty <;> rfl

theorem keyText_spelled (store : Store) (key : Value) (steady : Steady key.named) :
    Agrees Eq (Value.keyText store.wording key) (Value.keyText store.spelled.wording key.spelled) := by
  cases key with
  | choice key => exact .ok rfl
  | _ => exact store.settledWording (steady _ List.mem_cons_self)

/-- The record of the first job beside those of the others. -/
theorem jobRecords_first (store : Store) (plain : Value → Except Failure Tree) (jobId : Value) (job : Nat) (rest : List (Value × Nat)) :
    store.jobRecords plain ((jobId, job) :: rest) =
      match store.jobRecord plain (store.job job) jobId with
      | .ok record => do
        let made ← store.jobRecords plain rest
        return ((.text (← Value.keyText store.wording jobId), record) :: made.1, made.2)
      | .error failure =>
        if failure.category != .validation then .error failure
        else do
          let made ← store.jobRecords plain rest
          return (made.1, failure :: made.2) := by
  rw [jobRecords]
  cases store.jobRecord plain (store.job job) jobId with
  | ok record => cases jobId <;> rfl
  | error failure =>
    cases onCategory : failure.category != .validation with
    | true =>
      simp only [onCategory]
      rfl
    | false => simp [onCategory]

section

variable {plain copied : Value → Except Failure Tree} (each : ∀ value : Value, Steady value.keys → Agrees Eq (plain value) (copied value.spelled))

include each

theorem recordOf_spelled (fields : List (String × Value)) (steady : ∀ field ∈ fields, Steady field.2.keys) :
    Agrees Eq (recordOf plain fields) (recordOf copied (Value.spelledNamed fields)) := by
  rw [recordOf, recordOf, List.filter_map]
  have present : ((fun field : String × Value => !field.2.isNull) ∘ Prod.map id Value.spelled) = fun field => !field.2.isNull := by
    funext field
    exact congrArg (!·) (Value.isNull_spelled field.2)
  rw [present]
  refine Agrees.mapM_eq fun field member => ?_
  refine (each field.2 (steady field (List.mem_of_mem_filter member))).next fun tree => ?_
  exact .ok rfl

theorem settings_spelled {fields : List κ} (key : κ → String) (setting : κ → Value)
    (steady : Steady (fields.flatMap fun field => (setting field).keys)) :
    Agrees Eq (recordOf plain (fields.map fun field => (key field, setting field)))
      (recordOf copied (fields.map fun field => (key field, (setting field).spelled))) := by
  have same : (fields.map fun field => (key field, (setting field).spelled)) =
      Value.spelledNamed (fields.map fun field => (key field, setting field)) := by
    simp
  rw [same]
  refine recordOf_spelled each _ fun field member => ?_
  obtain ⟨place, there, rfl⟩ := List.mem_map.mp member
  exact steady_flatMap.mp steady place there

theorem stepRecord_spelled (step : Step) (steady : Steady step.keys) :
    Agrees Eq (stepRecord plain step) (stepRecord copied step.spelled) := by
  refine (settings_spelled each StepField.key step.fields steady).next fun fields => ?_
  exact .ok rfl

theorem jobRecord_spelled (steps : ∀ identity, Steady (store.step identity).keys) (job : Job) (steady : Steady job.keys) (jobId : Value) :
    Agrees Eq (store.jobRecord plain job jobId) (store.spelled.jobRecord copied job.spelled jobId.spelled) := by
  rw [jobRecord, jobRecord, jobLabel_spelled]
  refine (jobFaults_spelled job jobId).bind fun faults copies same => ?_
  have none : copies.isEmpty = faults.isEmpty := by
    rw [← List.isEmpty_map, ← same, List.isEmpty_map]
  simp only [none]
  cases faults.isEmpty with
  | false =>
    exact (store.anyWording_spelled _).bind fun _ _ _ => .error (by simp [Failure.bare, Cause.category, same])
  | true =>
    have records : Agrees Eq ((store.jobSteps job).mapM (stepRecord plain)) ((store.spelled.jobSteps job.spelled).mapM (stepRecord copied)) := by
      rw [jobSteps_spelled]
      refine Agrees.mapM_eq fun step member => ?_
      obtain ⟨identity, -, rfl⟩ := List.mem_map.mp member
      exact stepRecord_spelled each _ (steps identity)
    refine records.next fun trees => ?_
    refine (settings_spelled each JobField.key job.fields steady).next fun settings => ?_
    exact .ok rfl

theorem jobRecords_spelled (steps : ∀ identity, Steady (store.step identity).keys) (jobsSteady : ∀ identity, Steady (store.job identity).keys)
    (jobs : List (Value × Nat)) (steady : ∀ job ∈ jobs, Steady job.1.named) :
    Agrees (fun made copies => made.1 = copies.1 ∧ made.2.map Failure.bare = copies.2.map Failure.bare)
      (store.jobRecords plain jobs) (store.spelled.jobRecords copied (jobs.map (Prod.map Value.spelled id))) := by
  induction jobs with
  | nil => exact .ok ⟨rfl, rfl⟩
  | cons entry rest ih =>
    obtain ⟨jobId, job⟩ := entry
    obtain ⟨onId, others⟩ := List.forall_mem_cons.mp steady
    have later := ih others
    have record := jobRecord_spelled each steps (store.job job) (jobsSteady job) jobId
    rw [List.map_cons, Prod.map_apply, jobRecords_first, jobRecords_first, id, job_spelled]
    generalize store.jobRecord plain (store.job job) jobId = made at record ⊢
    generalize store.spelled.jobRecord copied (store.job job).spelled jobId.spelled = copy at record ⊢
    cases record with
    | ok same =>
      refine later.bind fun made copies both => ?_
      refine (store.keyText_spelled jobId onId).next fun name => ?_
      exact .ok ⟨by rw [same, both.1], both.2⟩
    | @error failure other alike =>
      have category : other.category = failure.category := by
        rw [← Failure.category_bare, ← alike, Failure.category_bare]
      simp only [category]
      cases failure.category != .validation with
      | true => exact .error alike
      | false => exact later.bind fun made copies both => .ok ⟨both.1, by rw [List.map_cons, List.map_cons, alike, both.2]⟩

end

theorem iterate_steady {value : Value} (steady : Steady value.keys) : Gives (fun items => ∀ item ∈ items, Steady item.keys) value.iterate := by
  have leaves {α : Type} {items : List α} {make : α → Value} (none : ∀ item, (make item).keys = []) :
      Gives (fun items => ∀ item ∈ items, Steady item.keys) (.ok (items.map make)) := by
    refine gives_ok fun value member => ?_
    obtain ⟨item, -, rfl⟩ := List.mem_map.mp member
    simp [none, Steady]
  cases value with
  | text value => exact leaves fun _ => rfl
  | choice value => exact leaves fun _ => rfl
  | bytes values => exact leaves fun _ => rfl
  | list items => exact gives_ok (Value.steady_itemKeys.mp steady)
  | tuple items => exact gives_ok (Value.steady_itemKeys.mp steady)
  | map entries =>
    refine gives_ok fun key member => ?_
    obtain ⟨entry, there, rfl⟩ := List.mem_map.mp member
    exact Value.steady_keys_of_named (Value.steady_entryKeys.mp steady entry there).1
  | _ => exact gives_error _ _

theorem nameOf_spelled (value : Value) : store.spelled.nameOf value.spelled = (store.nameOf value).spelled := by
  cases value with
  | workflow identity => exact congrArg Workflow.name (store.workflow_spelled identity)
  | _ => rfl

/-- Whether other workflows are referred to among the options. -/
def RefersTo (name : String) (options : Value) (entries : List (Value × Value)) (workflows : Value) : Prop :=
  name = "workflow_run" ∧ options = .map entries ∧ Value.lookup? (.text "workflows") entries = some workflows

theorem eventOptions_apart {name : String} {options : Value} (apart : ∀ entries workflows, ¬ RefersTo name options entries workflows) :
    store.eventOptions name options = .ok options :=
  eventOptions_others fun entries workflows run listed found => apart entries workflows ⟨run, listed, found⟩

theorem eventOptions_spelled (name : String) (options : Value) :
    Agrees (Value.spelled · = ·) (store.eventOptions name options) (store.spelled.eventOptions name options.spelled) := by
  have found (entries : List (Value × Value)) :
      Value.lookup? (.text "workflows") (Value.spelledPairs entries) = (Value.lookup? (.text "workflows") entries).map Value.spelled :=
    Value.lookup?_spelled Value.spelled (.text "workflows") entries
  by_cases refers : ∃ entries workflows, RefersTo name options entries workflows
  · obtain ⟨entries, workflows, rfl, rfl, listed⟩ := refers
    have listed' := found entries
    rw [listed] at listed'
    simp only [Value.spelled, Value.spelledEntries_eq]
    rw [eventOptions_workflows listed, eventOptions_workflows listed']
    refine (Value.iterate_spelled workflows).next fun items => ?_
    refine .ok ?_
    have names : (items.map Value.spelled).map store.spelled.nameOf = (items.map store.nameOf).map Value.spelled := by
      simp [nameOf_spelled, Function.comp_def]
    have put := Value.insert_spelled Value.spelled (.text "workflows") (.list (items.map store.nameOf)) entries
    simp only [Value.spelled, Value.spelledItems_eq] at put
    rw [names, put, Value.spelled, Value.spelledEntries_eq]
  · rw [eventOptions_apart fun entries workflows refer => refers ⟨entries, workflows, refer⟩, eventOptions_apart]
    · exact .ok rfl
    · rintro _ workflows ⟨rfl, same, listed⟩
      cases options with
      | map entries =>
        rw [Value.spelled, Value.spelledEntries_eq] at same
        obtain rfl := Value.map.inj same
        rw [found] at listed
        obtain ⟨other, listed, -⟩ := Option.map_eq_some_iff.mp listed
        exact refers ⟨entries, other, rfl, rfl, listed⟩
      | _ => cases same

theorem eventOptions_steady (names : ∀ identity, Steady (store.workflow identity).name.keys) (name : String) {options : Value}
    (steady : Steady options.keys) : Gives (fun options => Steady options.keys) (store.eventOptions name options) := by
  by_cases refers : ∃ entries workflows, RefersTo name options entries workflows
  · obtain ⟨entries, workflows, rfl, rfl, listed⟩ := refers
    rw [eventOptions_workflows listed]
    have pairs := Value.steady_entryKeys.mp steady
    have onWorkflows : Steady workflows.keys := by
      obtain ⟨entry, there, rfl⟩ := Option.map_eq_some_iff.mp listed
      exact (pairs entry (List.mem_of_find?_eq_some there)).2
    refine (iterate_steady onWorkflows).bind fun items each => gives_ok ?_
    refine Value.steady_entryKeys.mpr (Value.forall_mem_insert (fun key => Steady key.named) (fun value : Value => Steady value.keys) ?_ ?_ pairs)
    · simp [Value.named, Steady, Value.settled]
    · refine Value.steady_itemKeys.mpr fun other member => ?_
      obtain ⟨item, there, rfl⟩ := List.mem_map.mp member
      cases item with
      | workflow identity => exact names identity
      | _ => exact each _ there
  · rw [eventOptions_apart fun entries workflows refer => refers ⟨entries, workflows, refer⟩]
    exact gives_ok steady

section

variable {plain copied : Value → Except Failure Tree} (each : ∀ value : Value, Steady value.keys → Agrees Eq (plain value) (copied value.spelled))

include each

theorem eventRecords_spelled (names : ∀ identity, Steady (store.workflow identity).name.keys) {events : List (String × Value)}
    (onEvents : ∀ event ∈ events, Steady event.2.keys) :
    Agrees Eq (events.mapM fun (name, options) => do return (name, ← plain (← store.eventOptions name options)))
      ((Value.spelledNamed events).mapM fun (name, options) => do return (name, ← copied (← store.spelled.eventOptions name options))) := by
  refine Agrees.mapM_eq fun event member => ?_
  have onOptions := eventOptions_steady names event.1 (onEvents event member)
  refine ((eventOptions_spelled event.1 event.2).gives onOptions).bind ?_
  rintro options _ ⟨steady, rfl⟩
  refine (each options steady).next fun tree => ?_
  exact .ok rfl

theorem workflowSections_spelled (steady : Steady store.keys) (identity : Nat) :
    Agrees Eq (store.workflowSections plain (store.workflow identity))
      (store.spelled.workflowSections copied (store.workflow identity).spelled) := by
  obtain ⟨onRest, onJobs⟩ := steady_append.mp (steady_workflow steady identity)
  obtain ⟨onRest, onFields⟩ := steady_append.mp onRest
  obtain ⟨-, onEvents⟩ := steady_append.mp onRest
  refine (jobRecords_spelled each (steady_step steady) (steady_job steady) _ (steady_flatMap.mp onJobs)).bind ?_
  rintro ⟨records, failures⟩ ⟨_, copies⟩ ⟨rfl, same⟩
  have none : copies.isEmpty = failures.isEmpty := by
    rw [← List.isEmpty_map, ← same, List.isEmpty_map]
  simp only [none]
  cases failures.isEmpty with
  | false => exact (store.anyWording_spelled _).bind fun _ _ _ => .error (Failure.bare_collect rfl same)
  | true =>
    have names := fun identity => (steady_append.mp (steady_append.mp (steady_append.mp (steady_workflow steady identity)).1).1).1
    refine (eventRecords_spelled each names (steady_flatMap.mp onEvents)).next fun events => ?_
    refine (settings_spelled each WorkflowField.key (store.workflow identity).fields onFields).next fun settings => ?_
    exact .ok rfl

end

theorem targetWithin_spelled (steady : Steady store.keys) (hops : Nat) (target : Target) :
    Agrees Eq (store.targetWithin hops target) (store.spelled.targetWithin hops target) := by
  induction hops generalizing target with
  | zero => exact .fail rfl
  | succ hops ih =>
    have plain := fun value => Value.plainWith_spelled ⟨fun _ => rfl, fun _ => store.settledWording, ih⟩ value
    cases target with
    | expression identity =>
      rw [targetWithin, targetWithin, expressionText_spelled]
      exact .refl _
    | step identity =>
      rw [targetWithin, targetWithin, step_spelled]
      exact stepRecord_spelled plain _ (steady_step steady identity)
    | job identity =>
      rw [targetWithin, targetWithin, job_spelled]
      exact jobRecord_spelled plain (steady_step steady) _ (steady_job steady identity) .null
    | workflow identity =>
      rw [targetWithin, targetWithin, workflow_spelled]
      refine (workflowSections_spelled plain steady identity).next fun sections => ?_
      refine (plain _ (steady_append.mp (steady_append.mp (steady_append.mp (steady_workflow steady identity)).1).1).1).next fun name => ?_
      exact .ok rfl

theorem plain_spelled (steady : Steady store.keys) (value : Value) (onValue : Steady value.keys) :
    Agrees Eq (store.plain value) (store.spelled.plain value.spelled) := by
  rw [plain, plain, size_spelled]
  exact Value.plainWith_spelled ⟨fun _ => rfl, fun _ => store.settledWording, targetWithin_spelled steady _⟩ value onValue

theorem renderStep_spelled (steady : Steady store.keys) (identity : Nat) :
    Agrees Eq (store.renderStep identity) (store.spelled.renderStep identity) := by
  rw [renderStep, renderStep, step_spelled]
  exact stepRecord_spelled (plain_spelled steady) _ (steady_step steady identity)

theorem renderJob_spelled (steady : Steady store.keys) (identity : Nat) (jobId : Value) :
    Agrees Eq (store.renderJob identity jobId) (store.spelled.renderJob identity jobId.spelled) := by
  rw [renderJob, renderJob, job_spelled]
  exact jobRecord_spelled (plain_spelled steady) (steady_step steady) _ (steady_job steady identity) jobId

/-- The name is the same but for its members, and the sections are the same. -/
theorem renderWorkflow_spelled (steady : Steady store.keys) (identity : Nat) :
    Agrees (fun record copy => record.name.spelled = copy.name ∧ record.sections = copy.sections) (store.renderWorkflow identity)
      (store.spelled.renderWorkflow identity) := by
  rw [renderWorkflow, renderWorkflow, workflow_spelled]
  refine (workflowSections_spelled (plain_spelled steady) steady identity).next fun sections => ?_
  exact .ok ⟨rfl, rfl⟩

end Store

end WorkflowCompiler
