import WorkflowCompiler.Proofs.WorkflowFaults

/-! Aggregates in aggregates. Collecting takes one layer of aggregates away, so that it gets down to the failures
themselves just if no aggregate sums up another one. Rendering never makes such: each aggregate in it is collected
from aggregates that sum up single failures. -/

namespace WorkflowCompiler

namespace Failure

mutual

/-- The failures that are no aggregates, from left to right. -/
def leaves : Failure → List Failure
  | .mk cause children => if cause.category = .validation then leavesOf children else [.mk cause children]

def leavesOf : List Failure → List Failure
  | [] => []
  | failure :: rest => leaves failure ++ leavesOf rest

end

/-- An aggregate that sums up no other one, or a single failure. -/
def Shallow (failure : Failure) : Prop :=
  failure.category = .validation → ∀ child ∈ failure.children, child.category ≠ .validation

variable {failure : Failure} {failures : List Failure} {cause : Cause}

theorem leaves_single (single : failure.category ≠ .validation) : failure.leaves = [failure] := by
  cases failure with
  | mk cause children =>
    rw [leaves]
    exact if_neg single

theorem leaves_aggregate (summed : failure.category = .validation) : failure.leaves = leavesOf failure.children := by
  cases failure with
  | mk cause children =>
    rw [leaves]
    exact if_pos summed

theorem leavesOf_append (failures more : List Failure) : leavesOf (failures ++ more) = leavesOf failures ++ leavesOf more := by
  induction failures with
  | nil => rfl
  | cons failure rest ih => rw [List.cons_append, leavesOf, leavesOf, ih, List.append_assoc]

theorem leavesOf_singles (singles : ∀ failure ∈ failures, failure.category ≠ .validation) : leavesOf failures = failures := by
  induction failures with
  | nil => rfl
  | cons failure rest ih =>
    obtain ⟨single, others⟩ := List.forall_mem_cons.mp singles
    rw [leavesOf, leaves_single single, ih others, List.singleton_append]

mutual

theorem single_of_mem_leaves : ∀ failure : Failure, ∀ leaf ∈ failure.leaves, leaf.category ≠ .validation
  | .mk cause children => by
    intro leaf member
    rw [leaves] at member
    split at member
    · exact single_of_mem_leavesOf children leaf member
    · next single =>
      cases List.mem_singleton.mp member
      exact single

theorem single_of_mem_leavesOf : ∀ failures : List Failure, ∀ leaf ∈ leavesOf failures, leaf.category ≠ .validation
  | [], _, member => nomatch member
  | failure :: rest, leaf, member =>
    (List.mem_append.mp member).elim (single_of_mem_leaves failure leaf) (single_of_mem_leavesOf rest leaf)

end

theorem flatten_aggregate (summed : failure.category = .validation) :
    flatten (failure :: failures) = failure.children ++ flatten failures := by
  cases failure with
  | mk cause children => exact Store.flatten_cons_aggregate summed

/-- A layer less, and the same leaves in the same order. -/
theorem leavesOf_flatten (failures : List Failure) : leavesOf (flatten failures) = leavesOf failures := by
  induction failures with
  | nil => rfl
  | cons failure rest ih =>
    by_cases summed : failure.category = .validation
    · rw [flatten_aggregate summed, leavesOf_append, ih, leavesOf, leaves_aggregate summed]
    · rw [Store.flatten_cons_single summed, leavesOf, ih, leavesOf]

theorem singles_flatten_iff : (∀ failure ∈ flatten failures, failure.category ≠ .validation) ↔ ∀ failure ∈ failures, failure.Shallow := by
  induction failures with
  | nil => simp [flatten]
  | cons failure rest ih =>
    rw [List.forall_mem_cons, ← ih]
    by_cases summed : failure.category = .validation
    · rw [flatten_aggregate summed, List.forall_mem_append]
      exact and_congr_left fun _ => ⟨fun singles _ => singles, fun shallow => shallow summed⟩
    · rw [Store.flatten_cons_single summed, List.forall_mem_cons]
      exact and_congr_left fun _ => ⟨fun _ aggregate => absurd aggregate summed, fun _ => summed⟩

/-- What is collected sums up the leaves just if no aggregate is among it, which is so just if each aggregate
it is collected from sums up single failures. -/
theorem flatten_eq_leavesOf_iff : flatten failures = leavesOf failures ↔ ∀ failure ∈ failures, failure.Shallow := by
  rw [← singles_flatten_iff]
  constructor
  · intro same
    rw [same]
    exact single_of_mem_leavesOf failures
  · intro singles
    rw [← leavesOf_singles singles, leavesOf_flatten]

theorem shallow_collect (shallow : ∀ failure ∈ failures, failure.Shallow) : (collect cause failures).Shallow :=
  fun _ => singles_flatten_iff.mpr shallow

theorem shallow_single (single : failure.category ≠ .validation) : failure.Shallow := fun summed => absurd summed single

/-- A failure that is collected from others, these perhaps from others again, or summed up from single ones. -/
inductive Collected : Failure → Prop
  | single {failure : Failure} (single : failure.category ≠ .validation) : Collected failure
  | sum {failure : Failure} (singles : ∀ child ∈ failure.children, child.category ≠ .validation) : Collected failure
  | collect (cause : Cause) {failures : List Failure} (each : ∀ failure ∈ failures, Collected failure) :
      Collected (collect cause failures)

theorem Collected.shallow (collected : Collected failure) : failure.Shallow := by
  induction collected with
  | single single => exact shallow_single single
  | sum singles => exact fun _ => singles
  | collect cause _ ih => exact shallow_collect ih

/-- Collecting loses no leaf, repeats none and moves none. It sums up the leaves themselves, no aggregate being left,
just if no aggregate that is given sums up another aggregate; so it is with all that was collected before. -/
theorem collect_sums_leaves (cause : Cause) (failures : List Failure) :
    leavesOf (collect cause failures).children = leavesOf failures ∧
      ((collect cause failures).children = leavesOf failures ↔
        ∀ failure ∈ failures, failure.category = .validation → ∀ child ∈ failure.children, child.category ≠ .validation) ∧
      ((collect cause failures).children = leavesOf failures ↔
        ∀ child ∈ (collect cause failures).children, child.category ≠ .validation) ∧
      ((∀ failure ∈ failures, Collected failure) → (collect cause failures).children = leavesOf failures) :=
  ⟨leavesOf_flatten failures, flatten_eq_leavesOf_iff, flatten_eq_leavesOf_iff.trans singles_flatten_iff.symm,
    fun each => flatten_eq_leavesOf_iff.mpr fun failure member => (each failure member).shallow⟩

/-- An aggregate of an aggregate of a failure. -/
def nested : Failure := .mk (.stated .validation "outer") [.mk (.stated .validation "inner") [.ofCause (.stated .job "broken")]]

/-- The inner aggregate is left over. -/
theorem nested_not_collected :
    (collect (.stated .validation "all") [nested]).children = [.mk (.stated .validation "inner") [.ofCause (.stated .job "broken")]] ∧
      leavesOf [nested] = [.ofCause (.stated .job "broken")] ∧
      (collect (.stated .validation "all") [nested]).children ≠ leavesOf [nested] := by
  refine ⟨rfl, rfl, fun same => ?_⟩
  have shallow := flatten_eq_leavesOf_iff.mp same nested List.mem_cons_self rfl
  exact shallow _ List.mem_cons_self rfl

end Failure

/-- If it fails, it does so with a single failure or an aggregate of single ones. -/
def FailsShallow (result : Except Failure α) : Prop := ∀ failure, result = .error failure → failure.Shallow

theorem shallow_ok (value : α) : FailsShallow (.ok value : Except Failure α) := by
  intro failure failed
  cases failed

theorem Quiet.shallow {result : Except Failure α} (quiet : Quiet result) : FailsShallow result :=
  fun failure failed => Failure.shallow_single (quiet failure failed)

theorem shallow_cause {cause : Cause} : FailsShallow (.error (.ofCause cause) : Except Failure α) := by
  intro failure failed
  cases failed
  exact fun _ child member => nomatch member

theorem FailsShallow.bind {first : Except Failure α} {next : α → Except Failure β} (shallow : FailsShallow first)
    (later : ∀ value, first = .ok value → FailsShallow (next value)) : FailsShallow (first >>= next) := by
  cases first with
  | error failure => exact fun other failed => shallow other (by cases failed; rfl)
  | ok value => exact later value rfl

theorem shallow_mapM {items : List α} {make : α → Except Failure β} (each : ∀ item ∈ items, FailsShallow (make item)) :
    FailsShallow (items.mapM make) := by
  induction items with
  | nil => exact shallow_ok []
  | cons item items ih =>
    obtain ⟨first, others⟩ := List.forall_mem_cons.mp each
    rw [List.mapM_cons]
    exact first.bind fun _ _ => (ih others).bind fun _ _ => shallow_ok _

namespace Value

variable {wording : Value → Except Failure String} {visit : Target → Except Failure Tree}

mutual

theorem shallow_plainWith (worded : ∀ value, Quiet (wording value)) (visited : ∀ target, FailsShallow (visit target)) :
    ∀ value, FailsShallow (plainWith wording visit value)
  | .null => shallow_ok _
  | .bool _ => shallow_ok _
  | .int _ => shallow_ok _
  | .float _ => shallow_ok _
  | .text _ => shallow_ok _
  | .choice _ => shallow_ok _
  | .bytes _ => shallow_cause
  | .file _ => shallow_ok _
  | .list items => (shallow_plainItems worded visited items).bind fun _ _ => shallow_ok _
  | .tuple items => (shallow_plainItems worded visited items).bind fun _ _ => shallow_ok _
  | .map entries => (shallow_plainEntries worded visited entries []).bind fun _ _ => shallow_ok _
  | .path _ => shallow_ok _
  | .pathLike identity segments => by
    rw [plainWith]
    cases (pathLike identity segments).segments? with
    | none => exact shallow_cause
    | some labels => exact shallow_ok _
  | .foreign _ _ => shallow_cause
  | .expression _ => visited _
  | .step _ => visited _
  | .job _ => visited _
  | .workflow _ => visited _
  | .command line _ _ => by
    rw [plainWith]
    cases line.chars? with
    | none => exact shallow_cause
    | some written => exact shallow_ok _
  | .event _ _ => shallow_cause
  | .input _ _ => shallow_cause
  | .function _ => shallow_cause
  | .failure _ _ => shallow_cause

theorem shallow_plainItems (worded : ∀ value, Quiet (wording value)) (visited : ∀ target, FailsShallow (visit target)) :
    ∀ items : List Value, FailsShallow (plainItems wording visit items)
  | [] => shallow_ok _
  | value :: rest =>
    (shallow_plainWith worded visited value).bind fun _ _ => (shallow_plainItems worded visited rest).bind fun _ _ => shallow_ok _

theorem shallow_plainEntries (worded : ∀ value, Quiet (wording value)) (visited : ∀ target, FailsShallow (visit target)) :
    ∀ (entries : List (Value × Value)) (found : List (Tree × Tree)), FailsShallow (plainEntries wording visit found entries)
  | [], _ => shallow_ok _
  | entry :: rest, found =>
    (shallow_plainEntry worded visited entry found).bind fun _ _ => shallow_plainEntries worded visited rest _

theorem shallow_plainEntry (worded : ∀ value, Quiet (wording value)) (visited : ∀ target, FailsShallow (visit target)) :
    ∀ (entry : Value × Value) (found : List (Tree × Tree)), FailsShallow (plainEntry wording visit found entry)
  | (key, value), found => by
    have later : ∀ name : String, FailsShallow (do
        return Tree.putText name (← plainWith wording visit value) found : Except Failure (List (Tree × Tree))) :=
      fun _ => (shallow_plainWith worded visited value).bind fun _ _ => shallow_ok _
    cases key with
    | choice key => exact (shallow_ok key.text).bind fun name _ => later name
    | _ => exact (worded _).shallow.bind fun name _ => later name

end

end Value

namespace Store

variable {store : Store} {plain : Value → Except Failure Tree}

theorem quiet_repetitions {label : String} (seen ids : List Value) : Quiet (jobFaults.repetitions store label seen ids) := by
  induction ids generalizing seen with
  | nil => exact quiet_ok _
  | cons id rest ih =>
    rw [jobFaults.repetitions]
    split
    · exact quiet_cause (by simp [Cause.category])
    · refine (ih (id :: seen)).bind fun more => ?_
      split
      · exact (quiet_wording id).bind fun _ => quiet_ok _
      · exact quiet_ok _

theorem quiet_jobFaults (job : Job) (jobId : Value) : Quiet (store.jobFaults job jobId) :=
  (quiet_wording _).bind fun _ => (quiet_repetitions _ _).bind fun _ => quiet_ok _

theorem quiet_eventOptions (name : String) (options : Value) : Quiet (store.eventOptions name options) := by
  unfold eventOptions
  split
  · split
    · exact quiet_ok _
    · next entries workflows found =>
      refine Quiet.bind ?_ fun _ => quiet_ok _
      cases workflows with
      | _ => first | exact quiet_ok _ | exact quiet_cause (by simp [Cause.category])
  · exact quiet_ok _

section

variable (plains : ∀ value, FailsShallow (plain value))
include plains

theorem shallow_recordOf (fields : List (String × Value)) : FailsShallow (recordOf plain fields) :=
  shallow_mapM fun field _ => (plains field.2).bind fun _ _ => shallow_ok _

theorem shallow_stepRecord (step : Step) : FailsShallow (stepRecord plain step) :=
  (shallow_recordOf plains _).bind fun _ _ => shallow_ok _

/-- The faults of a job are summed up once. -/
theorem shallow_jobRecord (job : Job) (jobId : Value) : FailsShallow (store.jobRecord plain job jobId) := by
  rw [jobRecord]
  refine (quiet_jobFaults job jobId).shallow.bind fun faults checked => ?_
  have rest : FailsShallow (do
      let steps ← (store.jobSteps job).mapM (stepRecord plain)
      let settings ← recordOf plain (JobField.all.map fun field => (field.key, job.fields field))
      return Tree.record (settings ++ if steps.isEmpty then [] else [("steps", .list steps)])) :=
    (shallow_mapM fun step _ => shallow_stepRecord plains step).bind fun _ _ =>
      (shallow_recordOf plains _).bind fun _ _ => shallow_ok _
  cases faults with
  | nil => exact rest
  | cons fault more =>
    refine (quiet_wording _).shallow.bind fun label _ => ?_
    intro failure failed summed child member
    cases failed
    rcases (mem_jobFaults checked child member).1 with kind | kind
    · rw [kind]
      decide
    · rw [kind]
      decide

/-- What the jobs fail with is kept only if it is an aggregate of single failures. -/
theorem shallow_jobRecords (jobs : List (Value × Nat)) :
    FailsShallow (store.jobRecords plain jobs) ∧
      Gives (fun reported => ∀ failure ∈ reported.2, failure.Shallow) (store.jobRecords plain jobs) := by
  induction jobs with
  | nil => exact ⟨shallow_ok _, gives_ok (by simp)⟩
  | cons entry rest ih =>
    obtain ⟨jobId, identity⟩ := entry
    obtain ⟨fails, gives⟩ := ih
    rw [jobRecords]
    have own : FailsShallow (store.jobRecord plain (store.job identity) jobId) := shallow_jobRecord plains _ _
    generalize store.jobRecord plain (store.job identity) jobId = made at own
    rcases made with failure | record
    · have shallow : failure.Shallow := own failure rfl
      simp only
      split
      · exact ⟨fun _ failed => by cases failed; exact shallow, gives_error _ _⟩
      · refine ⟨fails.bind fun _ _ => shallow_ok _, gives.bind fun reported each => gives_ok ?_⟩
        exact List.forall_mem_cons.mpr ⟨shallow, each⟩
    · refine ⟨fails.bind fun reported _ => ?_, gives.bind fun reported each => ?_⟩
      · cases jobId with
        | choice jobId => exact shallow_ok _
        | _ => exact (quiet_wording _).shallow.bind fun _ _ => shallow_ok _
      · cases jobId with
        | choice jobId => exact gives_ok each
        | _ => exact gives_bind fun _ => gives_ok each

theorem shallow_workflowSections (workflow : Workflow) : FailsShallow (store.workflowSections plain workflow) := by
  obtain ⟨fails, gives⟩ : FailsShallow (store.jobRecords plain workflow.jobs) ∧ _ := shallow_jobRecords plains workflow.jobs
  rw [workflowSections]
  refine fails.bind fun reported made => ?_
  have each := gives reported made
  obtain ⟨records, failures⟩ := reported
  have rest : FailsShallow (do
      let events ← workflow.events.mapM fun event => do
        return (event.1, ← plain (← store.eventOptions event.1 event.2))
      let settings ← recordOf plain (WorkflowField.all.map fun field => (field.key, workflow.fields field))
      return (if events.isEmpty then [] else [("on", Tree.record events)]) ++ settings
        ++ (if records.isEmpty then [] else [("jobs", .map (mergeKeys records))])) := by
    refine (shallow_mapM fun event _ => ?_).bind fun _ _ => (shallow_recordOf plains _).bind fun _ _ => shallow_ok _
    exact (quiet_eventOptions _ _).shallow.bind fun options _ => (plains options).bind fun _ _ => shallow_ok _
  cases failures with
  | nil => exact rest
  | cons failure more =>
    refine (quiet_wording _).shallow.bind fun name _ => ?_
    intro collected failed
    cases failed
    exact Failure.shallow_collect each

end

theorem shallow_targetWithin (hops : Nat) (target : Target) : FailsShallow (store.targetWithin hops target) := by
  induction hops generalizing target with
  | zero => exact shallow_cause
  | succ hops ih =>
    have plains : ∀ value, FailsShallow (Value.plainWith store.wording (store.targetWithin hops) value) :=
      Value.shallow_plainWith quiet_wording ih
    cases target with
    | expression identity => exact (quiet_expressionTextWithin _ _).shallow.bind fun _ _ => shallow_ok _
    | step identity => exact shallow_stepRecord plains _
    | job identity => exact shallow_jobRecord plains _ _
    | workflow identity =>
      refine (shallow_workflowSections plains _).bind fun _ _ => ?_
      exact (plains _).bind fun _ _ => shallow_ok _

theorem shallow_plain (value : Value) : FailsShallow (store.plain value) :=
  Value.shallow_plainWith quiet_wording (shallow_targetWithin _) value

theorem shallow_renderWorkflow (identity : Nat) : FailsShallow (store.renderWorkflow identity) :=
  (shallow_workflowSections shallow_plain _).bind fun _ _ => shallow_ok _

end Store

namespace Publish

variable {store : Store}

/-- A file name that is taken is a fault of its own; invalid workflows fail with aggregates of single failures. -/
theorem shallow_collectRecords (owners : Owners) (workflows : List Value) :
    FailsShallow (collectRecords store owners workflows) ∧
      Gives (fun collected => ∀ failure ∈ collected.2, failure.Shallow) (collectRecords store owners workflows) := by
  induction workflows generalizing owners with
  | nil => exact ⟨shallow_ok _, gives_ok (by simp)⟩
  | cons value rest ih =>
    cases value with
    | workflow identity =>
      rw [collectRecords]
      split
      · exact ⟨shallow_cause, gives_error _ _⟩
      · split
        · obtain ⟨fails, gives⟩ := ih owners
          constructor
          · refine (Store.quiet_wording _).shallow.bind fun owner _ => ?_
            refine (Store.quiet_wording _).shallow.bind fun name _ => ?_
            refine (Store.quiet_wording _).shallow.bind fun fileName _ => ?_
            exact fails.bind fun _ _ => shallow_ok _
          · refine gives_bind fun owner => gives_bind fun name => gives_bind fun fileName => ?_
            refine gives.bind fun collected each => gives_ok ?_
            exact List.forall_mem_cons.mpr ⟨Failure.shallow_single (by simp [Failure.category, Failure.cause, Failure.ofCause, Cause.category]), each⟩
        · obtain ⟨fails, gives⟩ := ih (owners ++ [((store.workflow identity).fileName, (store.workflow identity).name)])
          have own : FailsShallow (store.renderWorkflow identity) := Store.shallow_renderWorkflow identity
          generalize store.renderWorkflow identity = made at own
          rcases made with failure | record
          · have shallow : failure.Shallow := own failure rfl
            simp only
            split
            · exact ⟨fun _ failed => by cases failed; exact shallow, gives_error _ _⟩
            · refine ⟨fails.bind fun _ _ => shallow_ok _, gives.bind fun collected each => gives_ok ?_⟩
              exact List.forall_mem_cons.mpr ⟨shallow, each⟩
          · exact ⟨fails.bind fun _ _ => shallow_ok _, gives.bind fun collected each => gives_ok each⟩
    | _ => exact ⟨shallow_cause, gives_error _ _⟩

/-- What rendering workflows reports are single failures, however deep in the workflows they come from. -/
theorem records_report_single {workflows : List Value} {failure : Failure} (failed : records store workflows = .error failure) :
    failure.Shallow := by
  obtain ⟨fails, gives⟩ : FailsShallow (collectRecords store [] workflows) ∧ _ := shallow_collectRecords [] workflows
  refine FailsShallow.bind fails (fun collected made => ?_) failure failed
  have each := gives collected made
  obtain ⟨records, faults⟩ := collected
  cases faults with
  | nil => exact shallow_ok _
  | cons fault more =>
    intro collected failed
    cases failed
    exact Failure.shallow_collect each

end Publish

end WorkflowCompiler
