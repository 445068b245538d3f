import WorkflowCompiler.Proofs.SoundCalls

/-! What a call that fails leaves behind. A method changes its object only once nothing can fail any
more: afterwards the object is as it was. Methods that take up several items one by one stop at the
item that is refused, and the strategy and the services of a job are stored before their names are
told. -/

namespace WorkflowCompiler

namespace Store

/-- What an object knows beside what it renders to is the same. -/
def SameBooks (before after : Store) : Target → Prop
  | .expression identity => (after.expression identity).contents = (before.expression identity).contents
  | .step identity =>
    (after.step identity).outputs = (before.step identity).outputs ∧ (after.step identity).exported = (before.step identity).exported
  | .job identity =>
    (after.job identity).axes = (before.job identity).axes ∧
    (after.job identity).neededJobs = (before.job identity).neededJobs ∧
    (after.job identity).services = (before.job identity).services ∧
    after.stepIds (after.job identity) = before.stepIds (before.job identity) ∧
    after.stepOutputs (after.job identity) = before.stepOutputs (before.job identity)
  | .workflow identity => (after.workflow identity).jobs.map Prod.fst = (before.workflow identity).jobs.map Prod.fst

/-- An object is the same, knows the same and renders to the same. -/
structure Unchanged (before after : Store) (target : Target) : Prop where
  same : Same before after target
  books : SameBooks before after target
  form : SameForm before after target

theorem unchanged_of_keeps {before after : Store} (closed : Closed before) (keeps : Keeps [] before after) {target : Target}
    (has : before.Has target) : Unchanged before after target where
  same := keeps.same target has List.not_mem_nil
  books := by
    have same := keeps.same target has List.not_mem_nil
    cases target with
    | job identity =>
      have same : after.job identity = before.job identity := same
      have steps : after.jobSteps (before.job identity) = before.jobSteps (before.job identity) :=
        List.map_congr_left fun step member => keeps.same _ ((closed _ has).2 step member) List.not_mem_nil
      simp only [SameBooks, same, stepIds, stepOutputs, steps, and_self]
    | _ => simp only [SameBooks, show _ = _ from same, and_self]
  form := sameForm_of_keeps closed keeps target has

end Store

namespace Build

open Store
open Value (AllWithin)

/-- Appends what one value is as a fragment. -/
def addFragment (identity : Nat) (value : Value) : Build Unit := do
  if let some fragment ← ofExcept (fragment? value) then
    modifyExpression identity fun expression =>
      { expression with contents := expression.contents ++ [fragment] }

theorem addFragments_eq (identity : Nat) (values : List Value) : addFragments identity values = forM values (addFragment identity) := by
  induction values with
  | nil => rfl
  | cons value rest ih =>
    rw [addFragments, ih, List.forM_cons, addFragment, bind_assoc]
    congr 1
    funext fragment
    cases fragment <;> rfl

variable {call : Call} {workspace after : Workspace} {failure : Failure}

theorem addFragment_failed {identity : Nat} {value : Value}
    (failed : (addFragment identity value).run workspace = (.error failure, after)) : after = workspace := by
  rw [addFragment, run_bind, run_ofExcept_eq] at failed
  rcases piece : fragment? value with refused | _ | fragment <;> rw [piece] at failed <;> cases failed
  rfl

theorem addStep_failed (tame : Tame call) {job : Nat} {value : Value}
    (failed : (addStep call job value).run workspace = (.error failure, after)) : Keeps [] workspace.store after.store := by
  rw [addStep_eq] at failed
  rcases run_bind_cases failed with ⟨_, refused, -⟩ | ⟨_, _, _, stored⟩
  · exact (maintains_itemStep tame job value).run refused
  · cases stored

theorem addJob_failed (tame : Tame call) {workflow : Nat} {jobId value : Value}
    (failed : (addJob call workflow jobId value).run workspace = (.error failure, after)) : Keeps [] workspace.store after.store := by
  rcases addJob_outcome tame failed with ⟨-, keeps⟩ | ⟨_, _, _, _, same, _⟩
  · exact keeps
  · cases same

/-- The arguments of a method that takes up items one by one, its arguments with only the items before
one of them, and those with only that one. -/
inductive Cut : String → List Value → List Value → List Value → Prop
  | add {earlier item later} : Cut "add" (earlier ++ item :: later) earlier [item]
  | steps {values earlier item later} (listed : values.iterate = .ok (earlier ++ item :: later)) :
      Cut "steps" [values] [.list earlier] [.list [item]]
  | jobs {values earlier entry later} (listed : values.itemEntries = .ok (earlier ++ entry :: later)) :
      Cut "jobs" [values] [.map earlier] [.map [entry]]

theorem Cut.within {inside : Target → Prop} {method : String} {arguments earlier single : List Value}
    (cut : Cut method arguments earlier single) (within : AllWithin inside arguments) : AllWithin inside earlier := by
  cases cut with
  | add => exact (Value.allWithin_append.mp within).1
  | steps listed =>
    have items := Value.gives_iterate (within _ List.mem_cons_self) _ listed
    exact Value.allWithin_cons.mpr ⟨Value.within_list.mpr (Value.allWithin_append.mp items).1, Value.allWithin_nil⟩
  | jobs listed =>
    have entries := Value.gives_itemEntries (within _ List.mem_cons_self) _ listed
    exact Value.allWithin_cons.mpr ⟨Value.within_map.mpr (Value.entriesWithin_append.mp entries).1, Value.allWithin_nil⟩

/-- The names that a job notes of a setting that it has stored cannot be told, or the line about them
cannot be written. -/
inductive Untold (job : Nat) (stored : Workspace) : JobField → Value → Failure → Workspace → Prop
  | axes {value failure} (untold : matrixAxes stored.store.wording value = .error failure) :
      Untold job stored .strategy value failure stored
  | line {value failure axes after} (told : matrixAxes stored.store.wording value = .ok axes)
      (noted : after = stored.withJob job fun job => { job with axes })
      (unwritten : (axesLine job axes).run after = (.error failure, after)) : Untold job stored .strategy value failure after
  | services {entries failure} (untold : (entries.mapM fun entry => stored.store.wording entry.1) = .error failure) :
      Untold job stored .services (.map entries) failure stored

theorem debugLine_failed {line : Build String} (failed : (debugLine line).run workspace = (.error failure, after)) :
    line.run workspace = (.error failure, after) := by
  rcases run_bind_cases failed with ⟨_, refused, same⟩ | ⟨text, between, _, rest⟩
  · cases same
    exact refused
  · rcases run_bind_cases rest with ⟨_, refused, -⟩ | ⟨_, _, _, rest⟩
    · cases refused
    · split at rest <;> cases rest

theorem untold_of_noted {job : Nat} {field : JobField} {value : Value}
    (noted : NameOutcome job workspace field value (.error failure) after) : Untold job workspace field value failure after := by
  cases noted with
  | servicesUntold untold => exact .services untold
  | axesUntold untold => exact .axes untold
  | @axes _ axes _ _ told _ written =>
    have unwritten := debugLine_failed written
    obtain rfl := (reads_axesLine job axes).run unwritten
    exact .line told rfl unwritten

theorem Untold.field {job : Nat} {stored : Workspace} {field : JobField} {value : Value}
    (untold : Untold job stored field value failure after) : field = .strategy ∨ field = .services := by
  cases untold with
  | services => exact .inr rfl
  | _ => exact .inl rfl

/-- What a failing call of a method leaves behind. -/
inductive FailedCall (call : Call) (object : Value) (target : Target) (before : Workspace) :
    String → List Value → Failure → Workspace → Prop
  /-- Nothing has happened to the object. -/
  | unchanged {method arguments failure after} (unchanged : Unchanged before.store after.store target) :
      FailedCall call object target before method arguments failure after
  /-- The items before the one that is refused have been taken up, as by a call with only these. -/
  | cut {method arguments earlier single failure between after} (cut : Cut method arguments earlier single)
      (taken : (callMethod call object method earlier).run before = (.ok object, between))
      (refused : (callMethod call object method single).run between = (.error failure, after))
      (unchanged : Unchanged between.store after.store target) :
      FailedCall call object target before method arguments failure after
  /-- The setting has been stored, and the names that go with it cannot be told. -/
  | untold {job field argument value failure between after} (named : target = .job job)
      (resolved : (resolve call (jobKnown job) argument).run before = (.ok value, between))
      (keeps : Keeps [] before.store between.store)
      (untold : Untold job (between.withJob job (·.set field value)) field value failure after) :
      FailedCall call object target before field.setter [argument] failure after

section

variable {object : Value} {method : String} {arguments : List Value}

theorem failedCall_of_keeps (sound : workspace.Sound) {target : Target} (has : workspace.store.Has target)
    (keeps : Keeps [] workspace.store after.store) : FailedCall call object target workspace method arguments failure after :=
  .unchanged (unchanged_of_keeps sound.objects keeps has)

theorem callMethod_add (identity : Nat) (values : List Value) :
    callMethod call (.expression identity) "add" values = (do
      forM values (addFragment identity)
      return .expression identity) := by
  rw [← addFragments_eq]
  rfl

theorem callMethod_steps (job : Nat) {values : Value} {items : List Value} (listed : values.iterate = .ok items) :
    callMethod call (.job job) "steps" [values] = (do
      forM items (addStep call job)
      return .job job) := by
  rw [← addSteps_eq]
  show (ofExcept values.iterate >>= fun items => addSteps call job items >>= _) = _
  rw [listed]
  rfl

theorem callMethod_jobs (workflow : Nat) {values : Value} {entries : List (Value × Value)} (listed : values.itemEntries = .ok entries) :
    callMethod call (.workflow workflow) "jobs" [values] = (do
      forM entries fun entry => addJob call workflow entry.1 entry.2
      return .workflow workflow) := by
  rw [← addJobs_eq]
  show (ofExcept values.itemEntries >>= fun entries => addJobs call workflow entries >>= _) = _
  rw [listed]
  rfl

theorem run_forM_singleton {each : α → Build Unit} {item : α} : forM [item] each = each item := by
  simp

/-- A method that takes up items one by one is left where the item that fails has done nothing. -/
theorem failedCall_of_cut (tame : Tame call) (safe : Safe call) (sound : workspace.Sound) {target : Target}
    (named : object.target? = some target) (has : workspace.store.Has target) {each : α → Build Unit} {earlier : List α} {item : α}
    {between : Workspace} {before single : List Value} (cut : Cut method arguments before single)
    (within : AllWithin workspace.store.Has before)
    (whole : callMethod call object method before = (do forM earlier each; return object))
    (part : callMethod call object method single = (do forM [item] each; return object))
    (taken : (forM earlier each).run workspace = (.ok (), between))
    (refused : (each item).run between = (.error failure, after)) (keeps : Keeps [] between.store after.store) :
    FailedCall call object target workspace method arguments failure after := by
  have done : (callMethod call object method before).run workspace = (.ok object, between) := by
    rw [whole, run_bind_ok taken]
    rfl
  have kept := (maintains_callMethod tame object method before (List.Subset.refl _)).run done
  -- the items taken up so far refer to what is there, and so does all that their functions have made
  have soundBetween : between.Sound := by
    have settled : ((callMethod call object method before).run workspace).2.Sound :=
      (upholds_callMethod safe ((Value.within_target named).mpr has) within workspace sound le_rfl).1
    rwa [done] at settled
  refine .cut cut done ?_ (unchanged_of_keeps soundBetween.objects keeps (kept.has target has))
  rw [part, run_forM_singleton, run_bind, refused]

theorem callStep_failed (tame : Tame call) {step : Nat} (sound : workspace.Sound) (has : workspace.store.Has (.step step))
    (failed : (callStep call step method arguments).run workspace = (.error failure, after)) :
    FailedCall call object (.step step) workspace method arguments failure after := by
  generalize same : Except.error failure = result at failed
  cases callStep_outcome tame failed with
  | refused keeps => cases same; exact failedCall_of_keeps sound has keeps
  | script => cases same
  | set => cases same

theorem callJob_failed (tame : Tame call) (safe : Safe call) {job : Nat} (sound : workspace.Sound)
    (within : AllWithin workspace.store.Has arguments) (has : workspace.store.Has (.job job))
    (failed : (callJob call job method arguments).run workspace = (.error failure, after)) :
    FailedCall call (.job job) (.job job) workspace method arguments failure after := by
  generalize same : Except.error failure = result at failed
  cases callJob_outcome tame failed with
  | refused keeps => cases same; exact failedCall_of_keeps sound has keeps
  | step => cases same
  | @steps values items ended _ iterated added =>
    cases ended with
    | ok => cases same
    | error refused =>
      cases same
      rw [addSteps_eq] at added
      obtain ⟨earlier, item, later, between, rfl, taken, refused⟩ := run_forM_cases added
      have cut := Cut.steps iterated
      exact failedCall_of_cut tame safe sound rfl has cut (cut.within within) (callMethod_steps job rfl) (callMethod_steps job rfl)
        taken refused (addStep_failed tame refused)
  | @set _ argument field value stored between ended _ named resolved normal noted =>
    cases ended with
    | ok => cases same
    | error untold =>
      cases same
      obtain rfl := JobField.eq_setter named
      have onResolve : Maintains [] (resolve call (jobKnown job) argument) := maintains_resolve tame (maintains_jobKnown job) argument
      have untold := untold_of_noted noted
      obtain rfl : stored = value := by
        rcases untold.field with rfl | rfl <;> cases normal <;> rfl
      exact .untold rfl resolved (onResolve.run resolved) untold

theorem callWorkflow_failed (tame : Tame call) (safe : Safe call) {workflow : Nat} (sound : workspace.Sound)
    (within : AllWithin workspace.store.Has arguments) (has : workspace.store.Has (.workflow workflow))
    (failed : (callWorkflow call workflow method arguments).run workspace = (.error failure, after)) :
    FailedCall call (.workflow workflow) (.workflow workflow) workspace method arguments failure after := by
  generalize same : Except.error failure = result at failed
  cases callWorkflow_outcome tame failed with
  | refused keeps => cases same; exact failedCall_of_keeps sound has keeps
  | @jobs values entries ended _ listed added =>
    cases ended with
    | ok => cases same
    | error refused =>
      cases same
      rw [addJobs_eq] at added
      obtain ⟨earlier, entry, later, between, rfl, taken, refused⟩ := run_forM_cases added
      have cut := Cut.jobs listed
      exact failedCall_of_cut tame safe sound rfl has cut (cut.within within) (callMethod_jobs workflow rfl)
        (callMethod_jobs workflow rfl) taken refused (addJob_failed tame refused)
  | _ => cases same

theorem callMethod_add_failed (tame : Tame call) (safe : Safe call) {expression : Nat} (sound : workspace.Sound)
    (within : AllWithin workspace.store.Has arguments) (has : workspace.store.Has (.expression expression))
    (failed : (callMethod call (.expression expression) "add" arguments).run workspace = (.error failure, after)) :
    FailedCall call (.expression expression) (.expression expression) workspace "add" arguments failure after := by
  rw [callMethod_add] at failed
  rcases run_bind_cases failed with ⟨_, added, same⟩ | ⟨_, _, _, stored⟩
  · cases same
    obtain ⟨earlier, item, later, between, rfl, taken, refused⟩ := run_forM_cases added
    obtain rfl := addFragment_failed refused
    exact failedCall_of_cut tame safe sound rfl has .add (Cut.add.within within) (callMethod_add expression earlier)
      (callMethod_add expression [item]) taken refused (.refl [] _)
  · cases stored

/-- A call of a method that fails has done nothing to its object: the object is the same, knows the
same and renders to the same. There are two exceptions. A method that takes up items one by one has
done what a call with only the items before the refused one does, and a job whose strategy or services
have names that cannot be told has got them nonetheless. -/
theorem failed_call {depth : Nat} {target : Target} (sound : workspace.Sound) (within : AllWithin workspace.store.Has arguments)
    (held : object.target? = some target) (has : workspace.store.Has target)
    (failed : (callMethod (callWithin depth) object method arguments).run workspace = (.error failure, after)) :
    FailedCall (callWithin depth) object target workspace method arguments failure after := by
  have tame := tame_callWithin depth
  have safe := safe_callWithin depth
  cases object with
  | step => cases held; exact callStep_failed tame sound has failed
  | job => cases held; exact callJob_failed tame safe sound within has failed
  | workflow => cases held; exact callWorkflow_failed tame safe sound within has failed
  | expression identity =>
    cases held
    by_cases add : method = "add"
    · subst add
      exact callMethod_add_failed tame safe sound within has failed
    · have other : (method == "add") = false := beq_false_of_ne add
      unfold callMethod at failed
      simp only [other] at failed
      cases failed
      exact failedCall_of_keeps sound has (.refl [] _)
  | _ => cases held

/-- A step and a job that has no steps yet. -/
def drawnUp : Workspace where
  store := { steps := [Step.set {} .run (.text "make")], jobs := [{}] }

theorem sound_drawnUp : drawnUp.Sound where
  objects := by
    refine closed_iff.mpr ⟨List.forall_mem_nil _, fun step member => ?_, fun job member => ?_, List.forall_mem_nil _⟩
    · cases List.mem_singleton.mp member
      exact within_set fresh_within (Value.within_text _)
    · cases List.mem_singleton.mp member
      exact ⟨fun _ => Value.within_null, List.forall_mem_nil _⟩
  closures := List.forall_mem_nil _
  registers := List.forall_mem_nil _

/-- A job takes up the step before an item that is none. -/
theorem failed_steps : ∃ failure after,
    (callMethod (callWithin 0) (.job 0) "steps" [.list [.step 0, .null]]).run drawnUp = (.error failure, after) ∧
    (after.store.job 0).steps = [0] ∧
    FailedCall (callWithin 0) (.job 0) (.job 0) drawnUp "steps" [.list [.step 0, .null]] failure after :=
  have there : (Value.step 0).Within drawnUp.store.Has := within_step.mpr (by decide)
  have within : AllWithin drawnUp.store.Has [.list [.step 0, .null]] := by
    simpa [Value.within_list] using there
  ⟨_, _, rfl, rfl, failed_call sound_drawnUp within rfl (by decide) rfl⟩

/-- An expression that is a part of itself, beside a job that calls a workflow. -/
def circular : Workspace where
  store :=
    { expressions := [{ contents := [.nested 0] }],
      jobs := [Job.set {} .uses (.text "./.github/workflows/test.yml"),
        Job.set (Job.set {} .uses (.text "./.github/workflows/test.yml")) .name (.expression 0)] }

/-- A strategy whose matrix has one axis. -/
def matrix (axis : Value) : Value := .map [(.text "matrix", .map [(axis, .list [.text "linux"])])]

/-- The names of the axes cannot be told. -/
def unnamed : Workspace := ((callMethod (callWithin 0) (.job 0) "strategy" [matrix (.expression 0)]).run circular).2

/-- The name of the job cannot be shown. -/
def nameless : Workspace := ((callMethod (callWithin 0) (.job 1) "strategy" [matrix (.text "os")]).run circular).2

/-- A job whose axes cannot be told no longer renders, and one whose name cannot be shown has got axes. -/
theorem strategy_stored :
    (callMethod (callWithin 0) (.job 0) "strategy" [matrix (.expression 0)]).run circular = (.error (.ofCause .endless), unnamed) ∧
    circular.store.renderJob 0 .null = .ok (Tree.record [("uses", .text "./.github/workflows/test.yml")]) ∧
    unnamed.store.renderJob 0 .null = .error (.ofCause .endless) ∧
    (callMethod (callWithin 0) (.job 1) "strategy" [matrix (.text "os")]).run circular = (.error (.ofCause .endless), nameless) ∧
    (circular.store.job 1).axes = some [] ∧ (nameless.store.job 1).axes = some ["os"] := by
  refine ⟨?_, rfl, ?_, ?_, rfl, ?_⟩
  all_goals with_unfolding_all rfl

end

end Build

end WorkflowCompiler
