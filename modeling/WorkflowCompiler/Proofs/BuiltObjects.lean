import WorkflowCompiler.Proofs.CallbackNames
import WorkflowCompiler.Proofs.LastPuts

/-! What calls with plain values build. Whatever calls were made, each setting of a step, a job or a
workflow has the value put last, steps stand in the order in which they were appended, and events
and jobs in the order in which they were first added. -/

namespace WorkflowCompiler

/-- A call of a method that has been made, and the workspace that it was made in. -/
structure Made where
  before : Workspace
  method : String
  arguments : List Value

namespace Made

/-- The values that are called if they are functions. -/
def callbacks (made : Made) : List Value :=
  match made.method, made.arguments with
  | "steps", [values] => (values.iterate.toOption).getD []
  | "jobs", [values] => ((values.itemEntries.toOption).getD []).map Prod.snd
  | "job", [_, value] => [value]
  | "on", _ => []
  | _, arguments => arguments

def Plain (made : Made) : Prop := ∀ value ∈ made.callbacks, ∀ function, value ≠ .function function

/-- What a call puts in the place of a setting of a step: the value, or the lines of a script. -/
def stepPut (made : Made) : List (StepField × Value) :=
  match StepField.ofSetter? made.method, made.arguments with
  | some .run, [value] =>
    match ((((value.items?).getD [value]).mapM Build.scriptLine).run made.before).1 with
    | .ok lines => [(.run, .text ("\n".intercalate lines))]
    | .error _ => []
  | some field, [value] => [(field, value)]
  | _, _ => []

/-- What a call puts in the place of a setting of a job. No permissions are none set, needs are a
list of texts, and a workflow is used by the name of its file. -/
def jobPut (made : Made) : List (JobField × Value) :=
  match JobField.ofSetter? made.method, made.arguments with
  | some .permissions, [value] => [(.permissions, clearable value)]
  | some .needs, [value] =>
    match value.asList.mapM made.before.store.wording with
    | .ok names => [(.needs, .list (names.map .text))]
    | .error _ => []
  | some .uses, [.workflow identity] =>
    match made.before.store.wording (made.before.store.workflow identity).fileName with
    | .ok fileName => [(.uses, .text s!"./.github/workflows/{fileName}.yml")]
    | .error _ => []
  | some field, [value] => [(field, value)]
  | _, _ => []

def step? : Value → Option Nat
  | .step identity => some identity
  | _ => none

def job? : Value → Option Nat
  | .job identity => some identity
  | _ => none

/-- The steps that a call appends to a job. -/
def steps (made : Made) : List Nat :=
  match made.method, made.arguments with
  | "step", [value] => (step? value).toList
  | "steps", [values] => ((values.iterate.toOption).getD []).filterMap step?
  | _, _ => []

def namePut (made : Made) : List (Unit × Value) :=
  match made.method, made.arguments with
  | "set_name", [name] => [((), name)]
  | _, _ => []

def workflowPut (made : Made) : List (WorkflowField × Value) :=
  match WorkflowField.ofSetter? made.method, made.arguments with
  | some .permissions, [value] => [(.permissions, clearable value)]
  | some field, [value] => [(field, value)]
  | _, _ => []

/-- The events that a call adds to a workflow, with their options. -/
def eventPuts (made : Made) : List (String × Value) :=
  match made.method, made.arguments with
  | "on", .event kind settings :: _ =>
    match Event.entries (.event kind settings) with
    | .ok entries => entries.map fun entry => (entry.1.chars?.getD "", entry.2)
    | .error _ => []
  | "on", event :: options =>
    match made.before.store.wording event with
    | .ok name => [(name, Workflow.eventOptions (options.headD .null))]
    | .error _ => []
  | _, _ => []

/-- The jobs that a call adds to a workflow. -/
def jobPuts (made : Made) : List (Value × Nat) :=
  match made.method, made.arguments with
  | "job", [jobId, value] => ((job? value).map (jobId, ·)).toList
  | "jobs", [values] =>
    ((values.itemEntries.toOption).getD []).filterMap fun entry => (job? entry.2).map (entry.1, ·)
  | _, _ => []

end Made

/-- What calls build. A job is rendered under an id; a workflow has a name from the start. -/
inductive Builder
  | step (identity : Nat)
  | job (identity : Nat) (jobId : Value)
  | workflow (identity : Nat) (name : Value)

namespace Builder

def value : Builder → Value
  | .step identity => .step identity
  | .job identity _ => .job identity
  | .workflow identity _ => .workflow identity

def target : Builder → Target
  | .step identity => .step identity
  | .job identity _ => .job identity
  | .workflow identity _ => .workflow identity

/-- Whether nothing has been called yet. -/
def New (store : Store) : Builder → Prop
  | .step identity => ∃ known, store.step identity = { known }
  | .job identity _ => store.job identity = {}
  | .workflow identity name => ∃ fileName, store.workflow identity = { name, fileName }

end Builder

/-- Workspaces in which a builder has come about by successful calls with plain values. What happens
to other objects between the calls does not matter. -/
inductive Built (depth : Nat) (builder : Builder) : List Made → Workspace → Prop
  | new {workspace} (has : workspace.store.Has builder.target) (new : builder.New workspace.store) : Built depth builder [] workspace
  | elsewhere {made before after} (built : Built depth builder made before) (has : after.store.Has builder.target)
      (same : Store.Same before.store after.store builder.target) : Built depth builder made after
  | called {made before method arguments result after} (built : Built depth builder made before)
      (plain : Made.Plain ⟨before, method, arguments⟩)
      (ran : (Build.callMethod (Build.callWithin depth) builder.value method arguments).run before = (.ok result, after)) :
      Built depth builder (made ++ [⟨before, method, arguments⟩]) after

namespace Builder

/-- The value that a setting was given last; null if there is none. -/
def last [DecidableEq κ] (puts : List (κ × Value)) (key : κ) : Value := (lastPut puts key).getD .null

/-- The events of a workflow, in the order of their first addition with the options given last. -/
def events (made : List Made) : List (String × Value) := mapping (made.flatMap Made.eventPuts)

/-- What the calls have made of the object. -/
def Stands (store : Store) (made : List Made) : Builder → Prop
  | .step identity => ∀ field, (store.step identity).fields field = last (made.flatMap Made.stepPut) field
  | .job identity _ =>
    (∀ field, (store.job identity).fields field = last (made.flatMap Made.jobPut) field) ∧
    (store.job identity).steps = made.flatMap Made.steps
  | .workflow identity name =>
    (store.workflow identity).name = (lastPut (made.flatMap Made.namePut) ()).getD name ∧
    (store.workflow identity).events = events made ∧
    (∀ field, (store.workflow identity).fields field = last (made.flatMap Made.workflowPut) field) ∧
    (store.workflow identity).jobs = (made.flatMap Made.jobPuts).foldl (fun found put => Value.insert put.1 put.2 found) []

end Builder

section

open Build
open Builder (last)

theorem last_append [DecidableEq κ] (puts : List (κ × Value)) (key : κ) (value : Value) (other : κ) :
    last (puts ++ [(key, value)]) other = if other = key then value else last puts other := by
  rw [last, lastPut_append_singleton]
  split <;> rfl

/-- What a call that puts one value leaves of the others. -/
theorem last_put [DecidableEq κ] {puts : List (κ × Value)} {fields : κ → Value} (stands : ∀ field, fields field = last puts field)
    (key : κ) (value : Value) (field : κ) :
    (if field = key then value else fields field) = last (puts ++ [(key, value)]) field := by
  rw [last_append, stands]

theorem resolve_plain {call : Call} {known : Build Known} {argument value : Value} {workspace after : Workspace}
    (plain : ∀ function, argument ≠ .function function)
    (resolved : (resolve call known argument).run workspace = (.ok value, after)) : value = argument ∧ after = workspace := by
  cases argument with
  | function identity => exact absurd rfl (plain identity)
  | _ => cases resolved; exact ⟨rfl, rfl⟩

/-- The argument of a setter is no function. -/
theorem Made.Plain.single {made : Made} {argument : Value} (plain : made.Plain) (only : made.callbacks = [argument]) :
    ∀ function, argument ≠ .function function :=
  plain argument (by rw [only]; exact List.mem_singleton_self _)

theorem fields_callStep {call : Call} (tame : Tame call) {step : Nat} {before after : Workspace} {method : String}
    {arguments : List Value} {result : Value} {puts : List (StepField × Value)} (has : before.store.Has (.step step))
    (plain : Made.Plain ⟨before, method, arguments⟩)
    (ran : (callStep call step method arguments).run before = (.ok result, after))
    (stands : ∀ field, (before.store.step step).fields field = last puts field) (field : StepField) :
    (after.store.step step).fields field = last (puts ++ Made.stepPut ⟨before, method, arguments⟩) field := by
  cases callStep_outcome tame ran with
  | @script argument value lines between named resolved written =>
    obtain rfl := StepField.eq_setter named
    obtain ⟨rfl, rfl⟩ := resolve_plain (plain.single rfl) resolved
    have put : Made.stepPut ⟨between, StepField.run.setter, [value]⟩ = [(.run, .text ("\n".intercalate lines))] := by
      simp only [Made.stepPut, named, written]
    rw [put, Workspace.step_withStep has, ← last_put stands]
    rfl
  | @set argument other value between named script resolved =>
    obtain rfl := StepField.eq_setter named
    obtain ⟨rfl, rfl⟩ := resolve_plain (plain.single (by cases other <;> rfl)) resolved
    have put : Made.stepPut ⟨between, other.setter, [value]⟩ = [(other, value)] := by
      simp [Made.stepPut]
    rw [put, Workspace.step_withStep has, ← last_put stands]
    rfl

theorem run_itemStep_plain {call : Call} {job step : Nat} {value : Value} {before after : Workspace}
    (plain : ∀ function, value ≠ .function function) (made : (itemStep call job value).run before = (.ok step, after)) :
    value = .step step ∧ after = before := by
  cases value with
  | step identity => cases made; exact ⟨rfl, rfl⟩
  | function identity => exact absurd rfl (plain identity)
  | _ => cases made

theorem run_addSteps_plain {call : Call} {job : Nat} {items : List Value} {before after : Workspace}
    (plain : ∀ value ∈ items, ∀ function, value ≠ .function function) (has : before.store.Has (.job job))
    (ran : (addSteps call job items).run before = (.ok (), after)) :
    after.store.job job = { before.store.job job with steps := (before.store.job job).steps ++ items.filterMap Made.step? } := by
  induction items generalizing before with
  | nil => 
    cases ran
    simp
  | cons item rest ih =>
    have ⟨first, others⟩ := List.forall_mem_cons.mp plain
    rw [addSteps, addStep_eq] at ran
    rcases run_bind_cases ran with ⟨_, -, same⟩ | ⟨_, between, added, later⟩
    · cases same
    rcases run_bind_cases added with ⟨_, -, same⟩ | ⟨step, reached, made, appended⟩
    · cases same
    obtain ⟨rfl, rfl⟩ := run_itemStep_plain first made
    cases appended
    have still : (reached.withJob job (·.addStep step)).store.Has (.job job) := Workspace.has_withJob.mpr has
    rw [ih others still later, Workspace.job_withJob has]
    simp [Job.addStep, Made.step?]

theorem jobPut_setter {before : Workspace} {field : JobField} {value stored : Value}
    (normal : (jobSetting field value).run before = (.ok stored, before)) :
    Made.jobPut ⟨before, field.setter, [value]⟩ = [(field, stored)] := by
  have named : JobField.ofSetter? field.setter = some field := JobField.ofSetter?_setter field
  cases field with
  | needs =>
    rw [Told.run_jobSetting_needs] at normal
    rcases listed : value.asList.mapM before.store.wording with failure | names
    · rw [listed] at normal
      cases normal
    · rw [listed] at normal
      cases normal
      simp only [Made.jobPut, named, listed]
  | uses =>
    cases value with
    | workflow identity =>
      rcases worded : before.store.wording (before.store.workflow identity).fileName with failure | fileName
      · have failed : (jobSetting .uses (.workflow identity)).run before = (.error failure, before) := by
          show ((ask fun store => store.wording (before.store.workflow identity).fileName) >>= _).run before = _
          rw [run_bind, run_ask_eq, worded]
        cases failed.symm.trans normal
      · have passed : (jobSetting .uses (.workflow identity)).run before =
            (.ok (.text s!"./.github/workflows/{fileName}.yml"), before) := by
          show ((ask fun store => store.wording (before.store.workflow identity).fileName) >>= _).run before = _
          rw [run_bind_ok (run_ask worded)]
          rfl
        cases passed.symm.trans normal
        simp only [Made.jobPut, named, worded]
    | _ => cases normal; rfl
  | _ => cases normal; rfl

theorem keeps_of_noted {job : Nat} {before after : Workspace} {field : JobField} {value : Value} {result : Except Failure Unit}
    (has : before.store.Has (.job job)) (noted : NameOutcome job before field value result after) :
    (after.store.job job).fields = (before.store.job job).fields ∧ (after.store.job job).steps = (before.store.job job).steps := by
  cases noted with
  | none => exact ⟨rfl, rfl⟩
  | axes named noted => rw [noted, Workspace.job_withJob has]; exact ⟨rfl, rfl⟩
  | axesUntold => exact ⟨rfl, rfl⟩
  | services => rw [Workspace.job_withJob has]; exact ⟨rfl, rfl⟩
  | servicesUntold => exact ⟨rfl, rfl⟩

theorem callJob_puts {call : Call} (tame : Tame call) {job : Nat} {before after : Workspace} {method : String}
    {arguments : List Value} {result : Value} {puts : List (JobField × Value)} (has : before.store.Has (.job job))
    (plain : Made.Plain ⟨before, method, arguments⟩)
    (ran : (callJob call job method arguments).run before = (.ok result, after))
    (stands : ∀ field, (before.store.job job).fields field = last puts field) :
    (∀ field, (after.store.job job).fields field = last (puts ++ Made.jobPut ⟨before, method, arguments⟩) field) ∧
    (after.store.job job).steps = (before.store.job job).steps ++ Made.steps ⟨before, method, arguments⟩ := by
  generalize same : Except.ok result = outcome at ran
  cases callJob_outcome tame ran with
  | refused => cases same
  | @step value step between made =>
    obtain ⟨rfl, rfl⟩ := run_itemStep_plain (plain value (List.mem_singleton_self _)) made
    have puts : Made.jobPut ⟨between, "step", [.step step]⟩ = [] := rfl
    rw [puts, List.append_nil, Workspace.job_withJob has]
    exact ⟨stands, rfl⟩
  | @steps values items ended _ iterated added =>
    cases ended with
    | error failure => cases same
    | ok =>
      have listed : Made.callbacks ⟨before, "steps", [values]⟩ = items := by simp [Made.callbacks, iterated, Except.toOption]
      have appended := run_addSteps_plain (fun value member => plain value (by rwa [listed])) has added
      have puts : Made.jobPut ⟨before, "steps", [values]⟩ = [] := rfl
      rw [puts, List.append_nil, appended]
      exact ⟨stands, by simp [Made.steps, iterated, Except.toOption]⟩
  | @set _ argument field value stored between _ _ named resolved normal noted =>
    obtain rfl := JobField.eq_setter named
    obtain ⟨rfl, rfl⟩ := resolve_plain (plain.single (by cases field <;> rfl)) resolved
    have steps : Made.steps ⟨between, field.setter, [value]⟩ = [] := by cases field <;> rfl
    have still : (between.withJob job (·.set field stored)).store.Has (.job job) := Workspace.has_withJob.mpr has
    have kept := keeps_of_noted still noted
    rw [jobPut_setter normal, steps, List.append_nil, kept.1, kept.2, Workspace.job_withJob has]
    exact ⟨fun other => by rw [← last_put stands]; rfl, rfl⟩

theorem run_itemJob_plain {call : Call} {job : Nat} {jobId value : Value} {before after : Workspace}
    (plain : ∀ function, value ≠ .function function) (made : (itemJob call jobId value).run before = (.ok job, after)) :
    value = .job job ∧ after = before := by
  cases value with
  | job identity => cases made; exact ⟨rfl, rfl⟩
  | function identity => exact absurd rfl (plain identity)
  | _ =>
    dsimp only [itemJob] at made
    rw [run_bind, run_ask_eq] at made
    revert made
    rcases before.store.wording jobId with _ | _ <;> rintro ⟨⟩

theorem run_addJobs_plain {call : Call} (tame : Tame call) {workflow : Nat} {entries : List (Value × Value)} {before after : Workspace}
    (plain : ∀ entry ∈ entries, ∀ function, entry.2 ≠ .function function) (has : before.store.Has (.workflow workflow))
    (ran : (addJobs call workflow entries).run before = (.ok (), after)) :
    after.store.workflow workflow = { before.store.workflow workflow with
      jobs := (entries.filterMap fun entry => (Made.job? entry.2).map (entry.1, ·)).foldl
        (fun found put => Value.insert put.1 put.2 found) (before.store.workflow workflow).jobs } := by
  induction entries generalizing before with
  | nil =>
    cases ran
    rfl
  | cons entry rest ih =>
    have ⟨first, others⟩ := List.forall_mem_cons.mp plain
    rcases run_bind_cases ran with ⟨_, -, same⟩ | ⟨_, between, added, later⟩
    · cases same
    rcases addJob_outcome tame added with ⟨⟨_, same⟩, -⟩ | ⟨job, reached, made, key, -, rfl⟩
    · cases same
    obtain ⟨value, rfl⟩ := run_itemJob_plain first made
    rw [ih others _ later, Workspace.workflow_withWorkflow has]
    · simp [value, Made.job?]
    · exact Workspace.has_withWorkflow.mpr has

theorem foldl_addEntry {entries : List (Value × Value)} (named : Event.AllNamed entries) (workflow : Workflow) :
    entries.foldl Workflow.addEntry workflow = { workflow with
      events := (entries.map fun entry => (entry.1.chars?.getD "", entry.2)).foldl
        (fun found put => Workflow.putNamed put.1 put.2 found) workflow.events } := by
  induction entries generalizing workflow with
  | nil => rfl
  | cons entry rest ih =>
    obtain ⟨key, options⟩ := entry
    obtain ⟨⟨name, rfl⟩, others⟩ := List.forall_mem_cons.mp named
    rw [List.foldl_cons, ih others]
    rfl

theorem stands_append_nil [DecidableEq κ] {puts more : List (κ × Value)} {fields : κ → Value} (none : more = [])
    (stands : ∀ field, fields field = last puts field) (field : κ) : fields field = last (puts ++ more) field := by
  rw [none, List.append_nil, stands]

/-- What a call changes in a workflow. -/
theorem callWorkflow_puts {call : Call} (tame : Tame call) {workflow : Nat} {before after : Workspace} {method : String}
    {arguments : List Value} {result : Value} {puts : List (WorkflowField × Value)} (has : before.store.Has (.workflow workflow))
    (plain : Made.Plain ⟨before, method, arguments⟩)
    (ran : (callWorkflow call workflow method arguments).run before = (.ok result, after))
    (stands : ∀ field, (before.store.workflow workflow).fields field = last puts field) :
    (after.store.workflow workflow).name =
      (lastPut (Made.namePut ⟨before, method, arguments⟩) ()).getD (before.store.workflow workflow).name ∧
    (after.store.workflow workflow).events = (Made.eventPuts ⟨before, method, arguments⟩).foldl
      (fun found put => Workflow.putNamed put.1 put.2 found) (before.store.workflow workflow).events ∧
    (∀ field, (after.store.workflow workflow).fields field =
      last (puts ++ Made.workflowPut ⟨before, method, arguments⟩) field) ∧
    (after.store.workflow workflow).jobs = (Made.jobPuts ⟨before, method, arguments⟩).foldl
      (fun found put => Value.insert put.1 put.2 found) (before.store.workflow workflow).jobs := by
  generalize same : Except.ok result = outcome at ran
  cases callWorkflow_outcome tame ran with
  | refused => cases same
  | found => exact ⟨rfl, rfl, stands_append_nil rfl stands, rfl⟩
  | @entries kind settings options others entries given unset listed =>
    have puts : Made.eventPuts ⟨before, "on", .event kind settings :: others⟩ =
        entries.map fun entry => (entry.1.chars?.getD "", entry.2) := by
      simp only [Made.eventPuts, listed]
    have rest : Made.namePut ⟨before, "on", .event kind settings :: others⟩ = [] ∧
        Made.workflowPut ⟨before, "on", .event kind settings :: others⟩ = [] ∧
        Made.jobPuts ⟨before, "on", .event kind settings :: others⟩ = [] := by
      rcases given with rfl | rfl <;> exact ⟨rfl, rfl, rfl⟩
    rw [puts, rest.1, rest.2.1, rest.2.2, Workspace.workflow_withWorkflow has, foldl_addEntry (Event.entries_named _ _ listed)]
    exact ⟨rfl, rfl, stands_append_nil rfl stands, rfl⟩
  | @event event options others name given other named =>
    have puts : Made.eventPuts ⟨before, "on", event :: others⟩ = [(name, Workflow.eventOptions options)] := by
      have first : options = others.headD .null := by rcases given with ⟨rfl, rfl⟩ | rfl <;> rfl
      cases event with
      | event kind settings => exact absurd rfl (other kind settings)
      | _ => simp only [Made.eventPuts, named, first]
    have rest : Made.namePut ⟨before, "on", event :: others⟩ = [] ∧ Made.workflowPut ⟨before, "on", event :: others⟩ = [] ∧
        Made.jobPuts ⟨before, "on", event :: others⟩ = [] := by
      rcases given with ⟨rfl, -⟩ | rfl <;> exact ⟨rfl, rfl, rfl⟩
    rw [puts, rest.1, rest.2.1, rest.2.2, Workspace.workflow_withWorkflow has]
    exact ⟨rfl, rfl, stands_append_nil rfl stands, rfl⟩
  | @job jobId value job between made key =>
    obtain ⟨rfl, rfl⟩ := run_itemJob_plain (plain value (List.mem_singleton_self _)) made
    rw [Workspace.workflow_withWorkflow has]
    exact ⟨rfl, rfl, stands_append_nil rfl stands, rfl⟩
  | @jobs values entries ended _ listed added =>
    cases ended with
    | error failure => cases same
    | ok =>
      have callbacks : Made.callbacks ⟨before, "jobs", [values]⟩ = entries.map Prod.snd := by
        simp [Made.callbacks, listed, Except.toOption]
      have puts : Made.jobPuts ⟨before, "jobs", [values]⟩ = entries.filterMap fun entry => (Made.job? entry.2).map (entry.1, ·) := by
        simp [Made.jobPuts, listed, Except.toOption]
      rw [puts, run_addJobs_plain tame (fun entry member => plain entry.2 (by rw [callbacks]; exact List.mem_map_of_mem member)) has added]
      exact ⟨rfl, rfl, stands_append_nil rfl stands, rfl⟩
  | @renamed name =>
    rw [Workspace.workflow_withWorkflow has]
    exact ⟨rfl, rfl, stands_append_nil rfl stands, rfl⟩
  | @set _ argument field value between named resolved =>
    obtain rfl := WorkflowField.eq_key named
    obtain ⟨rfl, rfl⟩ := resolve_plain (plain.single (by cases field <;> rfl)) resolved
    have put : Made.workflowPut ⟨between, field.key, [value]⟩ = [(field, if field = .permissions then clearable value else value)] := by
      cases field <;> rfl
    have rest : Made.namePut ⟨between, field.key, [value]⟩ = [] ∧ Made.eventPuts ⟨between, field.key, [value]⟩ = [] ∧
        Made.jobPuts ⟨between, field.key, [value]⟩ = [] := by
      cases field <;> exact ⟨rfl, rfl, rfl⟩
    rw [put, rest.1, rest.2.1, rest.2.2, Workspace.workflow_withWorkflow has]
    exact ⟨rfl, rfl, fun other => by rw [← last_put stands]; rfl, rfl⟩

theorem Built.stands {depth : Nat} {builder : Builder} {made : List Made} {workspace : Workspace}
    (built : Built depth builder made workspace) :
    workspace.store.Has builder.target ∧ builder.Stands workspace.store made := by
  induction built with
  | new has new =>
    refine ⟨has, ?_⟩
    cases builder with
    | step identity =>
      obtain ⟨known, new⟩ := new
      exact fun field => by rw [new]; rfl
    | job identity jobId => exact ⟨fun field => by rw [new]; rfl, by rw [new]; rfl⟩
    | workflow identity name =>
      obtain ⟨fileName, new⟩ := new
      exact ⟨by rw [new]; rfl, by rw [new]; rfl, fun field => by rw [new]; rfl, by rw [new]; rfl⟩
  | elsewhere built has same ih =>
    refine ⟨has, ?_⟩
    cases builder <;> simpa only [Builder.Stands, show _ = _ from same] using ih.2
  | @called made before method arguments result after built plain ran ih =>
    obtain ⟨has, stands⟩ := ih
    have tame := tame_callWithin depth
    have keeps := maintains_callMethod tame builder.value method arguments (List.Subset.refl _) before
    refine ⟨by rw [ran] at keeps; exact keeps.has _ has, ?_⟩
    have once {α : Type} (puts : Made → List α) :
        (made ++ [(⟨before, method, arguments⟩ : Made)]).flatMap puts = made.flatMap puts ++ puts ⟨before, method, arguments⟩ := by
      simp
    cases builder with
    | step identity => exact fun field => by rw [once]; exact fields_callStep tame has plain ran stands field
    | job identity jobId =>
      obtain ⟨fields, steps⟩ := callJob_puts tame has plain ran stands.1
      exact ⟨fun field => by rw [once]; exact fields field, by rw [once, steps, stands.2]⟩
    | workflow identity name =>
      obtain ⟨named, listed, settings, jobs⟩ := stands
      obtain ⟨renamed, events, fields, added⟩ := callWorkflow_puts tame has plain ran settings
      refine ⟨?_, ?_, fun field => by rw [once]; exact fields field, ?_⟩
      · rw [once, renamed, named, lastPut_append, Option.getD_or]
      · rw [Builder.events, once, events, listed, Builder.events, mapping_eq_foldl, mapping_eq_foldl, List.foldl_append]
      · rw [once, added, jobs, List.foldl_append]

end

end WorkflowCompiler
