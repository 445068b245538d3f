import WorkflowCompiler.Proofs.DeclaredNames
import WorkflowCompiler.Proofs.MethodOutcomes

/-! The names that a job's callbacks may refer to. Whatever calls have gone before, the next callback
is checked against the axes named last, the needs set last and the ids that the steps appended so
far have now; a step that a builder completes keeps the names known when it was made. -/

namespace WorkflowCompiler

/-- What the calls of a job's methods have told of names. -/
structure Declared where
  axes : Option (List String) := some []
  needs : List String := []
  steps : List Nat := []

/-- With one more step, for a builder to complete. -/
def Workspace.withNewStep (workspace : Workspace) (known : Known) : Workspace :=
  { workspace with store := { workspace.store with steps := workspace.store.steps ++ [{ known := some known }] } }

namespace Build

open Store (Keeps Same)

section History

variable (call : Call) (job : Nat)

/-- The steps that items come to one after the other, up to the first that is refused. -/
def appendedSteps : List Value → Workspace → List Nat
  | [], _ => []
  | item :: rest, workspace =>
    match (itemStep call job item).run workspace with
    | (.ok step, after) => step :: appendedSteps rest (after.withJob job (·.addStep step))
    | (.error _, _) => []

/-- What the argument of a setter comes to, and the workspace by then. -/
def argumentValue (argument : Value) (workspace : Workspace) : Except Failure (Value × Workspace) :=
  match (resolve call (jobKnown job) argument).run workspace with
  | (.ok value, after) => .ok (value, after)
  | (.error failure, _) => .error failure

/-- The axes of a strategy that has just been stored. -/
def axesNamed (strategy : Value) (workspace : Workspace) : Except Failure (Option (List String)) :=
  matrixAxes (workspace.withJob job (·.set .strategy strategy)).store.wording strategy

/-- What has been told once a method has been called, whether the call succeeds or not. -/
def afterCall (declared : Declared) (method : String) (arguments : List Value) (workspace : Workspace) : Declared :=
  match method, arguments with
  | "step", [value] => { declared with steps := declared.steps ++ appendedSteps call job [value] workspace }
  | "steps", [values] =>
    { declared with steps := declared.steps ++ appendedSteps call job ((values.iterate.toOption).getD []) workspace }
  | "needs", [argument] =>
    match (do let (value, after) ← argumentValue call job argument workspace; value.asList.mapM after.store.wording) with
    | .ok needs => { declared with needs }
    | .error _ => declared
  | "strategy", [argument] =>
    match (do let (value, after) ← argumentValue call job argument workspace; axesNamed job value after) with
    | .ok axes => { declared with axes }
    | .error _ => declared
  | _, _ => declared

/-- The workspaces in which a job has been told of `declared` by calls of its methods, failed ones
included. What happens to other objects between the calls does not matter. -/
inductive Assembled : Declared → Workspace → Prop
  | fresh {workspace} (has : workspace.store.Has (.job job)) (new : workspace.store.job job = {}) : Assembled {} workspace
  | elsewhere {declared before after} (assembled : Assembled declared before) (has : after.store.Has (.job job))
      (same : after.store.job job = before.store.job job) : Assembled declared after
  | called {declared before} (assembled : Assembled declared before) (method : String) (arguments : List Value) :
      Assembled (afterCall call job declared method arguments before) ((callJob call job method arguments).run before).2
  /-- Within a call of `steps`, an item after those before it. -/
  | item {declared before} (assembled : Assembled declared before) (value : Value) :
      Assembled { declared with steps := declared.steps ++ appendedSteps call job [value] before }
        ((addStep call job value).run before).2

end History

/-- What a job has been told is what it has noted. -/
structure Told (job : Nat) (declared : Declared) (workspace : Workspace) : Prop where
  has : workspace.store.Has (.job job)
  axes : (workspace.store.job job).axes = declared.axes
  needs : (workspace.store.job job).neededJobs = declared.needs
  steps : (workspace.store.job job).steps = declared.steps

namespace Told

variable {call : Call} {job : Nat} {declared : Declared} {workspace after : Workspace}

theorem elsewhere (told : Told job declared workspace) (has : after.store.Has (.job job))
    (same : after.store.job job = workspace.store.job job) : Told job declared after :=
  ⟨has, by rw [same, told.axes], by rw [same, told.needs], by rw [same, told.steps]⟩

theorem keeps (told : Told job declared workspace) (keeps : Keeps [] workspace.store after.store) : Told job declared after :=
  told.elsewhere (keeps.has _ told.has) (keeps.same _ told.has (List.not_mem_nil))

theorem withJob (told : Told job declared workspace) {change : Job → Job} {changed : Declared}
    (axes : (change (workspace.store.job job)).axes = changed.axes)
    (needs : (change (workspace.store.job job)).neededJobs = changed.needs)
    (steps : (change (workspace.store.job job)).steps = changed.steps) : Told job changed (workspace.withJob job change) := by
  have same := Workspace.job_withJob told.has change
  exact ⟨Workspace.has_withJob.mpr told.has, by rw [same, axes], by rw [same, needs], by rw [same, steps]⟩

theorem append (told : Told job declared workspace) (step : Nat) :
    Told job { declared with steps := declared.steps ++ [step] } (workspace.withJob job (·.addStep step)) :=
  told.withJob told.axes told.needs (congrArg (· ++ [step]) told.steps)

/-- A setting other than the needed jobs tells nothing by itself. -/
theorem set (told : Told job declared workspace) {field : JobField} (value : Value) (other : field ≠ .needs) :
    Told job declared (workspace.withJob job (·.set field value)) := by
  refine told.withJob told.axes ?_ told.steps
  rw [← told.needs]
  simp [Job.set, Job.neededJobs, other.symm]

theorem setNeeds (told : Told job declared workspace) (needs : List String) :
    Told job { declared with needs } (workspace.withJob job (·.set .needs (.list (needs.map .text)))) := by
  refine told.withJob told.axes ?_ told.steps
  simp [Job.set, Job.neededJobs, Value.asList, Value.chars?, Value.label?, Label.chars, List.filterMap_map, Function.comp_def]

theorem addSteps (tame : Tame call) (told : Told job declared workspace) (items : List Value) :
    Told job { declared with steps := declared.steps ++ appendedSteps call job items workspace }
      ((addSteps call job items).run workspace).2 := by
  induction items generalizing declared workspace with
  | nil => simpa [appendedSteps, Build.addSteps] using told
  | cons item rest ih =>
    rw [Build.addSteps, addStep_eq, appendedSteps]
    rcases made : (itemStep call job item).run workspace with ⟨failure | step, between⟩
    · rw [run_bind, run_bind, made]
      simpa using told.keeps ((maintains_itemStep tame job item).run made)
    · rw [run_bind, run_bind_ok made]
      have appended := (told.keeps ((maintains_itemStep tame job item).run made)).append step
      simpa using ih appended

theorem run_bind_pure_snd (first : Build α) (value : β) (workspace : Workspace) :
    ((first >>= fun _ => pure value).run workspace).2 = (first.run workspace).2 := by
  rw [run_bind]
  rcases first.run workspace with ⟨_ | _, after⟩ <;> rfl

theorem callJob_setter (call : Call) (job : Nat) (field : JobField) (argument : Value) :
    Build.callJob call job field.setter [argument] = (do
      let value ← jobSetting field (← resolve call (jobKnown job) argument)
      modifyJob job (·.set field value)
      recordNames job field value
      return .job job) := by
  cases field <;> rfl

theorem addStep (tame : Tame call) (told : Told job declared workspace) (value : Value) :
    Told job { declared with steps := declared.steps ++ appendedSteps call job [value] workspace }
      ((Build.addStep call job value).run workspace).2 := by
  simpa [Build.addSteps] using told.addSteps tame [value]

/-- Nothing but a strategy names axes. -/
theorem note (told : Told job declared workspace) {field : JobField} {value : Value} {result : Except Failure Unit}
    (other : field ≠ .strategy) (noted : NameOutcome job workspace field value result after) : Told job declared after := by
  cases noted with
  | none => exact told
  | axes => exact absurd rfl other
  | axesUntold => exact absurd rfl other
  | services => exact told.withJob told.axes told.needs told.steps
  | servicesUntold => exact told

theorem noteAxes (told : Told job declared workspace) {value : Value} {result : Except Failure Unit}
    (noted : NameOutcome job workspace .strategy value result after) :
    Told job (match matrixAxes workspace.store.wording value with
      | .ok axes => { declared with axes }
      | .error _ => declared) after := by
  cases noted with
  | none strategy => exact absurd rfl strategy
  | @axes _ axes _ _ named stored =>
    rw [named]
    have told : Told job { declared with axes } (workspace.withJob job fun job => { job with axes }) :=
      told.withJob rfl told.needs told.steps
    exact told.elsewhere (by rw [stored]; exact told.has) (by rw [stored])
  | axesUntold untold =>
    rw [untold]
    exact told

theorem run_jobSetting_needs (value : Value) (workspace : Workspace) :
    (jobSetting .needs value).run workspace =
      ((value.asList.mapM workspace.store.wording).map fun needs => .list (needs.map .text), workspace) := by
  show (value.asList.mapM (fun item => ask (·.wording item)) >>= fun needs => pure (Value.list (needs.map .text))).run workspace = _
  rw [run_bind, run_mapM_ask fun store item => store.wording item]
  cases value.asList.mapM workspace.store.wording <;> rfl

theorem callJob (tame : Tame call) (told : Told job declared workspace) (method : String) (arguments : List Value) :
    Told job (afterCall call job declared method arguments workspace) ((Build.callJob call job method arguments).run workspace).2 := by
  unfold afterCall
  split
  · rename_i value
    have same : Build.callJob call job "step" [value] = Build.addStep call job value >>= fun _ => pure (.job job) := rfl
    rw [same, run_bind_pure_snd]
    exact told.addStep tame value
  · rename_i values
    have same : Build.callJob call job "steps" [values] = ofExcept values.iterate >>= fun items =>
        Build.addSteps call job items >>= fun _ => pure (.job job) := rfl
    rw [same, run_bind, run_ofExcept_eq]
    rcases values.iterate with failure | items
    · simpa [appendedSteps, Except.toOption] using told
    · dsimp only
      rw [run_bind_pure_snd]
      exact told.addSteps tame items
  · rename_i argument
    rw [show "needs" = JobField.needs.setter from rfl, callJob_setter, run_bind]
    unfold argumentValue
    rcases resolved : (resolve call (jobKnown job) argument).run workspace with ⟨failure | value, between⟩
    · exact told.keeps ((maintains_resolve tame (maintains_jobKnown job) argument).run resolved)
    · have told := told.keeps ((maintains_resolve tame (maintains_jobKnown job) argument).run resolved)
      dsimp only
      rw [run_bind, run_jobSetting_needs]
      show Told job (match value.asList.mapM between.store.wording with | .ok needs => _ | .error _ => _) _
      rcases value.asList.mapM between.store.wording with failure | needs
      · exact told
      · exact told.setNeeds needs
  · rename_i argument
    rw [show "strategy" = JobField.strategy.setter from rfl, callJob_setter, run_bind]
    unfold argumentValue
    rcases resolved : (resolve call (jobKnown job) argument).run workspace with ⟨failure | value, between⟩
    · exact told.keeps ((maintains_resolve tame (maintains_jobKnown job) argument).run resolved)
    · have told := told.keeps ((maintains_resolve tame (maintains_jobKnown job) argument).run resolved)
      show Told job (match axesNamed job value between with | .ok axes => _ | .error _ => _)
        ((recordNames job .strategy value >>= fun _ => pure (Value.job job)).run (between.withJob job (·.set .strategy value))).2
      rw [run_bind_pure_snd]
      exact (told.set value (by decide)).noteAxes (recordNames_outcome rfl)
  · rename_i unstep unsteps unneeds unstrategy
    rcases ran : (Build.callJob call job method arguments).run workspace with ⟨result, after⟩
    cases callJob_outcome tame ran with
    | refused keeps => exact told.keeps keeps
    | step => exact absurd rfl (unstep _ rfl)
    | steps => exact absurd rfl (unsteps _ rfl)
    | @set _ argument field value stored between result _ named resolved normal noted =>
      obtain rfl := JobField.eq_setter named
      have needs : field ≠ .needs := by
        rintro rfl
        exact unneeds _ rfl rfl
      have strategy : field ≠ .strategy := by
        rintro rfl
        exact unstrategy _ rfl rfl
      have told := told.keeps ((maintains_resolve tame (maintains_jobKnown job) argument).run resolved)
      exact (told.set stored needs).note strategy noted

end Told

theorem told_of_assembled {call : Call} {job : Nat} {declared : Declared} {workspace : Workspace} (tame : Tame call)
    (assembled : Assembled call job declared workspace) : Told job declared workspace := by
  induction assembled with
  | fresh has new => exact ⟨has, by rw [new], by rw [new]; rfl, by rw [new]⟩
  | elsewhere _ has same told => exact told.elsewhere has same
  | called _ method arguments told => exact told.callJob tame method arguments
  | item _ value told => exact told.addStep tame value

/-- Steps that are made and changed in any way whatever keep the names known when they were made. -/
inductive Later (depth : Nat) : Workspace → Workspace → Prop
  | refl {workspace} : Later depth workspace workspace
  | evaluated {before between} (later : Later depth before between) (ambient : Ambient) (recipe : Recipe) :
      Later depth before ((evaluate (callWithin depth) ambient recipe).run between).2
  | called {before between} (later : Later depth before between) (value : Value) (method : String) (arguments : List Value) :
      Later depth before ((callMethod (callWithin depth) value method arguments).run between).2
  /-- Registers, functions and what is printed have no part in it. -/
  | beside {before between after} (later : Later depth before between) (same : after.store = between.store) :
      Later depth before after

theorem known_of_later {depth : Nat} {before after : Workspace} {step : Nat} (later : Later depth before after)
    (has : before.store.Has (.step step)) :
    after.store.Has (.step step) ∧ (after.store.step step).known = (before.store.step step).known := by
  induction later with
  | refl => exact ⟨has, rfl⟩
  | @evaluated between later ambient recipe ih =>
    have keeps : Keeps [] between.store _ := maintains_evaluate (tame_callWithin depth) ambient recipe between
    exact ⟨keeps.has _ ih.1, (keeps.known _ ih.1).trans ih.2⟩
  | @called between later value method arguments ih =>
    have keeps := maintains_callMethod (tame_callWithin depth) value method arguments (List.Subset.refl _) between
    exact ⟨keeps.has _ ih.1, (keeps.known _ ih.1).trans ih.2⟩
  | beside later same ih => rwa [same]

/-- Building starts with a call of the function in the workspace `entered`. -/
def Starts (build : Call → Build α) (workspace : Workspace) (function : Nat) (ambient : Ambient) (entered : Workspace) : Prop :=
  ∃ next : Value → Build α, ∀ call, (build call).run workspace = (call function ambient >>= next).run entered

theorem starts_setter {job : Nat} {workspace : Workspace} {known : Known} (told : (jobKnown job).run workspace = (.ok known, workspace))
    (field : JobField) (function : Nat) :
    Starts (callJob · job field.setter [.function function]) workspace function (.names known) workspace := by
  refine ⟨fun value => (do
    let value ← jobSetting field value
    modifyJob job (·.set field value)
    recordNames job field value
    return .job job), fun call => ?_⟩
  dsimp only
  rw [Told.callJob_setter, resolve, bind_assoc, run_bind_ok told]

theorem starts_builder {job : Nat} {workspace : Workspace} {known : Known} (told : (jobKnown job).run workspace = (.ok known, workspace))
    (function : Nat) :
    Starts (addStep · job (.function function)) workspace function (.object (.step workspace.store.steps.length))
      (workspace.withNewStep known) := by
  -- what is done with the step that the function gives is read off the definition
  exact ⟨_, fun call => by
    dsimp only [addStep]
    rw [run_bind_ok told]
    rfl⟩

theorem starts_stepSetter {step : Nat} {workspace : Workspace} {known : Known}
    (keeps : (workspace.store.step step).known = some known) (field : StepField) (function : Nat) :
    Starts (callStep · step field.setter [.function function]) workspace function (.names known) workspace := by
  have told : (stepKnown step).run workspace = (.ok known, workspace) := by
    show (Except.ok ((workspace.store.step step).known.getD {}), workspace) = _
    rw [keeps]
    rfl
  by_cases script : field = .run
  · subst script
    refine ⟨fun value => (do
      let items := (value.items?).getD [value]
      let lines ← items.mapM scriptLine
      modifyStep step (·.setScript lines items)
      return .step step), fun call => ?_⟩
    show ((stepKnown step >>= fun known => call function (.names known)) >>= _).run workspace = _
    rw [bind_assoc, run_bind_ok told]
  · refine ⟨fun value => (do
      modifyStep step (·.set field value)
      return .step step), fun call => ?_⟩
    have same : callStep call step field.setter [.function function] = (do
        let value ← resolve call (stepKnown step) (.function function)
        modifyStep step (·.set field value)
        return .step step) := by
      cases field <;> first | rfl | exact absurd rfl script
    dsimp only
    rw [same, resolve, bind_assoc, run_bind_ok told]

/-- A step that a builder is given to complete keeps the names that were known then, whatever happens later. -/
theorem starts_completed {depth : Nat} {workspace later : Workspace} {known : Known}
    (reached : Later depth (workspace.withNewStep known) later) (field : StepField) (function : Nat) :
    Starts (callStep · workspace.store.steps.length field.setter [.function function]) later function (.names known) later := by
  apply starts_stepSetter
  have has : (workspace.withNewStep known).store.Has (.step workspace.store.steps.length) := by
    simp [Workspace.withNewStep, Store.Has]
  rw [(known_of_later reached has).2]
  simp [Workspace.withNewStep, Store.step]

/-- The references of the next callbacks are checked against `known`: those of the job's setters, those of
a step that a builder is given to complete, and, whatever happens later, those of that step's setters. -/
structure Consults (job : Nat) (known : Known) (workspace : Workspace) : Prop where
  setters (field : JobField) (function : Nat) :
    Starts (callJob · job field.setter [.function function]) workspace function (.names known) workspace
  builders (function : Nat) : Starts (addStep · job (.function function)) workspace function
    (.object (.step workspace.store.steps.length)) (workspace.withNewStep known)
  completed {depth : Nat} {later : Workspace} (reached : Later depth (workspace.withNewStep known) later)
    (field : StepField) (function : Nat) :
    Starts (callStep · workspace.store.steps.length field.setter [.function function]) later function (.names known) later

/-- Every callback is refused before it is called. -/
structure Refuses (job : Nat) (failure : Failure) (workspace : Workspace) : Prop where
  setters (call : Call) (field : JobField) (function : Nat) :
    (callJob call job field.setter [.function function]).run workspace = (.error failure, workspace)
  builders (call : Call) (function : Nat) : (addStep call job (.function function)).run workspace = (.error failure, workspace)

theorem consults_or_refuses (job : Nat) (workspace : Workspace) :
    (∃ known, workspace.store.knownNames (workspace.store.job job) = .ok known ∧ Consults job known workspace) ∨
    ∃ failure, workspace.store.knownNames (workspace.store.job job) = .error failure ∧ Refuses job failure workspace := by
  have asked : (jobKnown job).run workspace = (workspace.store.knownNames (workspace.store.job job), workspace) :=
    run_ask_eq (fun store => store.knownNames (store.job job)) workspace
  rcases told : workspace.store.knownNames (workspace.store.job job) with failure | known
  · rw [told] at asked
    refine .inr ⟨failure, rfl, fun call field function => ?_, fun call function => ?_⟩
    · rw [Told.callJob_setter, resolve, bind_assoc, run_bind, asked]
    · rw [addStep, run_bind, asked]
  · rw [told] at asked
    exact .inl ⟨known, rfl, starts_setter asked, starts_builder asked, starts_completed⟩

/-- A job may be put together by any calls. From then on its callbacks are checked against the axes
named last, the needs set last and the ids that its steps have by now, and so, whatever happens
later, are those of a step that a builder is given to complete. Only if an output of a step with an id
cannot be looked up no callback is called at all. -/
theorem callbacks_check_declared {depth job : Nat} {declared : Declared} {workspace : Workspace}
    (assembled : Assembled (callWithin depth) job declared workspace)
    (texts : ∀ step ∈ declared.steps, (workspace.store.step step).id.isNull = true ∨ (workspace.store.step step).id.label?.isSome) :
    (∃ known ids, Checks known declared.axes declared.needs ids ∧
      (∀ id, id ∈ ids ↔ ∃ step ∈ declared.steps, (workspace.store.step step).id.chars? = some id) ∧
      (∀ (field : JobField) function,
        Starts (callJob · job field.setter [.function function]) workspace function (.names known) workspace) ∧
      (∀ function, Starts (addStep · job (.function function)) workspace function
        (.object (.step workspace.store.steps.length)) (workspace.withNewStep known)) ∧
      ∀ depth later, Later depth (workspace.withNewStep known) later → ∀ (field : StepField) function,
        Starts (callStep · workspace.store.steps.length field.setter [.function function]) later function (.names known) later) ∨
    (∃ step ∈ declared.steps, ¬ (workspace.store.step step).Tracked) ∧ ∃ failure, Refuses job failure workspace := by
  have told := told_of_assembled (tame_callWithin depth) assembled
  have ids : ∀ step ∈ workspace.store.jobSteps (workspace.store.job job), step.id.isNull = true ∨ step.id.label?.isSome := by
    simpa [Store.jobSteps, told.steps] using texts
  rcases consults_or_refuses job workspace with ⟨known, made, consults⟩ | ⟨failure, unmade, refuses⟩
  · obtain ⟨keys, axes, needs, steps, chars⟩ := Store.knownNames_texts ids made
    refine .inl ⟨known, keys.map Label.chars, ?_, fun id => ?_, consults.setters, consults.builders,
      fun depth later reached => consults.completed reached⟩
    · rw [← told.axes, ← told.needs, ← axes]
      exact checks_known needs steps
    · rw [chars]
      simp [Store.jobSteps, told.steps]
  · exact .inr ⟨by simpa [told.steps] using Store.exists_untracked unmade, failure, refuses⟩

/-- A step with an id beside a job that has been told nothing. -/
def drafted : Workspace where
  store := { steps := [Step.set {} .id (.text "version")], jobs := [{}] }

def needing : Workspace := ((callJob (callWithin 1) 0 "needs" [.text "build"]).run drafted).2

def stepping : Workspace := ((callJob (callWithin 1) 0 "step" [.step 0]).run needing).2

theorem assembled_stepping : Assembled (callWithin 1) 0 { needs := ["build"], steps := [0] } stepping := by
  have fresh : Assembled (callWithin 1) 0 {} drafted := .fresh (by decide) rfl
  exact (fresh.called "needs" [.text "build"]).called "step" [.step 0]

/-- A job that needs another one and has one step with an id. -/
theorem callbacks_check_stepping : ∃ known ids, Checks known (some []) ["build"] ids ∧ (∀ id, id ∈ ids ↔ id = "version") := by
  obtain ⟨known, ids, checks, members, -⟩ | ⟨⟨step, member, untracked⟩, -⟩ := callbacks_check_declared assembled_stepping (by
    intro step member
    cases List.mem_singleton.mp member
    exact .inr rfl)
  case inr =>
    cases List.mem_singleton.mp member
    exact absurd (by decide) untracked
  refine ⟨known, ids, checks, fun id => ?_⟩
  rw [members]
  have called : (stepping.store.step 0).id.chars? = some "version" := rfl
  simp [called, eq_comm]

/-- A step whose id is a number, in a job. -/
def numbered : Workspace :=
  ((callJob (callWithin 1) 0 "step" [.step 0]).run { store := { steps := [Step.set {} .id (.int 5)], jobs := [{}] } }).2

/-- Ids that are not texts cannot be told in a message: no name but theirs is refused as unknown. -/
theorem number_refused_for_type : Assembled (callWithin 1) 0 { steps := [0] } numbered ∧
    ∃ known, (jobKnown 0).run numbered = (.ok known, numbered) ∧
      ∀ accepted path, ¬ accepted → ¬ Settles (reference known "step" [.text "x"]) accepted path := by
  have fresh : Assembled (callWithin 1) 0 {} { store := { steps := [Step.set {} .id (.int 5)], jobs := [{}] } } :=
    .fresh (by decide) rfl
  refine ⟨fresh.called "step" [.step 0], _, rfl, fun accepted path refused settles => ?_⟩
  have mistyped : (reference { axes := some [], needs := some [], steps := some [.int 5], services := some [] } "step" [.text "x"]).run
      numbered = (.error (.ofCause .mistyped), numbered) := by
    simp [reference, requireKnown, Value.isKey, Value.equals, Value.sameSize, Value.sameChars, Value.size?, Value.chars?,
      Value.label?, run_bind]
    rfl
  rcases settles numbered with ⟨holds, -⟩ | ⟨-, failure, ran, category⟩
  · exact refused holds
  · cases mistyped.symm.trans ran
    cases category

end Build

end WorkflowCompiler
