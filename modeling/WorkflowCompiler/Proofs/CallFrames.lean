import WorkflowCompiler.Proofs.BuildFrames

/-! The frame of calls. A method changes the object that it is called on, a function the object
that it is given to complete, and evaluating a recipe changes none of the objects that there are. -/

namespace WorkflowCompiler

/-- The object that a value names. -/
def Value.target? : Value → Option Target
  | .expression identity => some (.expression identity)
  | .step identity => some (.step identity)
  | .job identity => some (.job identity)
  | .workflow identity => some (.workflow identity)
  | _ => none

/-- What a function called with `ambient` may change. -/
def Ambient.free : Ambient → List Target
  | .names _ => []
  | .object value => value.target?.toList

namespace Build

variable {free : List Target}

/-- Calls of functions change nothing but the object to complete. -/
def Tame (call : Call) : Prop := ∀ function ambient, Maintains ambient.free (call function ambient)

theorem Tame.names {call : Call} (tame : Tame call) (function : Nat) (known : Known) :
    Maintains free (call function (.names known)) :=
  (tame function (.names known)).mono (List.nil_subset _)

theorem Tame.step {call : Call} (tame : Tame call) (function : Nat) {step : Nat} (mine : .step step ∈ free) :
    Maintains free (call function (.object (.step step))) :=
  (tame function _).mono (by simpa [Ambient.free, Value.target?] using mine)

theorem Tame.job {call : Call} (tame : Tame call) (function : Nat) {job : Nat} (mine : .job job ∈ free) :
    Maintains free (call function (.object (.job job))) :=
  (tame function _).mono (by simpa [Ambient.free, Value.target?] using mine)

@[simp] theorem maintains_debugLine {line : Build String} (onLine : Maintains free line) : Maintains free (debugLine line) := by
  unfold debugLine
  apply maintains_bind onLine
  intro text
  apply maintains_bind maintains_get
  intro workspace
  apply maintains_ite <;> simp

@[simp] theorem maintains_scriptLine (value : Value) : Maintains free (scriptLine value) := by
  unfold scriptLine
  split
  · simp
  · simp
  · split <;> simp
  · apply maintains_ite <;> simp

@[simp] theorem maintains_stepKnown (identity : Nat) : Maintains free (stepKnown identity) := by
  simp [stepKnown]

@[simp] theorem maintains_jobKnown (identity : Nat) : Maintains free (jobKnown identity) := by
  simp [jobKnown]

section Calls

variable {call : Call} (tame : Tame call)
include tame

theorem maintains_resolve {known : Build Known} (onKnown : Maintains free known) (value : Value) :
    Maintains free (resolve call known value) := by
  unfold resolve
  split
  · exact maintains_bind onKnown fun _ => tame.names _ _
  · simp

theorem maintains_callStep {identity : Nat} (mine : .step identity ∈ free) (method : String) (arguments : List Value) :
    Maintains free (callStep call identity method arguments) := by
  unfold callStep
  split
  · apply maintains_bind (maintains_resolve tame (maintains_stepKnown identity) _)
    intro value
    apply maintains_bind (by simp)
    intro lines
    apply maintains_bind
    · exact maintains_modifyStep mine fun _ => rfl
    · simp
  · apply maintains_bind (maintains_resolve tame (maintains_stepKnown identity) _)
    intro value
    apply maintains_bind
    · exact maintains_modifyStep mine fun _ => rfl
    · simp
  · simp
  · simp

theorem maintains_addStep {job : Nat} (mine : .job job ∈ free) (value : Value) : Maintains free (addStep call job value) := by
  unfold addStep
  split
  · exact maintains_modifyJob mine _
  · apply maintains_bind (maintains_jobKnown job)
    intro known
    apply maintains_newStep_bind
    intro fresh
    apply maintains_bind (tame.step _ List.mem_cons_self)
    intro built
    split
    · exact maintains_modifyJob (List.mem_cons_of_mem _ mine) _
    · simp
  · simp

theorem maintains_addSteps {job : Nat} (mine : .job job ∈ free) (values : List Value) :
    Maintains free (addSteps call job values) := by
  induction values with
  | nil => simp [addSteps]
  | cons value rest ih => exact maintains_bind (maintains_addStep tame mine value) fun _ => ih

omit tame in
@[simp] theorem maintains_jobSetting (field : JobField) (value : Value) : Maintains free (jobSetting field value) := by
  unfold jobSetting
  split <;> simp

omit tame in
theorem maintains_recordNames {identity : Nat} (mine : .job identity ∈ free) (field : JobField) (value : Value) :
    Maintains free (recordNames identity field value) := by
  unfold recordNames
  split
  · apply maintains_bind (maintains_ask _)
    intro axes
    apply maintains_bind (maintains_modifyJob mine _)
    intro _
    exact maintains_debugLine (maintains_bind maintains_store (by simp))
  · apply maintains_bind (by simp)
    intro services
    exact maintains_modifyJob mine _
  · simp

theorem maintains_callJob {identity : Nat} (mine : .job identity ∈ free) (method : String) (arguments : List Value) :
    Maintains free (callJob call identity method arguments) := by
  unfold callJob
  split
  · exact maintains_bind (maintains_addStep tame mine _) (by simp)
  · exact maintains_bind (maintains_ofExcept _) fun _ => maintains_bind (maintains_addSteps tame mine _) (by simp)
  · apply maintains_bind (maintains_resolve tame (maintains_jobKnown identity) _)
    intro value
    apply maintains_bind (maintains_jobSetting _ value)
    intro stored
    apply maintains_bind (maintains_modifyJob mine _)
    intro _
    exact maintains_bind (maintains_recordNames mine _ stored) (by simp)
  · apply maintains_ite <;> simp

omit tame in
theorem maintains_addEvents {workflow : Nat} (mine : .workflow workflow ∈ free) (entries : List (Value × Value)) :
    Maintains free (addEvents workflow entries) := by
  induction entries with
  | nil => simp [addEvents]
  | cons entry rest ih =>
    unfold addEvents
    exact maintains_bind (maintains_ask _) fun _ => maintains_bind (maintains_modifyWorkflow mine _) fun _ => ih

omit tame in
theorem maintains_addEvent {workflow : Nat} (mine : .workflow workflow ∈ free) (event options : Value) :
    Maintains free (addEvent workflow event options) := by
  unfold addEvent
  split
  · apply maintains_ite
    · simp
    · exact maintains_bind (maintains_ofExcept _) fun entries => maintains_addEvents mine entries
  · exact maintains_bind (maintains_ask _) fun _ => maintains_modifyWorkflow mine _

theorem maintains_addJob {workflow : Nat} (mine : .workflow workflow ∈ free) (jobId value : Value) :
    Maintains free (addJob call workflow jobId value) := by
  have onPut : ∀ job, Maintains free (do
      let jobs ← ofExcept (Value.insertKey ((← store).workflow workflow).jobs jobId job)
      modifyWorkflow workflow fun workflow => { workflow with jobs }) := by
    intro job
    exact maintains_bind maintains_store fun _ => maintains_bind (maintains_ofExcept _) fun _ => maintains_modifyWorkflow mine _
  unfold addJob
  simp only [pure_bind, fail_bind]
  split
  · exact onPut _
  · apply maintains_newJob_bind
    intro fresh
    apply maintains_bind (tame.job _ List.mem_cons_self)
    intro built
    split
    · exact (onPut _).mono (List.subset_cons_self _ _)
    · simp
  · simp

theorem maintains_addJobs {workflow : Nat} (mine : .workflow workflow ∈ free) (entries : List (Value × Value)) :
    Maintains free (addJobs call workflow entries) := by
  induction entries with
  | nil => simp [addJobs]
  | cons entry rest ih => exact maintains_bind (maintains_addJob tame mine _ _) fun _ => ih

omit tame in
@[simp] theorem maintains_findJob (workflow : Nat) (jobId : Value) : Maintains free (findJob workflow jobId) := by
  unfold findJob
  apply maintains_ite
  · simp
  · apply maintains_bind maintains_store
    intro store
    split <;> simp

theorem maintains_callWorkflow {identity : Nat} (mine : .workflow identity ∈ free) (method : String) (arguments : List Value) :
    Maintains free (callWorkflow call identity method arguments) := by
  unfold callWorkflow
  split
  · exact maintains_bind (maintains_addEvent mine _ _) (by simp)
  · exact maintains_bind (maintains_addEvent mine _ _) (by simp)
  · exact maintains_bind (maintains_addJob tame mine _ _) (by simp)
  · exact maintains_bind (maintains_ofExcept _) fun _ => maintains_bind (maintains_addJobs tame mine _) (by simp)
  · simp
  · exact maintains_bind (maintains_modifyWorkflow mine _) (by simp)
  · split
    · apply maintains_bind (maintains_resolve tame (maintains_pure _) _)
      intro value
      exact maintains_bind (maintains_modifyWorkflow mine _) (by simp)
    · apply maintains_ite <;> simp

omit tame in
theorem maintains_addFragments {identity : Nat} (mine : .expression identity ∈ free) (values : List Value) :
    Maintains free (addFragments identity values) := by
  induction values with
  | nil => simp [addFragments]
  | cons value rest ih =>
    unfold addFragments
    apply maintains_bind (maintains_ofExcept _)
    intro fragment
    split
    · exact maintains_bind (maintains_modifyExpression mine _) fun _ => ih
    · exact ih

/-- A method changes no other object than the one that it is called on. -/
theorem maintains_callMethod (value : Value) (method : String) (arguments : List Value)
    (mine : value.target?.toList ⊆ free) : Maintains free (callMethod call value method arguments) := by
  unfold callMethod
  split
  · exact maintains_callStep tame (mine (List.mem_singleton_self _)) method arguments
  · exact maintains_callJob tame (mine (List.mem_singleton_self _)) method arguments
  · exact maintains_callWorkflow tame (mine (List.mem_singleton_self _)) method arguments
  · apply maintains_ite
    · exact maintains_bind (maintains_addFragments (mine (List.mem_singleton_self _)) arguments) (by simp)
    · simp
  · apply maintains_ite <;> simp
  · simp

end Calls

@[simp] theorem maintains_toStep (preset : Preset) (values : List Value) (named : List (String × Value)) :
    Maintains free (preset.toStep values named) := by
  unfold Preset.toStep
  apply maintains_bind (maintains_bindArguments _ _ _ _)
  intro arguments
  apply maintains_bind
  · apply maintains_mapM
    rintro ⟨name, input, default⟩
    dsimp only
    split <;> simp
  · intro own
    apply maintains_ite
    · rw [fail_bind]
      exact maintains_fail .mistyped
    · simp

@[simp] theorem maintains_copied (value : Value) : Maintains free (copied value) := by
  unfold copied
  apply maintains_bind (maintains_ofExcept _)
  intro truth
  apply maintains_ite <;> simp

@[simp] theorem maintains_settings (kind : EventKind) (arguments : List (String × Value)) :
    Maintains free (settings kind arguments) := by
  unfold settings
  apply maintains_mapM
  intro name
  split <;> simp

@[simp] theorem maintains_makeEvent (factory : Factory) (values : List Value) (named : List (String × Value)) :
    Maintains free (makeEvent factory values named) := by
  unfold makeEvent
  split
  · split <;> simp
  · apply maintains_bind (maintains_bindArguments _ _ _ _)
    simp
  · apply maintains_bind (maintains_bindArguments _ _ _ _)
    intro arguments
    apply maintains_bind (maintains_settings _ _)
    intro settings
    split <;> simp
  · simp
  · simp

theorem maintains_makeWorkflow_bind {name fileName : Value} {next : Nat → Build α}
    (onNext : ∀ fresh, Maintains (.workflow fresh :: free) (next fresh)) :
    Maintains free (makeWorkflow name fileName >>= next) := by
  unfold makeWorkflow
  simp only [bind_assoc]
  apply maintains_bind (maintains_ofExcept _)
  intro truth
  split
  · simp
  · simp only [pure_bind, fail_bind]
    split
    · exact maintains_newWorkflow_bind onNext
    · simp
    · exact maintains_newWorkflow_bind onNext

@[simp] theorem maintains_pathText (value : Value) : Maintains free (pathText value) := by
  unfold pathText
  split
  · simp
  · apply maintains_bind (maintains_ofExcept _)
    intro items
    split <;> simp
  · simp

@[simp] theorem maintains_newIdentity : Maintains free newIdentity := by
  unfold newIdentity
  apply maintains_bind maintains_get
  simp

@[simp] theorem maintains_newFunction (closure : Closure) : Maintains free (newFunction closure) := by
  unfold newFunction
  apply maintains_bind maintains_get
  simp

@[simp] theorem maintains_applyBuiltin (function : Builtin) (arguments : List Value) :
    Maintains free (applyBuiltin function arguments) := by
  unfold applyBuiltin
  split <;> simp

@[simp] theorem maintains_makeFailure (category : Category) (message : Value) (children : List Value) (collects : Bool) :
    Maintains free (makeFailure category message children collects) := by
  unfold makeFailure
  apply maintains_bind (maintains_ask _)
  intro message
  apply maintains_bind
  · apply maintains_mapM
    intro child
    split <;> simp
  · simp

/-- An object that has just been made may be changed. -/
theorem target_mem {value : Value} {target : Target} (named : value.target? = some target) :
    value.target?.toList ⊆ target :: free := by
  rw [named]
  exact List.cons_subset_cons target (List.nil_subset free)

section Evaluation

set_option linter.unusedSectionVars false

variable {call : Call} (tame : Tame call) (ambient : Ambient)
include tame

mutual

/-- Evaluation changes nothing that was there before. -/
theorem maintains_evaluate {free : List Target} (recipe : Recipe) : Maintains free (evaluate call ambient recipe) := by
  cases recipe with
  | value value => exact maintains_pure value
  | foreign => exact maintains_bind maintains_newIdentity fun _ => maintains_pure _
  | list items =>
    rw [evaluate]
    exact maintains_bind (maintains_evaluateAll items) fun _ => maintains_pure _
  | tuple items =>
    rw [evaluate]
    exact maintains_bind (maintains_evaluateAll items) fun _ => maintains_pure _
  | map entries =>
    rw [evaluate]
    exact maintains_bind (maintains_evaluateEntries entries) fun _ => maintains_bind (maintains_ofExcept _) fun _ => maintains_pure _
  | path segments =>
    rw [evaluate]
    exact maintains_bind (maintains_evaluateAll segments) fun _ => maintains_extend _ _
  | pathLike segments =>
    rw [evaluate]
    exact maintains_bind (maintains_evaluate segments) fun _ => maintains_bind maintains_newIdentity fun _ => maintains_pure _
  | append path segments =>
    rw [evaluate]
    exact maintains_bind (maintains_evaluate path) fun _ =>
      maintains_bind (maintains_evaluateAll segments) fun _ => maintains_appendTo _ _
  | attributes object names =>
    rw [evaluate]
    exact maintains_bind (maintains_evaluate object) fun _ => maintains_attributesOf _ _
  | contextPath root segments =>
    rw [evaluate]
    exact maintains_bind (maintains_contextRoot _ _) fun _ =>
      maintains_bind (maintains_evaluateAll segments) fun _ => maintains_index _ _
  | contextName helper arguments segments =>
    rw [evaluate]
    exact maintains_bind (maintains_evaluateAll arguments) fun _ => maintains_bind (maintains_contextReference _ _ _) fun _ =>
      maintains_bind (maintains_evaluateAll segments) fun _ => maintains_index _ _
  | apply function arguments =>
    rw [evaluate]
    exact maintains_bind (maintains_evaluateAll arguments) fun _ => maintains_applyBuiltin _ _
  | command kind arguments named =>
    rw [evaluate]
    exact maintains_bind (maintains_evaluateAll arguments) fun _ =>
      maintains_bind (maintains_evaluateNamed named) fun _ => maintains_directive _ _ _
  | preset kind arguments named operations =>
    rw [evaluate]
    apply maintains_bind (maintains_evaluateAll arguments)
    intro arguments
    apply maintains_bind (maintains_evaluateNamed named)
    intro named
    apply maintains_bind (maintains_toStep _ _ _)
    intro step
    apply maintains_newStep_bind
    intro fresh
    exact maintains_bind (maintains_performAll operations (.step fresh) (target_mem rfl)) fun _ => maintains_pure _
  | event factory arguments named =>
    rw [evaluate]
    exact maintains_bind (maintains_evaluateAll arguments) fun _ =>
      maintains_bind (maintains_evaluateNamed named) fun _ => maintains_makeEvent _ _ _
  | step known operations =>
    rw [evaluate]
    apply maintains_newStep_bind
    intro fresh
    exact maintains_bind (maintains_performAll operations (.step fresh) (target_mem rfl)) fun _ => maintains_pure _
  | job operations =>
    rw [evaluate]
    apply maintains_newJob_bind
    intro fresh
    exact maintains_bind (maintains_performAll operations (.job fresh) (target_mem rfl)) fun _ => maintains_pure _
  | workflow name fileName operations =>
    rw [evaluate]
    apply maintains_bind (maintains_evaluate name)
    intro name
    apply maintains_bind (maintains_evaluate fileName)
    intro fileName
    apply maintains_makeWorkflow_bind
    intro fresh
    exact maintains_bind (maintains_performAll operations (.workflow fresh) (target_mem rfl)) fun _ => maintains_pure _
  | builder => exact maintains_newFunction _
  | callback => exact maintains_newFunction _
  | register name =>
    rw [evaluate]
    apply maintains_bind maintains_get
    intro workspace
    split
    · exact maintains_pure _
    · exact maintains_fail _
  | failure category message children collects =>
    rw [evaluate]
    exact maintains_bind (maintains_evaluate message) fun _ =>
      maintains_bind (maintains_evaluateAll children) fun _ => maintains_makeFailure _ _ _ _

theorem maintains_evaluateAll {free : List Target} (recipes : List Recipe) : Maintains free (evaluateAll call ambient recipes) := by
  cases recipes with
  | nil => exact maintains_pure []
  | cons recipe rest =>
    unfold evaluateAll
    exact maintains_bind (maintains_evaluate recipe) fun _ => maintains_bind (maintains_evaluateAll rest) fun _ => maintains_pure _

theorem maintains_evaluateEntries {free : List Target} (entries : List (Recipe × Recipe)) :
    Maintains free (evaluateEntries call ambient entries) := by
  cases entries with
  | nil => exact maintains_pure []
  | cons entry rest =>
    unfold evaluateEntries
    exact maintains_bind (maintains_evaluateEntry entry) fun _ => maintains_bind (maintains_evaluateEntries rest) fun _ => maintains_pure _

theorem maintains_evaluateEntry {free : List Target} (entry : Recipe × Recipe) :
    Maintains free (evaluateEntry call ambient entry) := by
  obtain ⟨key, value⟩ := entry
  unfold evaluateEntry
  exact maintains_bind (maintains_evaluate key) fun _ => maintains_bind (maintains_evaluate value) fun _ => maintains_pure _

theorem maintains_evaluateNamed {free : List Target} (arguments : List (String × Recipe)) :
    Maintains free (evaluateNamed call ambient arguments) := by
  cases arguments with
  | nil => exact maintains_pure []
  | cons argument rest =>
    unfold evaluateNamed
    exact maintains_bind (maintains_evaluateArgument argument) fun _ => maintains_bind (maintains_evaluateNamed rest) fun _ => maintains_pure _

theorem maintains_evaluateArgument {free : List Target} (argument : String × Recipe) :
    Maintains free (evaluateArgument call ambient argument) := by
  obtain ⟨name, recipe⟩ := argument
  unfold evaluateArgument
  exact maintains_bind (maintains_evaluate recipe) fun _ => maintains_pure _

theorem maintains_performAll {free : List Target} (operations : List (String × List Recipe)) (value : Value)
    (mine : value.target?.toList ⊆ free) : Maintains free (performAll call ambient value operations) := by
  cases operations with
  | nil => exact maintains_pure ()
  | cons operation rest =>
    unfold performAll
    exact maintains_bind (maintains_perform operation value mine) fun _ => maintains_performAll rest value mine

theorem maintains_perform {free : List Target} (operation : String × List Recipe) (value : Value)
    (mine : value.target?.toList ⊆ free) : Maintains free (perform call ambient value operation) := by
  obtain ⟨method, arguments⟩ := operation
  unfold perform
  apply maintains_bind (maintains_evaluateAll arguments)
  intro arguments
  exact maintains_discard (maintains_callMethod tame value method arguments mine)

end

end Evaluation

theorem Ambient.target_subset (ambient : Ambient) : (ambientValue ambient).target?.toList ⊆ ambient.free := by
  cases ambient
  · exact List.nil_subset _
  · exact List.Subset.refl _

/-- However deep calls may nest, they are tame. -/
theorem tame_callWithin (depth : Nat) : Tame (callWithin depth) := by
  induction depth with
  | zero => exact fun function ambient => maintains_fail .endless
  | succ depth ih =>
    intro function argument
    unfold callWithin
    apply maintains_bind maintains_get
    intro workspace
    split
    · exact maintains_evaluate ih argument _
    · apply maintains_bind (maintains_performAll ih _ _ _ (Ambient.target_subset argument))
      intro _
      split
      · simp
      · exact maintains_evaluate ih _ _
    · simp

end Build

end WorkflowCompiler
