import Mathlib.Logic.Relation
import WorkflowCompiler.Proofs.SoundMethods

/-! What building does to jobs and workflows, one change after the other. Jobs and workflows come
about blank, the needs of a job are only ever set to texts, and a job only comes to a workflow under
its key. All else that building does leaves needs and jobs as they were. -/

namespace WorkflowCompiler

namespace Store

/-- One change of a store, as far as it is about jobs and workflows. -/
inductive Change : Store → Store → Prop
  | elsewhere {before after : Store} (jobs : after.jobs = before.jobs) (workflows : after.workflows = before.workflows) :
      Change before after
  | newJob (store : Store) : Change store { store with jobs := store.jobs ++ [{}] }
  | job (store : Store) (identity : Nat) (change : Job → Job) (needs : ∀ job, (change job).fields .needs = job.fields .needs) :
      Change store { store with jobs := store.jobs.modify identity change }
  | needs (store : Store) (identity : Nat) (names : List String) :
      Change store { store with jobs := store.jobs.modify identity (·.set .needs (.list (names.map .text))) }
  | newWorkflow (store : Store) (name fileName : Value) :
      Change store { store with workflows := store.workflows ++ [{ name, fileName }] }
  | workflow (store : Store) (identity : Nat) (change : Workflow → Workflow) (jobs : ∀ workflow, (change workflow).jobs = workflow.jobs) :
      Change store { store with workflows := store.workflows.modify identity change }
  | putJob (store : Store) (identity : Nat) (jobId : Value) (job : Nat) :
      Change store { store with
        workflows := store.workflows.modify identity ({ · with jobs := Value.insert jobId job (store.workflow identity).jobs }) }

abbrev Changes : Store → Store → Prop := Relation.ReflTransGen Change

end Store

namespace Build

open Store (Change Changes)

/-- Building that changes the store step by step. -/
def Traced (build : Build α) : Prop := ∀ workspace, Changes workspace.store (build.run workspace).2.store

theorem Reads.traced {build : Build α} (reads : Reads build) : Traced build := by
  intro workspace
  rw [reads]

@[simp] theorem traced_pure (value : α) : Traced (pure value) := (reads_pure value).traced

@[simp] theorem traced_fail (cause : Cause) : Traced (fail cause : Build α) := (reads_fail cause).traced

@[simp] theorem traced_ask (question : Store → Except Failure α) : Traced (ask question) := (reads_ask question).traced

@[simp] theorem traced_ofExcept (result : Except Failure α) : Traced (ofExcept result) := (reads_ofExcept result).traced

@[simp] theorem traced_store : Traced store := reads_store.traced

@[simp] theorem traced_get : Traced (get : Build Workspace) := reads_get.traced

@[simp] theorem traced_modify {change : Workspace → Workspace} (same : ∀ workspace, (change workspace).store = workspace.store) :
    Traced (modify change : Build Unit) := by
  intro workspace
  show Changes workspace.store (change workspace).store
  rw [same]

/-- What comes second may count on what the first part gives. -/
theorem traced_bind_given {good : α → Prop} {first : Build α} {next : α → Build β} (onFirst : Traced first)
    (gives : ∀ workspace value after, first.run workspace = (.ok value, after) → good value)
    (onNext : ∀ value, good value → Traced (next value)) : Traced (first >>= next) := by
  intro workspace
  have changes := onFirst workspace
  rcases ran : (first >>= next).run workspace with ⟨result, after⟩
  rcases run_bind_cases ran with ⟨failure, failed, -⟩ | ⟨value, between, made, rest⟩
  · rwa [failed] at changes
  · rw [made] at changes
    have more := onNext value (gives workspace value between made) between
    rw [rest] at more
    exact changes.trans more

@[simp] theorem traced_bind {first : Build α} {next : α → Build β} (onFirst : Traced first) (onNext : ∀ value, Traced (next value)) :
    Traced (first >>= next) :=
  traced_bind_given onFirst (fun _ _ _ _ => trivial) fun value _ => onNext value

@[simp] theorem traced_map {change : α → β} {build : Build α} (traced : Traced build) : Traced (change <$> build) := by
  rw [map_eq_pure_bind]
  exact traced_bind traced fun _ => traced_pure _

@[simp] theorem traced_ite {condition : Prop} {_ : Decidable condition} {first second : Build α} (onFirst : Traced first)
    (onSecond : Traced second) : Traced (if condition then first else second) := by
  split
  · exact onFirst
  · exact onSecond

@[simp] theorem traced_mapM {each : α → Build β} {items : List α} (onEach : ∀ item, Traced (each item)) : Traced (items.mapM each) := by
  induction items with
  | nil => simp
  | cons item items ih =>
    rw [List.mapM_cons]
    exact traced_bind (onEach item) fun _ => traced_bind ih fun _ => traced_pure _

@[simp] theorem traced_newExpression (expression : Expression) : Traced (newExpression expression) :=
  fun _ => .single (.elsewhere rfl rfl)

@[simp] theorem traced_newStep (step : Step) : Traced (newStep step) := fun _ => .single (.elsewhere rfl rfl)

@[simp] theorem traced_newJob : Traced (newJob {}) := fun _ => .single (.newJob _)

@[simp] theorem traced_newWorkflow (name fileName : Value) : Traced (newWorkflow { name, fileName }) :=
  fun _ => .single (.newWorkflow _ name fileName)

@[simp] theorem traced_modifyExpression (identity : Nat) (change : Expression → Expression) : Traced (modifyExpression identity change) :=
  fun _ => .single (.elsewhere rfl rfl)

@[simp] theorem traced_modifyStep (identity : Nat) (change : Step → Step) : Traced (modifyStep identity change) :=
  fun _ => .single (.elsewhere rfl rfl)

theorem traced_modifyJob (identity : Nat) {change : Job → Job} (needs : ∀ job, (change job).fields .needs = job.fields .needs) :
    Traced (modifyJob identity change) :=
  fun _ => .single (.job _ identity change needs)

theorem traced_modifyWorkflow (identity : Nat) {change : Workflow → Workflow} (jobs : ∀ workflow, (change workflow).jobs = workflow.jobs) :
    Traced (modifyWorkflow identity change) :=
  fun _ => .single (.workflow _ identity change jobs)

/-! Much of building only looks at the store. -/

theorem reads_extend (segments : List Label) (more : List Value) : Reads (extend segments more) :=
  reads_bind (reads_mapM reads_segment) fun _ => reads_pure _

theorem reads_appendTo (value : Value) (more : List Value) : Reads (appendTo value more) := by
  unfold appendTo
  split
  · exact reads_extend _ _
  · exact reads_fail _

theorem reads_index (value : Value) (keys : List Value) : Reads (index value keys) := by
  induction keys generalizing value with
  | nil => exact reads_pure value
  | cons key rest ih =>
    unfold index
    split
    · exact reads_bind (reads_extend _ _) fun _ => ih _
    · exact reads_fail _

theorem reads_attributeOf (value : Value) (name : String) : Reads (attributeOf value name) := by
  unfold attributeOf
  split
  · exact reads_ite (reads_pure _) (reads_ite (reads_pure _) (reads_ite (reads_ite (reads_pure _) (reads_fail _)) (reads_extend _ _)))
  · exact reads_fail _

theorem reads_attributesOf (value : Value) (names : List String) : Reads (attributesOf value names) := by
  induction names generalizing value with
  | nil => exact reads_pure value
  | cons name rest ih => exact reads_bind (reads_attributeOf value name) fun _ => ih _

theorem reads_reference (known : Known) (helper : String) (arguments : List Value) : Reads (reference known helper arguments) := by
  have requireStep (id : Value) : Reads (do
      if known.steps.isSome && !id.isKey then fail .mistyped
      requireKnown "step id" id known.steps) :=
    reads_ite (by rw [fail_bind]; exact reads_fail _) (reads_requireKnown _ _ _)
  unfold reference
  split
  · exact reads_bind (reads_requireKnown _ _ _) fun _ => reads_extend _ _
  · exact reads_bind (reads_requireKnown _ _ _) fun _ => reads_extend _ _
  · exact reads_bind (requireStep _) fun _ => reads_extend _ _
  · exact reads_bind (requireStep _) fun _ => reads_bind (reads_extend _ _) fun _ => reads_index _ _
  · exact reads_bind (reads_requireKnown _ _ _) fun _ => reads_extend _ _
  · exact reads_extend _ _
  · exact reads_extend _ _
  · exact reads_extend _ _
  · exact reads_ite (reads_fail _) (reads_fail _)

theorem reads_contextRoot (ambient : Ambient) (name : String) : Reads (contextRoot ambient name) := by
  unfold contextRoot
  split
  · exact reads_ite (reads_pure _) (reads_fail _)
  · exact reads_attributeOf _ _

theorem reads_contextReference (ambient : Ambient) (helper : String) (arguments : List Value) :
    Reads (contextReference ambient helper arguments) := by
  unfold contextReference
  split
  · exact reads_reference _ _ _
  · exact reads_fail _

theorem reads_bindArguments (positional names : List String) (values : List Value) (named : List (String × Value)) :
    Reads (bindArguments positional names values named) := by
  unfold bindArguments
  refine reads_ite (by rw [fail_bind]; exact reads_fail _) (reads_bind ?_ fun _ => reads_pure _)
  exact reads_forIn fun _ _ => reads_ite (by simp) (by simp)

theorem reads_argument (arguments : List (String × Value)) (name : String) : Reads (argument arguments name) := by
  unfold argument
  split <;> simp

theorem reads_directive (kind : CommandKind) (values : List Value) (named : List (String × Value)) :
    Reads (directive kind values named) := by
  cases kind with
  | debug | mask =>
    refine reads_bind (reads_bindArguments _ _ _ _) fun _ => reads_bind (reads_argument _ _) fun _ => ?_
    exact reads_bind (reads_lineText _) fun _ => reads_pure _
  | notice =>
    refine reads_bind (reads_bindArguments _ _ _ _) fun _ => reads_bind (reads_argument _ _) fun _ => ?_
    refine reads_bind (reads_mapM fun property => reads_bind (reads_lineText _) fun _ => reads_pure _) fun _ => ?_
    exact reads_bind (reads_lineText _) fun _ => reads_pure _
  | output | env =>
    refine reads_bind (reads_bindArguments _ _ _ _) fun _ => reads_bind (reads_argument _ _) fun _ => ?_
    exact reads_bind (reads_argument _ _) fun _ => reads_bind (reads_setting _ _ _) fun _ => reads_pure _
  | group =>
    refine reads_bind (reads_bindArguments _ _ _ _) fun _ => reads_bind (reads_ask _) fun _ => ?_
    exact reads_bind (reads_argument _ _) fun _ => reads_bind (reads_ofExcept _) fun _ => reads_pure _
  | verbatim => exact reads_bind (reads_bindArguments _ _ _ _) fun _ => reads_bind (reads_argument _ _) fun _ => reads_pure _

theorem reads_copied (value : Value) : Reads (copied value) :=
  reads_bind (reads_ofExcept _) fun _ => reads_ite (reads_bind (reads_ofExcept _) fun _ => reads_pure _) (reads_pure _)

theorem reads_settings (kind : EventKind) (arguments : List (String × Value)) : Reads (settings kind arguments) := by
  refine reads_mapM fun name => ?_
  split <;> simp

theorem reads_makeEvent (factory : Factory) (values : List Value) (named : List (String × Value)) :
    Reads (makeEvent factory values named) := by
  have copies (kind : EventKind) (settings : List Value) : Reads (do return Value.event kind (← settings.mapM copied)) :=
    reads_bind (reads_mapM reads_copied) fun _ => reads_pure _
  unfold makeEvent
  split
  · split <;> simp
  · refine reads_bind (reads_bindArguments _ _ _ _) fun _ => reads_bind (reads_argument _ _) fun _ => ?_
    exact reads_bind (reads_ofExcept _) fun _ => reads_pure _
  · refine reads_bind (reads_bindArguments _ _ _ _) fun _ => reads_bind (reads_settings _ _) fun settings => ?_
    split
    · exact copies _ settings
    · exact copies _ settings
    · exact reads_pure _
  · exact reads_bind (reads_bindArguments _ _ _ _) fun _ => reads_bind (reads_settings _ _) fun _ => reads_pure _
  · exact reads_bind (reads_bindArguments _ _ _ _) fun _ => reads_pure _

theorem reads_toStep (preset : Preset) (values : List Value) (named : List (String × Value)) : Reads (preset.toStep values named) := by
  refine reads_bind (reads_bindArguments _ _ _ _) fun arguments => reads_bind ?_ fun own => ?_
  · refine reads_mapM fun ⟨name, input, default⟩ => ?_
    dsimp only
    split <;> simp
  · exact reads_ite (by rw [fail_bind]; exact reads_fail _) (reads_pure _)

theorem reads_pathText (value : Value) : Reads (pathText value) := by
  unfold pathText
  split
  · simp
  · refine reads_bind (reads_ofExcept _) fun items => ?_
    split <;> simp
  · simp

/-! Expressions come about without a change of jobs or workflows. -/

@[simp] theorem traced_compose (compound : Bool) (values : List Value) : Traced (compose compound values) := by
  simp [compose]

mutual

theorem traced_literal (value : Value) : Traced (literal value) := by
  unfold literal
  split
  case h_4 items => exact traced_bind (traced_literals items) (by simp)
  case h_5 items => exact traced_bind (traced_literals items) (by simp)
  case h_6 => split <;> simp
  all_goals simp

theorem traced_literals (values : List Value) : Traced (literals values) := by
  cases values with
  | nil => simp [literals]
  | cons value rest =>
    unfold literals
    exact traced_bind (traced_literal value) fun _ => traced_bind (traced_literals rest) (by simp)

end

attribute [simp] traced_literal traced_literals

@[simp] theorem traced_binary (left : Value) (operator : Operator) (right : Value) : Traced (binary left operator right) := by
  simp [binary]

@[simp] theorem traced_group (value : Value) : Traced (group value) := by
  simp [group]

@[simp] theorem traced_operand (value : Value) : Traced (operand value) := by
  unfold operand
  split
  · exact traced_bind traced_store fun _ => traced_ite (traced_group _) (traced_pure _)
  · simp

@[simp] theorem traced_runnerCall (name : String) (arguments : List Value) : Traced (runnerCall name arguments) := by
  simp [runnerCall]

@[simp] theorem traced_combineDigits (operation : (width : Nat) → BitVec width → BitVec width → BitVec width) (left right : Value) :
    Traced (combineDigits operation left right) := by
  unfold combineDigits
  split <;> simp

@[simp] theorem traced_conjoin (left right : Value) : Traced (conjoin left right) := by
  unfold conjoin conjunction
  apply traced_ite <;> simp

@[simp] theorem traced_disjoin (left right : Value) : Traced (disjoin left right) := by
  unfold disjoin
  split
  · simp
  · simp
  · unfold disjunction
    apply traced_ite <;> simp

@[simp] theorem traced_invert (value : Value) : Traced (invert value) := by
  unfold invert
  split
  · simp [negation]
  · split <;> simp

@[simp] theorem traced_interpolated (value : Value) : Traced (interpolated value) := by
  unfold interpolated
  apply traced_bind (traced_compose _ _)
  intro value
  split <;> simp

@[simp] theorem traced_concatenation (values : List Value) : Traced (concatenation values) := by
  induction values with
  | nil => simp [concatenation]
  | cons value rest ih =>
    unfold concatenation
    split <;> simp [ih]

@[simp] theorem traced_makeWorkflow (name fileName : Value) : Traced (makeWorkflow name fileName) := by
  unfold makeWorkflow
  refine traced_bind (traced_ofExcept _) fun named => traced_ite (by simp) ?_
  split <;> simp

@[simp] theorem traced_newIdentity : Traced newIdentity := by
  unfold newIdentity
  exact traced_bind traced_get (by simp)

@[simp] theorem traced_newFunction (closure : Closure) : Traced (newFunction closure) := by
  unfold newFunction
  exact traced_bind traced_get (by simp)

@[simp] theorem traced_applyBuiltin (function : Builtin) (arguments : List Value) : Traced (applyBuiltin function arguments) := by
  unfold applyBuiltin
  split
  case h_4 =>
    unfold binaryNamed
    split <;> simp
  case h_23 => exact (reads_pathText _).traced
  case h_25 => exact traced_map (reads_lineText _).traced
  all_goals simp [negation]

@[simp] theorem traced_makeFailure (category : Category) (message : Value) (children : List Value) (collects : Bool) :
    Traced (makeFailure category message children collects) := by
  unfold makeFailure
  refine traced_bind (traced_ask _) fun message => traced_bind ?_ (by simp)
  apply traced_mapM
  intro child
  split <;> simp

@[simp] theorem traced_debugLine {line : Build String} (onLine : Traced line) : Traced (debugLine line) := by
  unfold debugLine
  exact traced_bind onLine fun _ => traced_bind traced_get fun _ => traced_ite (by simp) (by simp)

@[simp] theorem traced_scriptLine (value : Value) : Traced (scriptLine value) := (reads_scriptLine value).traced

@[simp] theorem traced_jobSetting (field : JobField) (value : Value) : Traced (jobSetting field value) :=
  (reads_jobSetting field value).traced

/-- Needs are stored as texts. -/
theorem jobSetting_needs {value stored : Value} {workspace after : Workspace}
    (made : (jobSetting .needs value).run workspace = (.ok stored, after)) : ∃ names : List String, stored = .list (names.map .text) := by
  unfold jobSetting at made
  rcases run_bind_cases made with ⟨failure, -, failed⟩ | ⟨names, between, -, rest⟩
  · cases failed
  · cases rest
    exact ⟨names, rfl⟩

theorem traced_set (identity : Nat) (field : JobField) {stored : Value}
    (texts : field = .needs → ∃ names : List String, stored = .list (names.map .text)) : Traced (modifyJob identity (·.set field stored)) := by
  by_cases needs : field = .needs
  · obtain ⟨names, rfl⟩ := texts needs
    subst needs
    exact fun _ => .single (.needs _ identity names)
  · exact traced_modifyJob identity fun job => if_neg (Ne.symm needs)

theorem traced_recordNames (identity : Nat) (field : JobField) (value : Value) : Traced (recordNames identity field value) := by
  unfold recordNames
  split
  · refine traced_bind (traced_ask _) fun axes => traced_bind (traced_modifyJob identity fun _ => rfl) fun _ => ?_
    exact traced_debugLine (traced_bind traced_store (by simp))
  · exact traced_bind (by simp) fun _ => traced_modifyJob identity fun _ => rfl
  · simp

theorem traced_addFragments (identity : Nat) (values : List Value) : Traced (addFragments identity values) := by
  induction values with
  | nil => simp [addFragments]
  | cons value rest ih =>
    unfold addFragments
    refine traced_bind (traced_ofExcept _) fun fragment => ?_
    split
    · exact traced_bind (traced_modifyExpression _ _) fun _ => ih
    · exact ih

theorem traced_addEvents (workflow : Nat) (entries : List (Value × Value)) : Traced (addEvents workflow entries) := by
  induction entries with
  | nil => simp [addEvents]
  | cons entry rest ih =>
    unfold addEvents
    exact traced_bind (traced_ask _) fun _ => traced_bind (traced_modifyWorkflow workflow fun _ => rfl) fun _ => ih

theorem traced_addEvent (workflow : Nat) (event options : Value) : Traced (addEvent workflow event options) := by
  unfold addEvent
  split
  · exact traced_ite (by simp) (traced_bind (traced_ofExcept _) fun entries => traced_addEvents workflow entries)
  · exact traced_bind (traced_ask _) fun _ => traced_modifyWorkflow workflow fun _ => rfl

/-- A job comes to a workflow under a key, or not at all. -/
theorem traced_putJob (workflow : Nat) (jobId : Value) (job : Nat) : Traced (do
    let jobs ← ofExcept (Value.insertKey ((← store).workflow workflow).jobs jobId job)
    modifyWorkflow workflow fun workflow => { workflow with jobs }) := by
  intro workspace
  rw [run_bind, run_store]
  dsimp only
  unfold Value.insertKey
  split
  · exact .single (.putJob _ workflow jobId job)
  · exact .refl

theorem traced_findJob (workflow : Nat) (jobId : Value) : Traced (findJob workflow jobId) := by
  unfold findJob
  refine traced_ite (by simp) (traced_bind traced_store fun store => ?_)
  split <;> simp

section Calls

variable {call : Call} (traced : ∀ function ambient, Traced (call function ambient))
include traced

theorem traced_resolve {known : Build Known} (reads : Reads known) (value : Value) : Traced (resolve call known value) := by
  unfold resolve
  split
  · exact traced_bind reads.traced fun _ => traced _ _
  · simp

theorem traced_callStep (identity : Nat) (method : String) (arguments : List Value) : Traced (callStep call identity method arguments) := by
  unfold callStep
  split
  · exact traced_bind (traced_resolve traced (reads_stepKnown identity) _) (by simp)
  · exact traced_bind (traced_resolve traced (reads_stepKnown identity) _) (by simp)
  · simp
  · simp

theorem traced_addStep (job : Nat) (value : Value) : Traced (addStep call job value) := by
  unfold addStep
  split
  · exact traced_modifyJob job fun _ => rfl
  · refine traced_bind (reads_jobKnown job).traced fun known => traced_bind (traced_newStep _) fun fresh => ?_
    refine traced_bind (traced _ _) fun built => ?_
    split
    · exact traced_modifyJob job fun _ => rfl
    · simp
  · simp

theorem traced_addSteps (job : Nat) (values : List Value) : Traced (addSteps call job values) := by
  induction values with
  | nil => simp [addSteps]
  | cons value rest ih => exact traced_bind (traced_addStep traced job value) fun _ => ih

theorem traced_callJob (identity : Nat) (method : String) (arguments : List Value) : Traced (callJob call identity method arguments) := by
  unfold callJob
  split
  · exact traced_bind (traced_addStep traced identity _) (by simp)
  · exact traced_bind (traced_ofExcept _) fun _ => traced_bind (traced_addSteps traced identity _) (by simp)
  · next field _ _ _ _ =>
    refine traced_bind (traced_resolve traced (reads_jobKnown identity) _) fun value => ?_
    have texts : ∀ workspace stored after, (jobSetting field value).run workspace = (.ok stored, after) →
        field = .needs → ∃ names : List String, stored = .list (names.map .text) := by
      rintro workspace stored after made rfl
      exact jobSetting_needs made
    refine traced_bind_given (traced_jobSetting field value) texts fun stored texts => ?_
    exact traced_bind (traced_set identity field texts) fun _ => traced_bind (traced_recordNames identity field stored) (by simp)
  · exact traced_ite (by simp) (by simp)

theorem traced_addJob (workflow : Nat) (jobId value : Value) : Traced (addJob call workflow jobId value) := by
  unfold addJob
  simp only [pure_bind, fail_bind]
  split
  · exact traced_putJob workflow jobId _
  · refine traced_bind traced_newJob fun fresh => traced_bind (traced _ _) fun built => ?_
    split
    · exact traced_putJob workflow jobId _
    · exact traced_bind (traced_ask _) fun _ => traced_fail _
  · exact traced_bind (traced_ask _) fun _ => traced_fail _

theorem traced_addJobs (workflow : Nat) (entries : List (Value × Value)) : Traced (addJobs call workflow entries) := by
  induction entries with
  | nil => simp [addJobs]
  | cons entry rest ih => exact traced_bind (traced_addJob traced workflow _ _) fun _ => ih

theorem traced_callWorkflow (identity : Nat) (method : String) (arguments : List Value) :
    Traced (callWorkflow call identity method arguments) := by
  unfold callWorkflow
  split
  · exact traced_bind (traced_addEvent identity _ _) (by simp)
  · exact traced_bind (traced_addEvent identity _ _) (by simp)
  · exact traced_bind (traced_addJob traced identity _ _) (by simp)
  · exact traced_bind (traced_ofExcept _) fun _ => traced_bind (traced_addJobs traced identity _) (by simp)
  · exact traced_findJob identity _
  · exact traced_bind (traced_modifyWorkflow identity fun _ => rfl) (by simp)
  · split
    · refine traced_bind (traced_resolve traced (reads_pure _) _) fun value => ?_
      exact traced_bind (traced_modifyWorkflow identity fun _ => rfl) (by simp)
    · exact traced_ite (by simp) (by simp)

/-- Whatever method is called, jobs and workflows change one change after the other. -/
theorem traced_callMethod (value : Value) (method : String) (arguments : List Value) : Traced (callMethod call value method arguments) := by
  unfold callMethod
  split
  · exact traced_callStep traced _ method arguments
  · exact traced_callJob traced _ method arguments
  · exact traced_callWorkflow traced _ method arguments
  · exact traced_ite (traced_bind (traced_addFragments _ arguments) (by simp)) (by simp)
  · exact traced_ite (reads_extend _ _).traced (traced_bind (traced_map (reads_attributeOf _ _).traced) fun _ => traced_fail _)
  · simp

end Calls

end Build

end WorkflowCompiler
