import WorkflowCompiler.Proofs.BuildRuns

/-! What building leaves as it was. A step of building may only change the objects that it is
given to change and those that it makes itself: whatever else the store holds stays the same, and
every step keeps the names that its callbacks may refer to. -/

namespace WorkflowCompiler

namespace Store

/-- Whether there is such an object. -/
def Has (store : Store) : Target → Prop
  | .expression identity => identity < store.expressions.length
  | .step identity => identity < store.steps.length
  | .job identity => identity < store.jobs.length
  | .workflow identity => identity < store.workflows.length

instance (store : Store) : (target : Target) → Decidable (store.Has target)
  | .expression identity => inferInstanceAs (Decidable (identity < store.expressions.length))
  | .step identity => inferInstanceAs (Decidable (identity < store.steps.length))
  | .job identity => inferInstanceAs (Decidable (identity < store.jobs.length))
  | .workflow identity => inferInstanceAs (Decidable (identity < store.workflows.length))

/-- Whether an object is the same in both stores. -/
def Same (before after : Store) : Target → Prop
  | .expression identity => after.expression identity = before.expression identity
  | .step identity => after.step identity = before.step identity
  | .job identity => after.job identity = before.job identity
  | .workflow identity => after.workflow identity = before.workflow identity

theorem Same.refl (store : Store) (target : Target) : Same store store target := by
  cases target <;> rfl

theorem Same.trans {before between after : Store} {target : Target} (first : Same before between target)
    (second : Same between after target) : Same before after target := by
  cases target <;> exact Eq.trans second first

/-- Of the objects in `before`, only those in `free` may differ in `after`. -/
structure Keeps (free : List Target) (before after : Store) : Prop where
  has : ∀ target, before.Has target → after.Has target
  same : ∀ target, before.Has target → target ∉ free → Same before after target
  known : ∀ step, before.Has (.step step) → (after.step step).known = (before.step step).known

namespace Keeps

theorem refl (free : List Target) (store : Store) : Keeps free store store :=
  ⟨fun _ has => has, fun target _ _ => Same.refl store target, fun _ _ => rfl⟩

/-- The second change may also touch what the first one made. -/
theorem trans_fresh {free more : List Target} {before between after : Store} (first : Keeps free before between)
    (second : Keeps more between after) (fresh : ∀ target ∈ more, target ∈ free ∨ ¬ before.Has target) :
    Keeps free before after where
  has target has := second.has target (first.has target has)
  same target has fixed := by
    apply (first.same target has fixed).trans
    apply second.same target (first.has target has)
    intro touched
    rcases fresh target touched with free | unmade
    · exact fixed free
    · exact unmade has
  known step has := (second.known step (first.has _ has)).trans (first.known step has)

theorem trans {free : List Target} {before between after : Store} (first : Keeps free before between)
    (second : Keeps free between after) : Keeps free before after :=
  first.trans_fresh second fun _ touched => .inl touched

theorem mono {free more : List Target} {before after : Store} (keeps : Keeps free before after)
    (within : free ⊆ more) : Keeps more before after where
  has := keeps.has
  same target has fixed := keeps.same target has fun touched => fixed (within touched)
  known := keeps.known

end Keeps

end Store

namespace Build

open Store (Keeps Same)

def Maintains (free : List Target) (build : Build α) : Prop :=
  ∀ workspace, Keeps free workspace.store (build.run workspace).2.store

variable {free : List Target}

theorem Maintains.mono {more : List Target} {build : Build α} (maintains : Maintains free build)
    (within : free ⊆ more) : Maintains more build :=
  fun workspace => (maintains workspace).mono within

@[simp] theorem maintains_pure (value : α) : Maintains free (pure value : Build α) :=
  fun workspace => .refl free workspace.store

@[simp] theorem maintains_fail (cause : Cause) : Maintains free (fail cause : Build α) :=
  fun workspace => .refl free workspace.store

@[simp] theorem fail_bind (cause : Cause) (next : α → Build β) : fail cause >>= next = fail cause := rfl

@[simp] theorem maintains_ofExcept (result : Except Failure α) : Maintains free (ofExcept result) := by
  cases result <;> exact fun workspace => .refl free workspace.store

theorem run_ask_snd (question : Store → Except Failure α) (workspace : Workspace) :
    ((ask question).run workspace).2 = workspace := by
  show ((ofExcept (question workspace.store)).run workspace).2 = workspace
  cases question workspace.store <;> rfl

@[simp] theorem maintains_ask (question : Store → Except Failure α) : Maintains free (ask question) := by
  intro workspace
  rw [run_ask_snd]
  exact .refl free workspace.store

@[simp] theorem maintains_get : Maintains free (get : Build Workspace) :=
  fun workspace => .refl free workspace.store

@[simp] theorem maintains_store : Maintains free store :=
  fun workspace => .refl free workspace.store

@[simp] theorem maintains_modify {change : Workspace → Workspace} (same : ∀ workspace, (change workspace).store = workspace.store) :
    Maintains free (modify change : Build Unit) := by
  intro workspace
  show Keeps free workspace.store (change workspace).store
  rw [same]
  exact .refl free workspace.store

theorem maintains_bind_fresh {more : α → List Target} {first : Build α} {next : α → Build β}
    (onFirst : Maintains free first) (onNext : ∀ value, Maintains (more value) (next value))
    (fresh : ∀ workspace value after, first.run workspace = (.ok value, after) →
      ∀ target ∈ more value, target ∈ free ∨ ¬ workspace.store.Has target) :
    Maintains free (first >>= next) := by
  intro workspace
  have keeps := onFirst workspace
  have made := fresh workspace
  rw [run_bind]
  revert keeps made
  rcases first.run workspace with ⟨_ | value, after⟩
  · exact fun keeps _ => keeps
  · exact fun keeps made => keeps.trans_fresh (onNext value after) (made value after rfl)

@[simp] theorem maintains_bind {first : Build α} {next : α → Build β} (onFirst : Maintains free first)
    (onNext : ∀ value, Maintains free (next value)) : Maintains free (first >>= next) :=
  maintains_bind_fresh onFirst onNext fun _ _ _ _ _ touched => .inl touched

@[simp] theorem maintains_map {change : α → β} {build : Build α} (maintains : Maintains free build) :
    Maintains free (change <$> build) := by
  rw [map_eq_pure_bind]
  exact maintains_bind maintains fun _ => maintains_pure _

@[simp] theorem maintains_discard {build : Build α} (maintains : Maintains free build) : Maintains free (discard build) :=
  maintains_map maintains

@[simp] theorem maintains_ite {condition : Prop} {_ : Decidable condition} {first second : Build α}
    (onFirst : Maintains free first) (onSecond : Maintains free second) :
    Maintains free (if condition then first else second) := by
  split
  · exact onFirst
  · exact onSecond

@[simp] theorem maintains_mapM {each : α → Build β} {items : List α} (onEach : ∀ item, Maintains free (each item)) :
    Maintains free (items.mapM each) := by
  induction items with
  | nil => simp
  | cons item items ih =>
    rw [List.mapM_cons]
    exact maintains_bind (onEach item) fun _ => maintains_bind ih fun _ => maintains_pure _

theorem getD_of_isPrefix {items more : List α} {position : Nat} (start : items <+: more) (inside : position < items.length)
    (default : α) : more.getD position default = items.getD position default := by
  obtain ⟨rest, rfl⟩ := start
  rw [List.getD_eq_getElem?_getD, List.getElem?_append_left inside, List.getD_eq_getElem?_getD]

theorem getD_modify_ne {position other : Nat} (change : α → α) (items : List α) (default : α) (different : position ≠ other) :
    (items.modify position change).getD other default = items.getD other default := by
  simp [List.getD_eq_getElem?_getD, different]

/-- A store that only has more objects. -/
theorem keeps_of_grown {before after : Store} (expressions : before.expressions <+: after.expressions)
    (steps : before.steps <+: after.steps) (jobs : before.jobs <+: after.jobs)
    (workflows : before.workflows <+: after.workflows) : Keeps free before after where
  has target has := by
    cases target
    · exact Nat.lt_of_lt_of_le has expressions.length_le
    · exact Nat.lt_of_lt_of_le has steps.length_le
    · exact Nat.lt_of_lt_of_le has jobs.length_le
    · exact Nat.lt_of_lt_of_le has workflows.length_le
  same target has _ := by
    cases target
    · exact getD_of_isPrefix expressions has _
    · exact getD_of_isPrefix steps has _
    · exact getD_of_isPrefix jobs has _
    · exact getD_of_isPrefix workflows has _
  known step has := congrArg Step.known (getD_of_isPrefix steps has _)

@[simp] theorem maintains_newExpression (expression : Expression) : Maintains free (newExpression expression) :=
  fun _ => keeps_of_grown (List.prefix_append _ _) List.prefix_rfl List.prefix_rfl List.prefix_rfl

@[simp] theorem maintains_newStep (step : Step) : Maintains free (newStep step) :=
  fun _ => keeps_of_grown List.prefix_rfl (List.prefix_append _ _) List.prefix_rfl List.prefix_rfl

@[simp] theorem maintains_newJob (job : Job) : Maintains free (newJob job) :=
  fun _ => keeps_of_grown List.prefix_rfl List.prefix_rfl (List.prefix_append _ _) List.prefix_rfl

@[simp] theorem maintains_newWorkflow (workflow : Workflow) : Maintains free (newWorkflow workflow) :=
  fun _ => keeps_of_grown List.prefix_rfl List.prefix_rfl List.prefix_rfl (List.prefix_append _ _)

theorem maintains_modifyExpression {identity : Nat} (mine : .expression identity ∈ free) (change : Expression → Expression) :
    Maintains free (modifyExpression identity change) := by
  intro workspace
  have size : (workspace.store.expressions.modify identity change).length = workspace.store.expressions.length := by simp
  refine ⟨fun target has => ?_, fun target _ fixed => ?_, fun _ _ => rfl⟩
  · cases target
    · exact Nat.lt_of_lt_of_eq has size.symm
    all_goals exact has
  · cases target with
    | expression other => exact getD_modify_ne change _ _ fun same => fixed (same ▸ mine)
    | _ => rfl

theorem maintains_modifyStep {identity : Nat} (mine : .step identity ∈ free) {change : Step → Step}
    (known : ∀ step, (change step).known = step.known) : Maintains free (modifyStep identity change) := by
  intro workspace
  have size : (workspace.store.steps.modify identity change).length = workspace.store.steps.length := by simp
  refine ⟨fun target has => ?_, fun target _ fixed => ?_, fun step _ => ?_⟩
  · cases target
    case step => exact Nat.lt_of_lt_of_eq has size.symm
    all_goals exact has
  · cases target with
    | step other => exact getD_modify_ne change _ _ fun same => fixed (same ▸ mine)
    | _ => rfl
  · show ((workspace.store.steps.modify identity change).getD step {}).known = (workspace.store.steps.getD step {}).known
    by_cases same : identity = step
    · subst same
      rw [List.getD_eq_getElem?_getD, List.getD_eq_getElem?_getD, List.getElem?_modify_eq]
      cases workspace.store.steps[identity]? with
      | none => rfl
      | some step => exact known step
    · rw [getD_modify_ne change _ _ same]

theorem maintains_modifyJob {identity : Nat} (mine : .job identity ∈ free) (change : Job → Job) :
    Maintains free (modifyJob identity change) := by
  intro workspace
  have size : (workspace.store.jobs.modify identity change).length = workspace.store.jobs.length := by simp
  refine ⟨fun target has => ?_, fun target _ fixed => ?_, fun _ _ => rfl⟩
  · cases target
    case job => exact Nat.lt_of_lt_of_eq has size.symm
    all_goals exact has
  · cases target with
    | job other => exact getD_modify_ne change _ _ fun same => fixed (same ▸ mine)
    | _ => rfl

theorem maintains_modifyWorkflow {identity : Nat} (mine : .workflow identity ∈ free) (change : Workflow → Workflow) :
    Maintains free (modifyWorkflow identity change) := by
  intro workspace
  have size : (workspace.store.workflows.modify identity change).length = workspace.store.workflows.length := by simp
  refine ⟨fun target has => ?_, fun target _ fixed => ?_, fun _ _ => rfl⟩
  · cases target
    case workflow => exact Nat.lt_of_lt_of_eq has size.symm
    all_goals exact has
  · cases target with
    | workflow other => exact getD_modify_ne change _ _ fun same => fixed (same ▸ mine)
    | _ => rfl

theorem maintains_newStep_bind {step : Step} {next : Nat → Build α}
    (onNext : ∀ fresh, Maintains (.step fresh :: free) (next fresh)) : Maintains free (newStep step >>= next) := by
  apply maintains_bind_fresh (maintains_newStep step) onNext
  intro workspace fresh after made target touched
  cases made
  rcases List.mem_cons.mp touched with rfl | touched
  · exact .inr (Nat.lt_irrefl _)
  · exact .inl touched

theorem maintains_newJob_bind {job : Job} {next : Nat → Build α}
    (onNext : ∀ fresh, Maintains (.job fresh :: free) (next fresh)) : Maintains free (newJob job >>= next) := by
  apply maintains_bind_fresh (maintains_newJob job) onNext
  intro workspace fresh after made target touched
  cases made
  rcases List.mem_cons.mp touched with rfl | touched
  · exact .inr (Nat.lt_irrefl _)
  · exact .inl touched

theorem maintains_newWorkflow_bind {workflow : Workflow} {next : Nat → Build α}
    (onNext : ∀ fresh, Maintains (.workflow fresh :: free) (next fresh)) : Maintains free (newWorkflow workflow >>= next) := by
  apply maintains_bind_fresh (maintains_newWorkflow workflow) onNext
  intro workspace fresh after made target touched
  cases made
  rcases List.mem_cons.mp touched with rfl | touched
  · exact .inr (Nat.lt_irrefl _)
  · exact .inl touched

@[simp] theorem maintains_segment (value : Value) : Maintains free (segment value) := by
  unfold segment
  split <;> simp

@[simp] theorem maintains_extend (segments : List Label) (more : List Value) : Maintains free (extend segments more) := by
  simp [extend]

@[simp] theorem maintains_appendTo (value : Value) (more : List Value) : Maintains free (appendTo value more) := by
  unfold appendTo
  split <;> simp

@[simp] theorem maintains_index (value : Value) (keys : List Value) : Maintains free (index value keys) := by
  induction keys generalizing value with
  | nil => simp [index]
  | cons key rest ih =>
    unfold index
    split <;> simp [ih]

@[simp] theorem maintains_attributeOf (value : Value) (name : String) : Maintains free (attributeOf value name) := by
  unfold attributeOf
  split
  · repeat' apply maintains_ite
    all_goals simp
  · simp

@[simp] theorem maintains_attributesOf (value : Value) (names : List String) : Maintains free (attributesOf value names) := by
  induction names generalizing value with
  | nil => simp [attributesOf]
  | cons name rest ih => simp [attributesOf, ih]

@[simp] theorem maintains_requireKnown (kind : String) (name : Value) (declared : Option (List Value)) :
    Maintains free (requireKnown kind name declared) := by
  unfold requireKnown
  split
  · apply maintains_ite
    · apply maintains_bind (by simp)
      intro name
      split <;> simp
    · simp
  · simp

@[simp] theorem maintains_reference (known : Known) (helper : String) (arguments : List Value) :
    Maintains free (reference known helper arguments) := by
  unfold reference
  split
  case h_3 | h_4 =>
    apply maintains_bind
    · apply maintains_ite <;> simp
    · simp
  all_goals simp

@[simp] theorem maintains_contextRoot (ambient : Ambient) (name : String) : Maintains free (contextRoot ambient name) := by
  unfold contextRoot
  split <;> simp

@[simp] theorem maintains_contextReference (ambient : Ambient) (helper : String) (arguments : List Value) :
    Maintains free (contextReference ambient helper arguments) := by
  unfold contextReference
  split <;> simp

@[simp] theorem maintains_compose (compound : Bool) (values : List Value) : Maintains free (compose compound values) := by
  simp [compose]

mutual

theorem maintains_literal (value : Value) : Maintains free (literal value) := by
  unfold literal
  split
  case h_4 items => exact maintains_bind (maintains_literals items) (by simp)
  case h_5 items => exact maintains_bind (maintains_literals items) (by simp)
  case h_6 => split <;> simp
  all_goals simp

theorem maintains_literals (values : List Value) : Maintains free (literals values) := by
  cases values with
  | nil => simp [literals]
  | cons value rest =>
    unfold literals
    exact maintains_bind (maintains_literal value) fun _ => maintains_bind (maintains_literals rest) (by simp)

end

attribute [simp] maintains_literal maintains_literals

@[simp] theorem maintains_binary (left : Value) (operator : Operator) (right : Value) : Maintains free (binary left operator right) := by
  simp [binary]

@[simp] theorem maintains_binaryNamed (left operator right : Value) : Maintains free (binaryNamed left operator right) := by
  unfold binaryNamed
  split <;> simp

@[simp] theorem maintains_negation (value : Value) : Maintains free (negation value) := by
  simp [negation]

@[simp] theorem maintains_group (value : Value) : Maintains free (group value) := by
  simp [group]

@[simp] theorem maintains_operand (value : Value) : Maintains free (operand value) := by
  unfold operand
  split
  · apply maintains_bind maintains_store
    intro store
    apply maintains_ite <;> simp
  · simp

@[simp] theorem maintains_runnerCall (name : String) (arguments : List Value) : Maintains free (runnerCall name arguments) := by
  simp [runnerCall]

@[simp] theorem maintains_combineDigits (operation : (width : Nat) → BitVec width → BitVec width → BitVec width)
    (left right : Value) : Maintains free (combineDigits operation left right) := by
  unfold combineDigits
  split <;> simp

@[simp] theorem maintains_conjoin (left right : Value) : Maintains free (conjoin left right) := by
  unfold conjoin
  apply maintains_ite
  · simp [conjunction]
  · simp

@[simp] theorem maintains_disjoin (left right : Value) : Maintains free (disjoin left right) := by
  unfold disjoin
  split
  · simp
  · simp
  · apply maintains_ite
    · simp [disjunction]
    · simp

@[simp] theorem maintains_invert (value : Value) : Maintains free (invert value) := by
  unfold invert
  split
  · simp
  · split <;> simp

@[simp] theorem maintains_interpolated (value : Value) : Maintains free (interpolated value) := by
  unfold interpolated
  apply maintains_bind (maintains_compose _ _)
  intro value
  split <;> simp

@[simp] theorem maintains_concatenation (values : List Value) : Maintains free (concatenation values) := by
  induction values with
  | nil => simp [concatenation]
  | cons value rest ih =>
    unfold concatenation
    split <;> simp [ih]

@[simp] theorem maintains_lineText (value : Value) : Maintains free (lineText value) := by
  unfold lineText
  split
  · simp
  · simp
  · split <;> simp

@[simp] theorem maintains_forIn {each : α → β → Build (ForInStep β)} {items : List α} {start : β}
    (onEach : ∀ item state, Maintains free (each item state)) : Maintains free (forIn items start each) := by
  induction items generalizing start with
  | nil => simp
  | cons item rest ih =>
    rw [List.forIn_cons]
    apply maintains_bind (onEach item start)
    intro next
    cases next
    · simp
    · exact ih

@[simp] theorem maintains_bindArguments (positional named : List String) (values : List Value)
    (namedValues : List (String × Value)) : Maintains free (bindArguments positional named values namedValues) := by
  unfold bindArguments
  apply maintains_ite
  · rw [fail_bind]
    exact maintains_fail .mistyped
  · apply maintains_bind
    · apply maintains_forIn
      intro item state
      apply maintains_ite <;> simp
    · simp

@[simp] theorem maintains_argument (arguments : List (String × Value)) (name : String) : Maintains free (argument arguments name) := by
  unfold argument
  split <;> simp

@[simp] theorem maintains_notice (kind : String) (message : Value) (arguments : List (String × Value)) :
    Maintains free (notice kind message arguments) := by
  unfold notice
  apply maintains_bind
  · apply maintains_mapM
    simp
  · simp

@[simp] theorem maintains_setting (name value : Value) (file : String) : Maintains free (setting name value file) := by
  simp [setting]

@[simp] theorem maintains_directive (kind : CommandKind) (values : List Value) (named : List (String × Value)) :
    Maintains free (directive kind values named) := by
  unfold directive
  split <;> apply maintains_bind (maintains_bindArguments _ _ _ _) <;> intro arguments
  case h_4 | h_5 | h_6 =>
    apply maintains_bind (by simp)
    simp
  all_goals simp

end Build

end WorkflowCompiler
