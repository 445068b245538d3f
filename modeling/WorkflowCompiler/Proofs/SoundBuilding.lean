import Mathlib.Order.Basic
import WorkflowCompiler.Proofs.HeldObjects
import WorkflowCompiler.Proofs.MethodOutcomes

/-! Sound workspaces: all that a workspace has noted is among the objects of its store. Objects come
about and none goes, so what a sound workspace refers to stays there. -/

namespace WorkflowCompiler

namespace Recipe

mutual

/-- The values that stand in a recipe. -/
def values : Recipe → List Value
  | .value item => [item]
  | .foreign _ => []
  | .list items => valuesOfAll items
  | .tuple items => valuesOfAll items
  | .map entries => valuesOfEntries entries
  | .path segments => valuesOfAll segments
  | .pathLike segments => segments.values
  | .append start segments => start.values ++ valuesOfAll segments
  | .attributes object _ => object.values
  | .contextPath _ segments => valuesOfAll segments
  | .contextName _ arguments segments => valuesOfAll arguments ++ valuesOfAll segments
  | .apply _ arguments => valuesOfAll arguments
  | .command _ arguments named => valuesOfAll arguments ++ valuesOfNamed named
  | .preset _ arguments named operations => valuesOfAll arguments ++ valuesOfNamed named ++ valuesOfOperations operations
  | .event _ arguments named => valuesOfAll arguments ++ valuesOfNamed named
  | .step _ operations => valuesOfOperations operations
  | .job operations => valuesOfOperations operations
  | .workflow name fileName operations => name.values ++ fileName.values ++ valuesOfOperations operations
  | .builder operations result => valuesOfOperations operations ++ valuesOfResult result
  | .callback body => body.values
  | .register _ => []
  | .failure _ message children _ => message.values ++ valuesOfAll children

def valuesOfAll : List Recipe → List Value
  | [] => []
  | recipe :: rest => recipe.values ++ valuesOfAll rest

def valuesOfEntries : List (Recipe × Recipe) → List Value
  | [] => []
  | entry :: rest => valuesOfEntry entry ++ valuesOfEntries rest

def valuesOfEntry : Recipe × Recipe → List Value
  | (key, item) => key.values ++ item.values

def valuesOfNamed : List (String × Recipe) → List Value
  | [] => []
  | argument :: rest => valuesOfArgument argument ++ valuesOfNamed rest

def valuesOfArgument : String × Recipe → List Value
  | (_, recipe) => recipe.values

def valuesOfOperations : List (String × List Recipe) → List Value
  | [] => []
  | operation :: rest => valuesOfOperation operation ++ valuesOfOperations rest

def valuesOfOperation : String × List Recipe → List Value
  | (_, arguments) => valuesOfAll arguments

def valuesOfResult : Option Recipe → List Value
  | none => []
  | some recipe => recipe.values

end

end Recipe

open Value (AllWithin EntriesWithin NamedWithin)

def Ambient.Within (inside : Target → Prop) : Ambient → Prop
  | .names _ => True
  | .object value => value.Within inside

def Closure.Within (inside : Target → Prop) : Closure → Prop
  | .callback body => AllWithin inside body.values
  | .builder ambient operations result =>
    ambient.Within inside ∧ AllWithin inside (Recipe.valuesOfOperations operations) ∧ AllWithin inside (Recipe.valuesOfResult result)

/-- All that a workspace has noted is in its store. -/
structure Workspace.Sound (workspace : Workspace) : Prop where
  objects : workspace.store.Closed
  closures : ∀ closure ∈ workspace.closures, closure.Within workspace.store.Has
  registers : NamedWithin workspace.store.Has workspace.registers

section Mono

variable {inside wider : Target → Prop} (more : inside ≤ wider)
include more

namespace Value

theorem AllWithin.mono {values : List Value} (within : AllWithin inside values) : AllWithin wider values :=
  fun value member => (within value member).mono more

theorem EntriesWithin.mono {entries : List (Value × Value)} (within : EntriesWithin inside entries) : EntriesWithin wider entries :=
  fun entry member => ⟨(within entry member).1.mono more, (within entry member).2.mono more⟩

theorem NamedWithin.mono {entries : List (String × Value)} (within : NamedWithin inside entries) : NamedWithin wider entries :=
  fun entry member => (within entry member).mono more

end Value

theorem Expression.Within.mono {expression : Expression} (within : expression.Within inside) : expression.Within wider :=
  fun inner member => more _ (within inner member)

theorem Step.Within.mono {step : Step} (within : step.Within inside) : step.Within wider :=
  fun field => (within field).mono more

theorem Job.Within.mono {job : Job} (within : job.Within inside) : job.Within wider :=
  ⟨fun field => (within.1 field).mono more, fun step member => more _ (within.2 step member)⟩

theorem Workflow.Within.mono {workflow : Workflow} (within : workflow.Within inside) : workflow.Within wider := by
  obtain ⟨name, fileName, events, fields, jobs⟩ := within
  exact ⟨name.mono more, fileName.mono more, fun event member => (events event member).mono more, fun field => (fields field).mono more,
    fun job member => ⟨(jobs job member).1.mono more, more _ (jobs job member).2⟩⟩

theorem Ambient.Within.mono {ambient : Ambient} (within : ambient.Within inside) : ambient.Within wider := by
  cases ambient with
  | names => trivial
  | object => exact Value.Within.mono within more

theorem Closure.Within.mono {closure : Closure} (within : closure.Within inside) : closure.Within wider := by
  cases closure with
  | callback => exact Value.AllWithin.mono more within
  | builder => exact ⟨within.1.mono more, within.2.1.mono more, within.2.2.mono more⟩

end Mono

theorem forall_getD_iff {good : α → Prop} {items : List α} {default : α} :
    (∀ position < items.length, good (items.getD position default)) ↔ ∀ item ∈ items, good item := by
  rw [List.forall_mem_iff_forall_getElem]
  refine forall₂_congr fun position inside => ?_
  rw [List.getD_eq_getElem?_getD, List.getElem?_eq_getElem inside, Option.getD_some]

theorem old_or_new {good : α → Prop} (items : List α) {new : α} (fine : good new) :
    ∀ item ∈ items ++ [new], item ∈ items ∨ good item := by
  intro item member
  refine (List.mem_append.mp member).imp id fun fresh => ?_
  cases List.mem_singleton.mp fresh
  exact fine

theorem old_or_changed {good better : α → Prop} {change : α → α} {items : List α} (all : ∀ item ∈ items, good item)
    (kept : ∀ item, good item → better (change item)) (position : Nat) :
    ∀ item ∈ items.modify position change, item ∈ items ∨ better item := by
  intro item member
  obtain ⟨index, inside, rfl⟩ := List.mem_iff_getElem.mp member
  rw [List.length_modify] at inside
  rw [List.getElem_modify]
  split
  · exact .inr (kept _ (all _ (List.getElem_mem inside)))
  · exact .inl (List.getElem_mem inside)

namespace Store

/-- The objects of a closed store, kind by kind. -/
theorem closed_iff {store : Store} : store.Closed ↔
    (∀ expression ∈ store.expressions, expression.Within store.Has) ∧ (∀ step ∈ store.steps, step.Within store.Has) ∧
    (∀ job ∈ store.jobs, job.Within store.Has) ∧ (∀ workflow ∈ store.workflows, workflow.Within store.Has) := by
  rw [← forall_getD_iff, ← forall_getD_iff, ← forall_getD_iff, ← forall_getD_iff]
  constructor
  · exact fun closed => ⟨fun identity => closed (.expression identity), fun identity => closed (.step identity),
      fun identity => closed (.job identity), fun identity => closed (.workflow identity)⟩
  · rintro ⟨expressions, steps, jobs, workflows⟩ (identity | identity | identity | identity)
    · exact expressions identity
    · exact steps identity
    · exact jobs identity
    · exact workflows identity

/-- A closed store stays closed if what comes in or changes holds only what there is. -/
theorem Closed.grown {before after : Store} (closed : before.Closed) (more : before.Has ≤ after.Has)
    (expressions : ∀ expression ∈ after.expressions, expression ∈ before.expressions ∨ expression.Within after.Has)
    (steps : ∀ step ∈ after.steps, step ∈ before.steps ∨ step.Within after.Has)
    (jobs : ∀ job ∈ after.jobs, job ∈ before.jobs ∨ job.Within after.Has)
    (workflows : ∀ workflow ∈ after.workflows, workflow ∈ before.workflows ∨ workflow.Within after.Has) :
    after.Closed := by
  obtain ⟨onExpressions, onSteps, onJobs, onWorkflows⟩ := closed_iff.mp closed
  exact closed_iff.mpr ⟨fun expression member => (expressions expression member).elim (fun old => (onExpressions _ old).mono more) id,
    fun step member => (steps step member).elim (fun old => (onSteps _ old).mono more) id,
    fun job member => (jobs job member).elim (fun old => (onJobs _ old).mono more) id,
    fun workflow member => (workflows workflow member).elim (fun old => (onWorkflows _ old).mono more) id⟩

end Store

theorem Workspace.Sound.grown {workspace : Workspace} (sound : workspace.Sound) {store : Store} (more : workspace.store.Has ≤ store.Has)
    (closed : store.Closed) : Workspace.Sound { workspace with store } where
  objects := closed
  closures closure member := (sound.closures closure member).mono more
  registers := sound.registers.mono more

namespace Build

variable {inside wider : Target → Prop}

/-- From a sound workspace that has all that is `inside`, building comes to a sound workspace that has
all that was there. What it gives is good for what there is then. -/
def Upholds (inside : Target → Prop) (good : (Target → Prop) → α → Prop) (build : Build α) : Prop :=
  ∀ workspace, workspace.Sound → inside ≤ workspace.store.Has →
    (build.run workspace).2.Sound ∧ workspace.store.Has ≤ (build.run workspace).2.store.Has ∧
    Gives (good (build.run workspace).2.store.Has) (build.run workspace).1

/-- What is good stays good when more objects have come about. -/
class Lasting (good : (Target → Prop) → α → Prop) : Prop where
  last : ∀ {inside wider : Target → Prop} {value : α}, inside ≤ wider → good inside value → good wider value

instance : Lasting Value.Within := ⟨fun more within => within.mono more⟩

instance : Lasting AllWithin := ⟨fun more within => within.mono more⟩

instance : Lasting EntriesWithin := ⟨fun more within => within.mono more⟩

instance : Lasting NamedWithin := ⟨fun more within => within.mono more⟩

instance : Lasting Step.Within := ⟨fun more within => within.mono more⟩

/-- Nothing is said of the result. -/
def Any (_ : Target → Prop) (_ : α) : Prop := True

instance : Lasting (Any (α := α)) := ⟨fun _ _ => trivial⟩

/-- The object of a kind that has a number is there. -/
def There (kind : Nat → Target) (inside : Target → Prop) (identity : Nat) : Prop := inside (kind identity)

instance (kind : Nat → Target) : Lasting (There kind) := ⟨fun more there => more _ there⟩

section

variable {good : (Target → Prop) → α → Prop} {better : (Target → Prop) → β → Prop}

/-- Building that only looks at what there is. -/
theorem upholds_of_reads {build : Build α} (reads : Reads build)
    (gives : ∀ workspace, workspace.Sound → inside ≤ workspace.store.Has →
      Gives (good workspace.store.Has) (build.run workspace).1) : Upholds inside good build := by
  intro workspace sound more
  rw [reads workspace]
  exact ⟨sound, le_rfl, gives workspace sound more⟩

theorem upholds_reads {build : Build α} (reads : Reads build) : Upholds inside Any build :=
  upholds_of_reads reads fun _ _ _ _ _ => trivial

theorem upholds_pure [lasting : Lasting good] {value : α} (fine : good inside value) : Upholds inside good (pure value) :=
  upholds_of_reads (reads_pure value) fun _ _ more => gives_ok (lasting.last more fine)

theorem upholds_fail (cause : Cause) : Upholds inside good (fail cause : Build α) :=
  upholds_of_reads (reads_fail cause) fun _ _ _ => gives_error _ _

theorem upholds_ofExcept [lasting : Lasting good] {result : Except Failure α} (gives : Gives (good inside) result) :
    Upholds inside good (ofExcept result) := by
  cases result with
  | ok value => exact upholds_pure (gives value rfl)
  | error failure => exact upholds_of_reads (fun _ => rfl) fun _ _ _ => gives_error _ _

theorem upholds_bind {first : Build α} {next : α → Build β} (onFirst : Upholds inside good first)
    (onNext : ∀ wider value, inside ≤ wider → good wider value → Upholds wider better (next value)) :
    Upholds inside better (first >>= next) := by
  intro workspace sound more
  obtain ⟨soundBetween, grown, given⟩ := onFirst workspace sound more
  rw [run_bind]
  revert soundBetween grown given
  rcases first.run workspace with ⟨failure | value, between⟩
  · exact fun soundBetween grown _ => ⟨soundBetween, grown, gives_error _ _⟩
  · intro soundBetween grown given
    obtain ⟨soundAfter, further, result⟩ := onNext _ value (more.trans grown) (given value rfl) between soundBetween le_rfl
    exact ⟨soundAfter, grown.trans further, result⟩

/-- Whatever comes first does not matter. -/
theorem upholds_bind_any {first : Build α} {next : α → Build β} (onFirst : Upholds inside Any first)
    (onNext : ∀ wider value, inside ≤ wider → Upholds wider better (next value)) : Upholds inside better (first >>= next) :=
  upholds_bind onFirst fun wider value more _ => onNext wider value more

theorem Upholds.mono {build : Build α} (upholds : Upholds inside good build) (more : inside ≤ wider) : Upholds wider good build :=
  fun workspace sound further => upholds workspace sound (more.trans further)

end

theorem length_lt_append (items : List α) (item : α) : items.length < (items ++ [item]).length := by
  simp

theorem upholds_newExpression {expression : Expression} (within : expression.Within inside) :
    Upholds inside (There .expression) (newExpression expression) := by
  intro workspace sound more
  have grown := (maintains_newExpression expression workspace : Store.Keeps [] _ _).has
  have new := old_or_new workspace.store.expressions ((within.mono more).mono grown)
  have closed := sound.objects.grown grown new (fun _ => .inl) (fun _ => .inl) (fun _ => .inl)
  exact ⟨sound.grown grown closed, grown, gives_ok (length_lt_append workspace.store.expressions expression)⟩

theorem upholds_newStep {step : Step} (within : step.Within inside) :
    Upholds inside (There .step) (newStep step) := by
  intro workspace sound more
  have grown := (maintains_newStep step workspace : Store.Keeps [] _ _).has
  have new := old_or_new workspace.store.steps ((within.mono more).mono grown)
  have closed := sound.objects.grown grown (fun _ => .inl) new (fun _ => .inl) (fun _ => .inl)
  exact ⟨sound.grown grown closed, grown, gives_ok (length_lt_append workspace.store.steps step)⟩

theorem upholds_newJob {job : Job} (within : job.Within inside) :
    Upholds inside (There .job) (newJob job) := by
  intro workspace sound more
  have grown := (maintains_newJob job workspace : Store.Keeps [] _ _).has
  have new := old_or_new workspace.store.jobs ((within.mono more).mono grown)
  have closed := sound.objects.grown grown (fun _ => .inl) (fun _ => .inl) new (fun _ => .inl)
  exact ⟨sound.grown grown closed, grown, gives_ok (length_lt_append workspace.store.jobs job)⟩

theorem upholds_newWorkflow {workflow : Workflow} (within : workflow.Within inside) :
    Upholds inside (There .workflow) (newWorkflow workflow) := by
  intro workspace sound more
  have grown := (maintains_newWorkflow workflow workspace : Store.Keeps [] _ _).has
  have new := old_or_new workspace.store.workflows ((within.mono more).mono grown)
  have closed := sound.objects.grown grown (fun _ => .inl) (fun _ => .inl) (fun _ => .inl) new
  exact ⟨sound.grown grown closed, grown, gives_ok (length_lt_append workspace.store.workflows workflow)⟩

theorem upholds_modifyExpression {identity : Nat} {change : Expression → Expression}
    (kept : ∀ (wider : Target → Prop) (expression : Expression), inside ≤ wider →
      expression.Within wider → (change expression).Within wider) :
    Upholds inside Any (modifyExpression identity change) := by
  intro workspace sound more
  have grown := (maintains_modifyExpression (List.mem_singleton_self (Target.expression identity)) change workspace).has
  have changed := old_or_changed (Store.closed_iff.mp sound.objects).1
    (fun old within => kept _ old (more.trans grown) (within.mono grown)) identity
  have closed := sound.objects.grown grown changed (fun _ => .inl) (fun _ => .inl) (fun _ => .inl)
  exact ⟨sound.grown grown closed, grown, fun _ _ => trivial⟩

theorem upholds_modifyStep {identity : Nat} {change : Step → Step} (known : ∀ step, (change step).known = step.known)
    (kept : ∀ (wider : Target → Prop) (step : Step), inside ≤ wider →
      step.Within wider → (change step).Within wider) :
    Upholds inside Any (modifyStep identity change) := by
  intro workspace sound more
  have grown := (maintains_modifyStep (List.mem_singleton_self (Target.step identity)) known workspace).has
  have changed := old_or_changed (Store.closed_iff.mp sound.objects).2.1
    (fun old within => kept _ old (more.trans grown) (within.mono grown)) identity
  have closed := sound.objects.grown grown (fun _ => .inl) changed (fun _ => .inl) (fun _ => .inl)
  exact ⟨sound.grown grown closed, grown, fun _ _ => trivial⟩

theorem upholds_modifyJob {identity : Nat} {change : Job → Job}
    (kept : ∀ (wider : Target → Prop) (job : Job), inside ≤ wider →
      job.Within wider → (change job).Within wider) :
    Upholds inside Any (modifyJob identity change) := by
  intro workspace sound more
  have grown := (maintains_modifyJob (List.mem_singleton_self (Target.job identity)) change workspace).has
  have changed := old_or_changed (Store.closed_iff.mp sound.objects).2.2.1
    (fun old within => kept _ old (more.trans grown) (within.mono grown)) identity
  have closed := sound.objects.grown grown (fun _ => .inl) (fun _ => .inl) changed (fun _ => .inl)
  exact ⟨sound.grown grown closed, grown, fun _ _ => trivial⟩

theorem upholds_modifyWorkflow {identity : Nat} {change : Workflow → Workflow}
    (kept : ∀ (wider : Target → Prop) (workflow : Workflow), inside ≤ wider →
      workflow.Within wider → (change workflow).Within wider) :
    Upholds inside Any (modifyWorkflow identity change) := by
  intro workspace sound more
  have grown := (maintains_modifyWorkflow (List.mem_singleton_self (Target.workflow identity)) change workspace).has
  have changed := old_or_changed (Store.closed_iff.mp sound.objects).2.2.2
    (fun old within => kept _ old (more.trans grown) (within.mono grown)) identity
  have closed := sound.objects.grown grown (fun _ => .inl) (fun _ => .inl) (fun _ => .inl) changed
  exact ⟨sound.grown grown closed, grown, fun _ _ => trivial⟩

end Build

end WorkflowCompiler
