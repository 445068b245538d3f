import WorkflowCompiler.Builder.Workspace
import WorkflowCompiler.Proofs.BuildRuns
import WorkflowCompiler.Proofs.SpelledRecords

/-! Two runs of building: one as it is, and one in a workspace in which every member is spelled out.
Steps of building are alike if they end in related values or in failures of one category, and leave
workspaces of which the second spells out the first. What is printed may differ. -/

namespace WorkflowCompiler

namespace Recipe

mutual

/-- The recipe with the members in it spelled out. -/
def spelled : Recipe → Recipe
  | .value literal => .value literal.spelled
  | .foreign typeName => .foreign typeName
  | .list items => .list (spelledAll items)
  | .tuple items => .tuple (spelledAll items)
  | .map entries => .map (spelledEntries entries)
  | .path segments => .path (spelledAll segments)
  | .pathLike segments => .pathLike (spelled segments)
  | .append base segments => .append (spelled base) (spelledAll segments)
  | .attributes object names => .attributes (spelled object) names
  | .contextPath root segments => .contextPath root (spelledAll segments)
  | .contextName helper arguments segments => .contextName helper (spelledAll arguments) (spelledAll segments)
  | .apply function arguments => .apply function (spelledAll arguments)
  | .command kind arguments named => .command kind (spelledAll arguments) (spelledNamed named)
  | .preset kind arguments named operations =>
    .preset kind (spelledAll arguments) (spelledNamed named) (spelledOperations operations)
  | .event factory arguments named => .event factory (spelledAll arguments) (spelledNamed named)
  | .step known operations => .step (known.map Known.spelled) (spelledOperations operations)
  | .job operations => .job (spelledOperations operations)
  | .workflow name fileName operations => .workflow (spelled name) (spelled fileName) (spelledOperations operations)
  | .builder operations result => .builder (spelledOperations operations) (spelledResult result)
  | .callback body => .callback (spelled body)
  | .register name => .register name
  | .failure category message children collects => .failure category (spelled message) (spelledAll children) collects

def spelledAll : List Recipe → List Recipe
  | [] => []
  | recipe :: rest => spelled recipe :: spelledAll rest

def spelledEntries : List (Recipe × Recipe) → List (Recipe × Recipe)
  | [] => []
  | entry :: rest => spelledEntry entry :: spelledEntries rest

def spelledEntry : Recipe × Recipe → Recipe × Recipe
  | (key, item) => (spelled key, spelled item)

def spelledNamed : List (String × Recipe) → List (String × Recipe)
  | [] => []
  | argument :: rest => spelledArgument argument :: spelledNamed rest

def spelledArgument : String × Recipe → String × Recipe
  | (name, recipe) => (name, spelled recipe)

def spelledOperations : List (String × List Recipe) → List (String × List Recipe)
  | [] => []
  | operation :: rest => spelledOperation operation :: spelledOperations rest

def spelledOperation : String × List Recipe → String × List Recipe
  | (method, arguments) => (method, spelledAll arguments)

def spelledResult : Option Recipe → Option Recipe
  | none => none
  | some result => some (spelled result)

end

end Recipe

def Ambient.spelled : Ambient → Ambient
  | .names known => .names known.spelled
  | .object value => .object value.spelled

def Closure.spelled : Closure → Closure
  | .callback body => .callback body.spelled
  | .builder ambient operations result => .builder ambient.spelled (Recipe.spelledOperations operations) (Recipe.spelledResult result)

/-- The other workspace is this one with the members spelled out; what was printed may differ. -/
structure Workspace.Spells (workspace other : Workspace) : Prop where
  store : workspace.store.spelled = other.store
  closures : workspace.closures.map Closure.spelled = other.closures
  registers : Value.spelledNamed workspace.registers = other.registers
  identities : workspace.identities = other.identities
  debug : workspace.debug = other.debug

namespace Build

/-- Run on a workspace and on its spelled copy, the two end alike. -/
def Alike (same : α → β → Prop) (build : Build α) (copy : Build β) (workspace : Workspace) : Prop :=
  ∀ other, workspace.Spells other →
    Agrees same (build.run workspace).1 (copy.run other).1 ∧ (build.run workspace).2.Spells (copy.run other).2

namespace Alike

variable {same : α → β → Prop} {workspace : Workspace}

theorem pure {value : α} {copy : β} (related : same value copy) : Alike same (pure value) (pure copy) workspace :=
  fun _ spells => ⟨.ok related, spells⟩

theorem ofExcept {result : Except Failure α} {copy : Except Failure β} (agrees : Agrees same result copy) :
    Alike same (ofExcept result) (ofExcept copy) workspace := by
  intro other spells
  rw [run_ofExcept_eq, run_ofExcept_eq]
  exact ⟨agrees, spells⟩

theorem fail {cause other : Cause} (alike : cause.category = other.category) :
    Alike same (fail cause) (Build.fail other) workspace :=
  fun _ spells => ⟨.fail alike, spells⟩

theorem ask {question : Store → Except Failure α} {copy : Store → Except Failure β}
    (agrees : Agrees same (question workspace.store) (copy workspace.store.spelled)) : Alike same (ask question) (Build.ask copy) workspace := by
  intro other spells
  rw [run_ask_eq, run_ask_eq, ← spells.store]
  exact ⟨agrees, spells⟩

theorem mono {weaker : α → β → Prop} {build : Build α} {copy : Build β} (alike : Alike same build copy workspace)
    (weaken : ∀ value other, same value other → weaker value other) : Alike weaker build copy workspace :=
  fun other spells => ⟨(alike other spells).1.mono weaken, (alike other spells).2⟩

theorem ite {test : Prop} [Decidable test] {build other : Build α} {copy otherCopy : Build β} (yes : Alike same build copy workspace)
    (no : Alike same other otherCopy workspace) :
    Alike same (if test then build else other) (if test then copy else otherCopy) workspace := by
  split
  · exact yes
  · exact no

theorem bind {after : γ → δ → Prop} {build : Build α} {copy : Build β} {next : α → Build γ} {other : β → Build δ}
    (first : Alike same build copy workspace)
    (later : ∀ value copied between, build.run workspace = (.ok value, between) → same value copied →
      Alike after (next value) (other copied) between) :
    Alike after (build >>= next) (copy >>= other) workspace := by
  intro workspace' spells
  obtain ⟨agrees, spells⟩ := first workspace' spells
  rw [run_bind, run_bind]
  rcases onFirst : build.run workspace with ⟨result, between⟩
  rcases onCopy : copy.run workspace' with ⟨result', between'⟩
  rw [onFirst, onCopy] at agrees spells
  cases agrees with
  | error alike => exact ⟨.error alike, spells⟩
  | ok related => exact later _ _ _ onFirst related between' spells

/-- A step whose copy makes what the step makes, changed in one way: the copy goes on from the changed value. -/
theorem next {change : α → β} {after : γ → δ → Prop} {build : Build α} {copy : Build β} {next : α → Build γ} {other : β → Build δ}
    (first : Alike (change · = ·) build copy workspace)
    (later : ∀ value between, build.run workspace = (.ok value, between) → Alike after (next value) (other (change value)) between) :
    Alike after (build >>= next) (copy >>= other) workspace :=
  first.bind fun value _ between ran related => related ▸ later value between ran

theorem mapM (change : γ → δ) {make : α → Build γ} {other : β → Build δ} {spell : α → β} {items : List α}
    (each : ∀ item ∈ items, ∀ workspace, Alike (change · = ·) (make item) (other (spell item)) workspace) :
    Alike (List.map change · = ·) (items.mapM make) ((items.map spell).mapM other) workspace := by
  induction items generalizing workspace with
  | nil => exact .pure rfl
  | cons item rest ih =>
    obtain ⟨one, others⟩ := List.forall_mem_cons.mp each
    rw [List.map_cons, List.mapM_cons, List.mapM_cons]
    refine (one workspace).bind fun value copied between _ alike => ?_
    refine (ih others).bind fun values copies after _ more => .pure ?_
    rw [List.map_cons, alike, more]

theorem mapM_eq {make : α → Build γ} {other : β → Build γ} {spell : α → β} {items : List α}
    (each : ∀ item ∈ items, ∀ workspace, Alike Eq (make item) (other (spell item)) workspace) :
    Alike Eq (items.mapM make) ((items.map spell).mapM other) workspace :=
  (mapM id each).mono fun _ _ alike => (List.map_id _).symm.trans alike

theorem mapM_same (change : γ → δ) {make : α → Build γ} {other : α → Build δ} {items : List α}
    (each : ∀ item ∈ items, ∀ workspace, Alike (change · = ·) (make item) (other item) workspace) :
    Alike (List.map change · = ·) (items.mapM make) (items.mapM other) workspace := by
  have alike : Alike (List.map change · = ·) (items.mapM make) ((items.map id).mapM other) workspace := mapM change each
  rwa [List.map_id] at alike

theorem forIn {each : α → δ → Build (ForInStep δ)} {copy : β → δ → Build (ForInStep δ)} {spell : α → β} {items : List α} {start : δ}
    (onEach : ∀ item ∈ items, ∀ state workspace, Alike Eq (each item state) (copy (spell item) state) workspace) :
    Alike Eq (forIn items start each) (ForIn.forIn (items.map spell) start copy) workspace := by
  induction items generalizing start workspace with
  | nil => exact .pure rfl
  | cons item rest ih =>
    obtain ⟨one, others⟩ := List.forall_mem_cons.mp onEach
    rw [List.map_cons, List.forIn_cons, List.forIn_cons]
    refine (one start workspace).next fun outcome between _ => ?_
    cases outcome with
    | done state => exact .pure rfl
    | yield state => exact ih others

theorem store : Alike (Store.spelled · = ·) store Build.store workspace := fun _ spells => ⟨.ok spells.store, spells⟩

theorem current : Alike Workspace.Spells (get : Build Workspace) get workspace := fun _ spells => ⟨.ok spells, spells⟩

theorem modify {change copy : Workspace → Workspace} (alike : ∀ other, workspace.Spells other → (change workspace).Spells (copy other)) :
    Alike Eq (modifyThe Workspace change : Build Unit) (modifyThe Workspace copy) workspace :=
  fun other spells => ⟨.ok rfl, alike other spells⟩

theorem modifyStore {change copy : Store → Store} (alike : (change workspace.store).spelled = copy workspace.store.spelled) :
    Alike Eq (modifyStore change) (Build.modifyStore copy) workspace := by
  refine modify fun other spells => ⟨?_, spells.closures, spells.registers, spells.identities, spells.debug⟩
  show (change workspace.store).spelled = copy other.store
  rw [alike, spells.store]

theorem newIdentity : Alike Eq newIdentity Build.newIdentity workspace := by
  intro other spells
  exact ⟨.ok spells.identities, spells.store, spells.closures, spells.registers, congrArg (· + 1) spells.identities, spells.debug⟩

theorem newExpression (expression : Expression) : Alike Eq (newExpression expression) (Build.newExpression expression.spelled) workspace := by
  refine store.next fun store between ran => ?_
  refine (modifyStore ?_).next fun _ _ _ => .pure ?_
  · simp [Store.spelled]
  · simp [Store.spelled]

theorem newStep (step : Step) : Alike Eq (newStep step) (Build.newStep step.spelled) workspace := by
  refine store.next fun store between ran => ?_
  refine (modifyStore ?_).next fun _ _ _ => .pure ?_
  · simp [Store.spelled]
  · simp [Store.spelled]

theorem newJob (job : Job) : Alike Eq (newJob job) (Build.newJob job.spelled) workspace := by
  refine store.next fun store between ran => ?_
  refine (modifyStore ?_).next fun _ _ _ => .pure ?_
  · simp [Store.spelled]
  · simp [Store.spelled]

theorem newWorkflow (workflow : Workflow) : Alike Eq (newWorkflow workflow) (Build.newWorkflow workflow.spelled) workspace := by
  refine store.next fun store between ran => ?_
  refine (modifyStore ?_).next fun _ _ _ => .pure ?_
  · simp [Store.spelled]
  · simp [Store.spelled]

theorem newFunction (closure : Closure) :
    Alike (Value.spelled · = ·) (newFunction closure) (Build.newFunction closure.spelled) workspace := by
  intro other spells
  refine ⟨.ok ?_, spells.store, ?_, spells.registers, spells.identities, spells.debug⟩
  · show Value.function workspace.closures.length = .function other.closures.length
    rw [← spells.closures, List.length_map]
  · show (workspace.closures ++ [closure]).map Closure.spelled = other.closures ++ [closure.spelled]
    rw [List.map_append, spells.closures]
    rfl

theorem map_modify {spell : α → β} {change : α → α} {copy : β → β} (alike : ∀ item, spell (change item) = copy (spell item))
    (items : List α) (place : Nat) : (items.modify place change).map spell = (items.map spell).modify place copy := by
  induction items generalizing place with
  | nil => cases place <;> rfl
  | cons item rest ih =>
    cases place with
    | zero => simp [alike]
    | succ place => simp [ih]

section

variable (identity : Nat)

theorem modifyExpression {change copy : Expression → Expression} (alike : ∀ expression, (change expression).spelled = copy expression.spelled) :
    Alike Eq (modifyExpression identity change) (Build.modifyExpression identity copy) workspace :=
  modifyStore (by simp [Store.spelled, map_modify alike])

theorem modifyStep {change copy : Step → Step} (alike : ∀ step, (change step).spelled = copy step.spelled) :
    Alike Eq (modifyStep identity change) (Build.modifyStep identity copy) workspace :=
  modifyStore (by simp [Store.spelled, map_modify alike])

theorem modifyJob {change copy : Job → Job} (alike : ∀ job, (change job).spelled = copy job.spelled) :
    Alike Eq (modifyJob identity change) (Build.modifyJob identity copy) workspace :=
  modifyStore (by simp [Store.spelled, map_modify alike])

theorem modifyWorkflow {change copy : Workflow → Workflow} (alike : ∀ workflow, (change workflow).spelled = copy workflow.spelled) :
    Alike Eq (modifyWorkflow identity change) (Build.modifyWorkflow identity copy) workspace :=
  modifyStore (by simp [Store.spelled, map_modify alike])

end

/-- A line may show members: what is printed is not compared. -/
theorem debugLine {line copy : Build String} (made : Alike (fun _ _ => True) line copy workspace) :
    Alike Eq (debugLine line) (Build.debugLine copy) workspace := by
  refine made.bind fun line copied between _ _ => ?_
  refine current.bind ?_
  rintro held other _ ran spells
  cases ran
  rw [← spells.debug]
  cases between.debug with
  | false => exact .pure rfl
  | true => exact modify fun _ spells => ⟨spells.store, spells.closures, spells.registers, spells.identities, spells.debug⟩

end Alike

end Build

end WorkflowCompiler
