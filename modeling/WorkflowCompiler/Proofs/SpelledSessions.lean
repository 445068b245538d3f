import WorkflowCompiler.Proofs.SpelledPrograms

/-! Sessions of two programs that differ in members of sets and the texts that these stand for. What
is made as text while they run, the names of needed jobs, axes, services and events and the lines of
commands, is the same if it shows no member. Then all objects render to the same records, and what
they declare and check is the same. A needed job that is given as a member shows it, and is looked
for under the name of the member. -/

namespace WorkflowCompiler

theorem Workflow.hasJob_spelled (workflow : Workflow) (needed : String) :
    (workflow.spelled.jobs.any fun (other, _) => Value.equals (.text needed) other) =
      workflow.jobs.any fun (other, _) => Value.equals (.text needed) other := by
  have equal (other : Value) : Value.equals (.text needed) other.spelled = Value.equals (.text needed) other :=
    Value.equals_spelled (.text needed) other
  simp [Workflow.spelled, List.any_map, Function.comp_def, equal]

theorem Store.danglingNeeds_spelled (store : Store) (workflow : Workflow) :
    store.spelled.danglingNeeds workflow.spelled = (store.danglingNeeds workflow).map (Prod.map Value.spelled id) := by
  simp only [danglingNeeds, Workflow.hasJob_spelled]
  simp only [Workflow.spelled, List.flatMap_map, List.map_flatMap, job_spelled, Job.neededJobs_spelled, List.map_map]
  rfl

namespace Workspace

open Value (spelled spelledNamed)

/-- The keys that are rendered by their texts with some object, or with a value in a register. -/
def keys (workspace : Workspace) : List Value := workspace.registers.flatMap (fun register => register.2.keys) ++ workspace.store.keys

/-- Two workspaces of which all objects render alike, and declare and check the same. Where one
rendering fails, so does the other, for failures of the same categories. The names of workflows, the
ids of jobs and steps and the values in registers may be members in one and texts in the other. -/
structure SameOutputs (first second : Workspace) : Prop where
  registers : spelledNamed first.registers = spelledNamed second.registers
  values : ∀ name value other, first.registers.lookup name = some value → second.registers.lookup name = some other →
    Agrees Eq (first.store.plain value) (second.store.plain other)
  expressions : ∀ identity, first.store.expressionText identity = second.store.expressionText identity
  steps : ∀ identity, Agrees Eq (first.store.renderStep identity) (second.store.renderStep identity)
  jobs : ∀ identity jobId other, jobId.spelled = other.spelled →
    Agrees Eq (first.store.renderJob identity jobId) (second.store.renderJob identity other)
  workflows : ∀ identity, Agrees (fun record other => record.name.spelled = other.name.spelled ∧ record.sections = other.sections)
    (first.store.renderWorkflow identity) (second.store.renderWorkflow identity)
  faults : ∀ identity jobId other, jobId.spelled = other.spelled →
    Agrees (fun faults others => faults.map Failure.bare = others.map Failure.bare)
      (first.store.jobFaults (first.store.job identity) jobId) (second.store.jobFaults (second.store.job identity) other)
  danglingNeeds : ∀ identity,
    (first.store.danglingNeeds (first.store.workflow identity)).map (Prod.map spelled id) =
      (second.store.danglingNeeds (second.store.workflow identity)).map (Prod.map spelled id)
  neededJobs : ∀ identity, (first.store.job identity).neededJobs = (second.store.job identity).neededJobs
  axes : ∀ identity, (first.store.job identity).axes = (second.store.job identity).axes
  services : ∀ identity, (first.store.job identity).services = (second.store.job identity).services
  stepIds : ∀ identity, (first.store.stepIds (first.store.job identity)).map spelled =
    (second.store.stepIds (second.store.job identity)).map spelled

/-- What two workspaces have in common with a third, they have in common with one another. -/
theorem Spells.sameOutputs {first second copy : Workspace} (spells : first.Spells copy) (spells' : second.Spells copy)
    (steady : Steady first.keys) (steady' : Steady second.keys) : first.SameOutputs second := by
  obtain ⟨onRegisters, onStore⟩ := steady_append.mp steady
  obtain ⟨onRegisters', onStore'⟩ := steady_append.mp steady'
  have stores : first.store.spelled = second.store.spelled := spells.store.trans spells'.store.symm
  have held (registers : List (String × Value)) (quiet : Steady (registers.flatMap fun register => register.2.keys)) {name : String}
      {value : Value} (found : registers.lookup name = some value) : Steady value.keys := by
    obtain ⟨before, after, same, -⟩ := List.lookup_eq_some_iff.mp found
    exact steady_flatMap.mp quiet (name, value) (same ▸ List.mem_append_right before List.mem_cons_self)
  have jobs (identity : Nat) : (first.store.job identity).spelled = (second.store.job identity).spelled := by
    rw [← Store.job_spelled, stores, Store.job_spelled]
  exact {
    registers := spells.registers.trans spells'.registers.symm
    values := fun name value other found found' => by
      have same : value.spelled = other.spelled := by
        have copies := Event.lookup_spelled name first.registers
        rw [spells.registers, ← spells'.registers, Event.lookup_spelled, found, found'] at copies
        exact (Option.some.inj copies).symm
      have one := Store.plain_spelled onStore value (held _ onRegisters found)
      have two := Store.plain_spelled onStore' other (held _ onRegisters' found')
      rw [← stores, ← same] at two
      exact one.equal two
    expressions := fun identity => by
      rw [← Store.expressionText_spelled, stores, Store.expressionText_spelled]
    steps := fun identity => by
      have two := Store.renderStep_spelled onStore' identity
      rw [← stores] at two
      exact (Store.renderStep_spelled onStore identity).equal two
    jobs := fun identity jobId other same => by
      have two := Store.renderJob_spelled onStore' identity other
      rw [← stores, ← same] at two
      exact (Store.renderJob_spelled onStore identity jobId).equal two
    workflows := fun identity => by
      have two := Store.renderWorkflow_spelled onStore' identity
      rw [← stores] at two
      refine ((Store.renderWorkflow_spelled onStore identity).both two).mono ?_
      rintro record other ⟨copy, ⟨name, sections⟩, name', sections'⟩
      exact ⟨name.trans name'.symm, sections.trans sections'.symm⟩
    faults := fun identity jobId other same => by
      have one : Agrees _ (first.store.jobFaults (first.store.job identity) jobId) _ := Store.jobFaults_spelled _ jobId
      have two : Agrees _ (second.store.jobFaults (second.store.job identity) other) _ := Store.jobFaults_spelled _ other
      rw [← stores, ← jobs, ← same] at two
      refine (one.both two).mono ?_
      rintro faults others ⟨copies, alike, alike'⟩
      exact alike.trans alike'.symm
    danglingNeeds := fun identity => by
      rw [← Store.danglingNeeds_spelled, ← Store.danglingNeeds_spelled, ← Store.workflow_spelled, stores, Store.workflow_spelled]
    neededJobs := fun identity => by
      rw [← Job.neededJobs_spelled, jobs, Job.neededJobs_spelled]
    axes := fun identity => (congrArg Job.axes (jobs identity) :)
    services := fun identity => (congrArg Job.services (jobs identity) :)
    stepIds := fun identity => by
      rw [← Store.stepIds_spelled, ← Store.stepIds_spelled, stores, jobs] }

end Workspace

namespace Session

/-- The workspace after statements. -/
def after : List Statement → Workspace → Workspace
  | [], workspace => workspace
  | statement :: rest, workspace => after rest (step workspace statement).2

/-- What statements read as text, and then the rendering of what they have made. -/
def reads : List Statement → Workspace → List Value
  | [], workspace => workspace.keys
  | statement :: rest, workspace =>
    Build.statementReads statement { workspace with printed := "" } ++ reads rest (step workspace statement).2

theorem step_spells {workspace copy : Workspace} (spells : workspace.Spells copy) {statement : Statement}
    (steady : Steady (Build.statementReads statement { workspace with printed := "" })) :
    (step workspace statement).2.Spells (step copy statement.spelled).2 :=
  Build.execute_leads statement steady { copy with printed := "" }
    ⟨spells.store, spells.closures, spells.registers, spells.identities, spells.debug⟩

/-- The run of the spelled copy leaves the spelled copy. -/
theorem after_spells {statements : List Statement} {workspace copy : Workspace} (spells : workspace.Spells copy)
    (steady : Steady (reads statements workspace)) : (after statements workspace).Spells (after (statements.map Statement.spelled) copy) := by
  induction statements generalizing workspace copy with
  | nil => exact spells
  | cons statement rest ih =>
    obtain ⟨onStatement, onRest⟩ := steady_append.mp steady
    exact ih (step_spells spells onStatement) onRest

theorem steady_after {statements : List Statement} {workspace : Workspace} (steady : Steady (reads statements workspace)) :
    Steady (after statements workspace).keys := by
  induction statements generalizing workspace with
  | nil => exact steady
  | cons statement rest ih => exact ih (steady_append.mp steady).2

/-- Two programs that differ in members and their texts alone make the same, as long as neither
reads a member as text. -/
theorem sameOutputs_of_spelled (debug : Bool) {first second : List Statement}
    (same : first.map Statement.spelled = second.map Statement.spelled) (steady : Steady (reads first { debug }))
    (steady' : Steady (reads second { debug })) : (after first { debug }).SameOutputs (after second { debug }) := by
  have start : Workspace.Spells { debug } { debug } := ⟨rfl, rfl, rfl, rfl, rfl⟩
  have copied := after_spells start steady'
  rw [← same] at copied
  exact (after_spells start steady).sameOutputs copied (steady_after steady) (steady_after steady')

/-- A workflow with a runner as the id of a job, a value, a key, an operand and a line of a script. -/
def usingRunner (runner : Value) : List Statement :=
  [.assign "ci" (.workflow (.value (.text "ci")) (.value .null)
    [("on", [.value (.text "push")]),
      ("job", [.value runner, .job
        [("runs_on", [.value runner]), ("env", [.map [(.value runner, .value runner)]]),
          ("if_", [.apply (.compare .equal) [.contextPath "runner" [.value (.text "name")], .value runner]]),
          ("step", [.step none [("run", [.value runner])]])]])])]

theorem sameOutputs_usingRunner :
    let member := usingRunner (.choice (.runner .ubuntuLatest))
    let text := usingRunner (.text "ubuntu-latest")
    member.map Statement.spelled = text.map Statement.spelled ∧ Steady (reads member {}) ∧ Steady (reads text {}) ∧
      (after member {}).SameOutputs (after text {}) ∧
      (after member {}).store.renderJob 0 .null = .ok (.record
        [("if", .text "$\x7b\x7b runner.name == 'ubuntu-latest' \x7d\x7d"), ("runs-on", .text "ubuntu-latest"),
          ("env", .record [("ubuntu-latest", .text "ubuntu-latest")]),
          ("steps", .list [.record [("run", .text "ubuntu-latest")]])]) := by
  have member : Steady (reads (usingRunner (.choice (.runner .ubuntuLatest))) {}) := by
    unfold Steady
    decide +kernel
  have text : Steady (reads (usingRunner (.text "ubuntu-latest")) {}) := by
    unfold Steady
    decide +kernel
  exact ⟨rfl, member, text, sameOutputs_of_spelled false rfl member text, rfl⟩

/-- A job under a runner as its id, and one that needs the same runner. -/
def needingRunner (runner : Value) : List Statement :=
  [.assign "ci" (.workflow (.value (.text "ci")) (.value .null)
    [("on", [.value (.text "push")]),
      ("job", [.value runner, .job
        [("runs_on", [.value (.text "ubuntu-latest")]), ("step", [.step none [("run", [.value (.text "make")])]])]]),
      ("job", [.value (.text "test"), .job
        [("runs_on", [.value (.text "ubuntu-latest")]), ("needs", [.value runner]),
          ("step", [.step none [("run", [.value (.text "make test")])]])]])])]

/-- The need of a member is kept under the name of the member and dangles; that of its text does not. -/
theorem needingRunner_differs :
    let member := (after (needingRunner (.choice (.runner .ubuntuLatest))) {}).store
    let text := (after (needingRunner (.text "ubuntu-latest")) {}).store
    (needingRunner (.choice (.runner .ubuntuLatest))).map Statement.spelled = (needingRunner (.text "ubuntu-latest")).map Statement.spelled ∧
      (member.job 1).neededJobs = ["Runner.UBUNTU_LATEST"] ∧ (text.job 1).neededJobs = ["ubuntu-latest"] ∧
      (member.danglingNeeds (member.workflow 0)).map Prod.snd = ["Runner.UBUNTU_LATEST"] ∧
      (text.danglingNeeds (text.workflow 0)).map Prod.snd = [] :=
  ⟨rfl, by decide +kernel, by decide +kernel, by decide +kernel, by decide +kernel⟩

end Session

end WorkflowCompiler
