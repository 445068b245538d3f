import WorkflowCompiler.Proofs.DeclaredNames
import WorkflowCompiler.Proofs.MethodOutcomes
import WorkflowCompiler.Proofs.PlainRecords

/-! The script of a step through any calls of its methods. A call of `run` that succeeds replaces the script as
a whole, with the outputs and the variables that its commands name; a call that fails, and any other setter,
leaves all of these. The job that has the step reports the outputs under the id that the step has by then. -/

namespace WorkflowCompiler

/-- The line of a script that a value stands for: texts and commands read as they are written, expressions and
paths as interpolations. -/
inductive Store.Line (store : Store) : Value → String → Prop
  | text (written : String) : Line store (.text written) written
  | choice (member : Choice) : Line store (.choice member) member.text
  | command {line output exported : Value} {written : String} (reads : line.chars? = some written) :
      Line store (.command line output exported) written
  | expression {identity : Nat} {written : String} (reads : store.expressionText identity = .ok written) :
      Line store (.expression identity) (interpolation written)
  | path {value : Value} {segments : List Label} (reads : value.segments? = some segments) :
      Line store value (interpolation (dotted segments))

/-- The output that a command names. -/
def Value.output? : Value → Option Value
  | .command _ output _ => if output.isNull then none else some output
  | _ => none

/-- The variable that a command names. -/
def Value.exported? : Value → Option Value
  | .command _ _ exported => if exported.isNull then none else some exported
  | _ => none

/-- The items of a script, with the store in which they were read. -/
structure Script where
  items : List Value
  store : Store

namespace Script

def Reads (script : Script) (lines : List String) : Prop := List.Forall₂ script.store.Line script.items lines

def outputs (script : Script) : List Value := script.items.filterMap Value.output?

def exported (script : Script) : List Value := script.items.filterMap Value.exported?

end Script

/-- A step runs the script that it was given last, if any. -/
inductive Step.Follows (step : Step) : Option Script → Prop
  | none (run : step.fields .run = .null) (outputs : step.outputs = []) (exported : step.exported = []) : Follows step none
  | some {script : Script} {lines : List String} (reads : script.Reads lines)
      (run : step.fields .run = .text ("\n".intercalate lines)) (outputs : step.outputs = script.outputs)
      (exported : step.exported = script.exported) : Follows step (some script)

namespace Step

theorem follows_setScript {script : Script} {lines : List String} (reads : script.Reads lines) (step : Step) :
    (step.setScript lines script.items).Follows (some script) := by
  refine .some reads (by simp [setScript, set]) ?_ ?_
  · refine List.filterMap_congr fun item _ => ?_
    cases item with
    | command line output exported => cases output <;> rfl
    | _ => rfl
  · refine List.filterMap_congr fun item _ => ?_
    cases item with
    | command line output exported => cases exported <;> rfl
    | _ => rfl

/-- The script, and what its commands name, are the same. -/
def SameScript (before after : Step) : Prop :=
  after.fields .run = before.fields .run ∧ after.outputs = before.outputs ∧ after.exported = before.exported

theorem sameScript_set (step : Step) {field : StepField} (other : field ≠ .run) (value : Value) : SameScript step (step.set field value) :=
  ⟨by simp [set, other.symm], rfl, rfl⟩

theorem Follows.sameScript {before after : Step} {script : Option Script} (follows : before.Follows script)
    (same : SameScript before after) : after.Follows script := by
  obtain ⟨sameRun, sameOutputs, sameExported⟩ := same
  cases follows with
  | none run outputs exported => exact .none (sameRun.trans run) (sameOutputs.trans outputs) (sameExported.trans exported)
  | some reads run outputs exported =>
    exact .some reads (sameRun.trans run) (sameOutputs.trans outputs) (sameExported.trans exported)

end Step

@[simp] theorem Workspace.has_withStep {workspace : Workspace} {identity : Nat} {target : Target} {change : Step → Step} :
    (workspace.withStep identity change).store.Has target ↔ workspace.store.Has target := by
  cases target <;> simp [withStep, Store.Has]

namespace Build

theorem run_scriptLine_path {value : Value} {segments : List Label} (segmented : value.segments? = some segments) (workspace : Workspace) :
    (scriptLine value).run workspace = (.ok (interpolation (dotted segments)), workspace) := by
  cases value with
  | path =>
    cases segmented
    rfl
  | pathLike identity inner =>
    have isPath : (Value.pathLike identity inner).isPath = true := by rw [Value.isPath, segmented]; rfl
    have same : scriptLine (.pathLike identity inner) = lineText (.pathLike identity inner) := if_pos (by rw [isPath, Bool.or_true])
    unfold lineText at same
    dsimp only at same
    rw [same, segmented]
    rfl
  | _ => cases segmented

/-- A value is accepted as a line of a script just if it stands for one, and becomes that line. -/
theorem run_scriptLine_ok_iff {value : Value} {line : String} {workspace : Workspace} :
    (scriptLine value).run workspace = (.ok line, workspace) ↔ workspace.store.Line value line := by
  constructor
  · intro written
    cases value with
    | text =>
      cases written
      exact .text _
    | choice =>
      cases written
      exact .choice _
    | command text output exported =>
      unfold scriptLine at written
      dsimp only at written
      rcases reads : text.chars? with _ | line
      · rw [reads] at written
        cases written
      · rw [reads] at written
        cases written
        exact .command reads
    | expression identity =>
      have same : scriptLine (.expression identity) = ask (·.expressionText identity) >>= fun text => pure (interpolation text) := rfl
      rw [same, run_bind, run_ask_eq] at written
      rcases reads : workspace.store.expressionText identity with failure | text
      · rw [reads] at written
        cases written
      · rw [reads] at written
        cases written
        exact .expression reads
    | path segments =>
      cases written
      exact .path rfl
    | pathLike identity inner =>
      rcases reads : (Value.pathLike identity inner).segments? with _ | segments
      · have unread : (Value.pathLike identity inner).isPath = false := by rw [Value.isPath, reads]; rfl
        have same : scriptLine (.pathLike identity inner) = fail (.notAScriptLine (Value.pathLike identity inner).typeName) :=
          if_neg (by rw [unread]; exact Bool.false_ne_true)
        rw [same] at written
        cases written
      · rw [run_scriptLine_path reads] at written
        cases written
        exact .path reads
    | _ => cases written
  · intro stands
    cases stands with
    | text => rfl
    | choice => rfl
    | command reads =>
      rw [scriptLine, reads]
      rfl
    | expression reads => exact run_bind_ok (run_ask reads)
    | path reads => exact run_scriptLine_path reads workspace

theorem run_scriptLines_ok_iff {items : List Value} {lines : List String} {workspace : Workspace} :
    (items.mapM scriptLine).run workspace = (.ok lines, workspace) ↔ Script.Reads ⟨items, workspace.store⟩ lines := by
  induction items generalizing lines with
  | nil =>
    constructor
    · intro written
      cases written
      exact .nil
    · rintro ⟨⟩
      rfl
  | cons item rest ih =>
    rw [List.mapM_cons]
    constructor
    · intro written
      rcases run_bind_cases written with ⟨_, _, ⟨⟩⟩ | ⟨line, between, first, written⟩
      obtain rfl := (reads_scriptLine item).run first
      rcases run_bind_cases written with ⟨_, _, ⟨⟩⟩ | ⟨others, between, later, written⟩
      cases written
      exact .cons (run_scriptLine_ok_iff.mp first) (ih.mp later)
    · rintro (_ | ⟨first, later⟩)
      rw [run_bind_ok (run_scriptLine_ok_iff.mpr first), run_bind_ok (ih.mpr later)]
      rfl

section History

variable (call : Call) (step : Nat)

/-- The script that a call of a method gives a step, if the call succeeds. -/
def scriptGiven (method : String) (arguments : List Value) (workspace : Workspace) : Option Script :=
  match method, arguments, ((callStep call step method arguments).run workspace).1 with
  | "run", [argument], .ok _ =>
    match (resolve call (stepKnown step) argument).run workspace with
    | (.ok value, between) => some ⟨(value.items?).getD [value], between.store⟩
    | (.error _, _) => none
  | _, _, _ => none

/-- The workspaces in which calls of a step's methods, failed ones included, have given it a script last.
What happens to other objects between the calls does not matter. -/
inductive Scripted : Option Script → Workspace → Prop
  | fresh {workspace} (has : workspace.store.Has (.step step)) (new : (workspace.store.step step).Follows none) : Scripted none workspace
  | elsewhere {script before after} (scripted : Scripted script before) (has : after.store.Has (.step step))
      (same : after.store.step step = before.store.step step) : Scripted script after
  | called {script before} (scripted : Scripted script before) (method : String) (arguments : List Value) :
      Scripted ((scriptGiven call step method arguments before).or script) ((callStep call step method arguments).run before).2

end History

variable {call : Call} {step : Nat} {script : Option Script} {workspace : Workspace}

/-- A method other than `run`, and a call that fails, give no script. -/
theorem scriptGiven_eq_none {method : String} {arguments : List Value}
    (idle : method ≠ "run" ∨ ∃ failure after, (callStep call step method arguments).run workspace = (.error failure, after)) :
    scriptGiven call step method arguments workspace = none := by
  unfold scriptGiven
  split
  · next argument value succeeded =>
    rcases idle with other | ⟨failure, after, failed⟩
    · exact absurd rfl other
    · rw [failed] at succeeded
      cases succeeded
  · rfl

theorem callStep_run (argument : Value) : callStep call step "run" [argument] = (do
    let value ← resolve call (stepKnown step) argument
    let lines ← ((value.items?).getD [value]).mapM scriptLine
    modifyStep step (·.setScript lines ((value.items?).getD [value]))
    return .step step) := rfl

/-- A call of `run` gives a script if its argument comes to one line or to a list of lines. -/
theorem scriptGiven_run_iff {argument : Value} {given : Script} :
    scriptGiven call step "run" [argument] workspace = some given ↔
      ∃ value between lines, (resolve call (stepKnown step) argument).run workspace = (.ok value, between) ∧
        given = ⟨(value.items?).getD [value], between.store⟩ ∧ given.Reads lines := by
  have failing {failure : Failure} {after : Workspace}
      (failed : (callStep call step "run" [argument]).run workspace = (.error failure, after)) :
      scriptGiven call step "run" [argument] workspace = none := scriptGiven_eq_none (.inr ⟨failure, after, failed⟩)
  rcases resolved : (resolve call (stepKnown step) argument).run workspace with ⟨failure | value, between⟩
  · rw [failing (by rw [callStep_run, run_bind, resolved])]
    simp
  rcases written : (((value.items?).getD [value]).mapM scriptLine).run between with ⟨failure | lines, after⟩
  · rw [failing (by rw [callStep_run, run_bind_ok resolved, run_bind, written])]
    constructor
    · rintro ⟨⟩
    · rintro ⟨_, _, lines, ⟨⟩, rfl, reads⟩
      cases written.symm.trans (run_scriptLines_ok_iff.mpr reads)
  · obtain rfl := (reads_mapM reads_scriptLine).run written
    have succeeded : ((callStep call step "run" [argument]).run workspace).1 = .ok (.step step) := by
      rw [callStep_run, run_bind_ok resolved, run_bind_ok written]
      rfl
    simp only [scriptGiven, succeeded, resolved]
    constructor
    · rintro ⟨⟩
      exact ⟨value, after, lines, rfl, rfl, run_scriptLines_ok_iff.mp written⟩
    · rintro ⟨_, _, _, ⟨⟩, rfl, -⟩
      rfl

/-- A call of a method replaces the script of a step, or leaves it alone. -/
theorem callStep_script (tame : Tame call) (has : workspace.store.Has (.step step)) (method : String) (arguments : List Value) :
    ((callStep call step method arguments).run workspace).2.store.Has (.step step) ∧
    (scriptGiven call step method arguments workspace = none ∧
        (workspace.store.step step).SameScript (((callStep call step method arguments).run workspace).2.store.step step) ∨
      ∃ given, scriptGiven call step method arguments workspace = some given ∧
        (((callStep call step method arguments).run workspace).2.store.step step).Follows (some given)) := by
  rcases ran : (callStep call step method arguments).run workspace with ⟨result, after⟩
  have onResolve (argument : Value) : Maintains [] (resolve call (stepKnown step) argument) :=
    maintains_resolve tame (maintains_stepKnown step) argument
  cases callStep_outcome tame ran with
  | refused keeps =>
    refine ⟨keeps.has _ has, .inl ⟨scriptGiven_eq_none (.inr ⟨_, _, ran⟩), ?_⟩⟩
    have same : after.store.step step = workspace.store.step step := keeps.same (.step step) has List.not_mem_nil
    rw [same]
    exact ⟨rfl, rfl, rfl⟩
  | @script argument value lines between named resolved written =>
    obtain rfl := StepField.eq_setter named
    have there := ((onResolve argument).run resolved).has _ has
    have reads : Script.Reads ⟨(value.items?).getD [value], between.store⟩ lines := run_scriptLines_ok_iff.mp written
    refine ⟨Workspace.has_withStep.mpr there, .inr ⟨_, scriptGiven_run_iff.mpr ⟨value, between, lines, resolved, rfl, reads⟩, ?_⟩⟩
    rw [Workspace.step_withStep there]
    exact Step.follows_setScript reads _
  | @set argument field value between named plain resolved =>
    obtain rfl := StepField.eq_setter named
    have keeps := (onResolve argument).run resolved
    have there := keeps.has _ has
    have other : field.setter ≠ "run" := by cases field <;> first | exact absurd rfl plain | decide
    refine ⟨Workspace.has_withStep.mpr there, .inl ⟨scriptGiven_eq_none (.inl other), ?_⟩⟩
    rw [Workspace.step_withStep there, keeps.same (.step step) has List.not_mem_nil]
    exact Step.sameScript_set _ plain value

/-- Whatever methods are called, a step runs the script given last. -/
theorem followed_of_scripted (tame : Tame call) (scripted : Scripted call step script workspace) :
    workspace.store.Has (.step step) ∧ (workspace.store.step step).Follows script := by
  induction scripted with
  | fresh has new => exact ⟨has, new⟩
  | elsewhere _ has same ih => exact ⟨has, by rw [same]; exact ih.2⟩
  | called _ method arguments ih =>
    obtain ⟨has, ⟨idle, same⟩ | ⟨given, replaced, follows⟩⟩ := callStep_script tame ih.1 method arguments
    · rw [idle]
      exact ⟨has, ih.2.sameScript same⟩
    · rw [replaced]
      exact ⟨has, follows⟩

end Build

namespace Value

theorem insert_fresh {key : Value} {item : α} {entries : List (Value × α)} (fresh : ∀ entry ∈ entries, equals key entry.1 = false) :
    insert key item entries = entries ++ [(key, item)] := by
  induction entries with
  | nil => rfl
  | cons entry rest ih =>
    obtain ⟨first, later⟩ := List.forall_mem_cons.mp fresh
    rw [insert, if_neg (by rw [first]; exact Bool.false_ne_true), ih later]
    rfl

/-- Entries under distinct keys make a mapping as they are. -/
theorem ofEntries_of_distinct {entries : List (Value × α)} (keys : ∀ entry ∈ entries, entry.1.isKey)
    (distinct : entries.Pairwise fun earlier later => equals later.1 earlier.1 = false) : ofEntries entries = .ok entries := by
  suffices general : ∀ found : List (Value × α), (found ++ entries).Pairwise (fun earlier later => equals later.1 earlier.1 = false) →
      entries.foldlM (fun found entry => insertKey found entry.1 entry.2) found = .ok (found ++ entries) from general [] distinct
  clear distinct
  induction entries with
  | nil => exact fun found _ => congrArg Except.ok (List.append_nil found).symm
  | cons entry rest ih =>
    intro found distinct
    obtain ⟨first, later⟩ := List.forall_mem_cons.mp keys
    have fresh : ∀ other ∈ found, equals entry.1 other.1 = false :=
      fun other member => (List.pairwise_append.mp distinct).2.2 other member entry List.mem_cons_self
    rw [List.append_cons] at distinct ⊢
    rw [List.foldlM_cons, insertKey, if_pos first, insert_fresh fresh]
    exact ih later (found ++ [entry]) distinct

end Value

namespace Store

variable {store : Store} {job : Job}

/-- The ids of a job's steps can be looked up, with the outputs of those steps, and no two steps have the same. -/
structure IdsDistinct (store : Store) (job : Job) : Prop where
  keys : ∀ id ∈ store.stepIds job, id.isKey
  outputs : ∀ step ∈ store.jobSteps job, step.id.isNull = false → ∀ output ∈ step.outputs, output.isKey
  distinct : (store.stepIds job).Pairwise fun earlier later => Value.equals later earlier = false

theorem mem_outputsById {step : Nat} (member : step ∈ job.steps) (named : (store.step step).id ≠ .null) :
    ((store.step step).id, (store.step step).outputs) ∈ store.outputsById job := by
  have filled : (!(store.step step).id.isNull) = true := by
    rw [Bool.not_eq_true', ← Bool.not_eq_true]
    exact mt eq_null named
  exact List.mem_map.mpr ⟨_, List.mem_filter.mpr ⟨List.mem_map_of_mem member, filled⟩, rfl⟩

theorem stepOutputs_of_distinct (ids : IdsDistinct store job) : store.stepOutputs job = .ok (store.outputsById job) := by
  obtain ⟨keys, outputs, distinct⟩ := ids
  rw [← ids_outputsById] at keys distinct
  rw [stepOutputs_of_tracked outputs]
  exact Value.ofEntries_of_distinct (fun entry member => keys entry.1 (List.mem_map_of_mem member)) (List.pairwise_map.mp distinct)

end Store

namespace Build

/-- What is seen of a step that was given a script last, or none at all. -/
inductive Runs (workspace : Workspace) (step : Nat) : Option Script → Prop
  | none (rendered : ∀ tree, workspace.store.renderStep step = .ok tree → tree.fields.lookup "run" = none)
      (outputs : (workspace.store.step step).outputs = []) (exported : (workspace.store.step step).exported = []) : Runs workspace step none
  | some {script : Script} {lines : List String} (reads : script.Reads lines)
      (rendered : ∀ tree, workspace.store.renderStep step = .ok tree → tree.fields.lookup "run" = some (.text ("\n".intercalate lines)))
      (outputs : (workspace.store.step step).outputs = script.outputs)
      (exported : (workspace.store.step step).exported = script.exported) : Runs workspace step (some script)

theorem runs_of_follows {workspace : Workspace} {step : Nat} {script : Option Script}
    (follows : (workspace.store.step step).Follows script) : Runs workspace step script := by
  have distinct := Store.nodup_stepKeys (workspace.store.step step)
  have member := Store.mem_stepFields (workspace.store.step step) .run
  cases follows with
  | none run outputs exported =>
    refine .none (fun tree rendered => ?_) outputs exported
    obtain ⟨fields, made, same⟩ := ok_of_bind rendered
    cases same
    rw [run] at member
    rw [Tree.fields_record]
    exact Store.lookup_recordOf_unset made distinct member
  | some reads run outputs exported =>
    refine .some reads (fun tree rendered => ?_) outputs exported
    obtain ⟨fields, made, same⟩ := ok_of_bind rendered
    cases same
    rw [run] at member
    rw [Tree.fields_record]
    exact Store.lookup_recordOf made distinct member (by simp) rfl

/-- After any calls of its methods a step runs the script that it was given last: its record has the lines,
and it names the outputs and variables that the commands name. A call of `run` gives a script if its argument
comes to one line or to a list of lines; whatever other call is made next, and if it fails, the script and the
names stay. A job with the step in it whose steps have distinct ids reports just these outputs under its id. -/
theorem script_given_last {depth step : Nat} {script : Option Script} {workspace : Workspace}
    (scripted : Scripted (callWithin depth) step script workspace) :
    Runs workspace step script ∧
    (∀ argument given, scriptGiven (callWithin depth) step "run" [argument] workspace = some given ↔
      ∃ value between lines, (resolve (callWithin depth) (stepKnown step) argument).run workspace = (.ok value, between) ∧
        given = ⟨(value.items?).getD [value], between.store⟩ ∧ given.Reads lines) ∧
    (∀ method arguments, (method ≠ "run" ∨ ∃ failure after,
        (callStep (callWithin depth) step method arguments).run workspace = (.error failure, after)) →
      (workspace.store.step step).SameScript (((callStep (callWithin depth) step method arguments).run workspace).2.store.step step)) ∧
    ∀ job, step ∈ (workspace.store.job job).steps → (workspace.store.step step).id ≠ .null →
      Store.IdsDistinct workspace.store (workspace.store.job job) →
      ∃ reported, workspace.store.stepOutputs (workspace.store.job job) = .ok reported ∧
        reported.map Prod.fst = workspace.store.stepIds (workspace.store.job job) ∧
        ((workspace.store.step step).id, (script.map Script.outputs).getD []) ∈ reported := by
  obtain ⟨has, follows⟩ := followed_of_scripted (tame_callWithin depth) scripted
  refine ⟨runs_of_follows follows, fun argument given => scriptGiven_run_iff, fun method arguments idle => ?_,
    fun job member named ids => ⟨_, Store.stepOutputs_of_distinct ids, ?_, ?_⟩⟩
  · obtain ⟨-, ⟨-, same⟩ | ⟨given, replaced, -⟩⟩ := callStep_script (tame_callWithin depth) has method arguments
    · exact same
    · cases (scriptGiven_eq_none idle).symm.trans replaced
  · exact Store.ids_outputsById _ _
  · have outputs : (script.map Script.outputs).getD [] = (workspace.store.step step).outputs := by
      cases follows with
      | none _ outputs => exact outputs.symm
      | some _ _ outputs => exact outputs.symm
    rw [outputs]
    exact Store.mem_outputsById member named

/-- A new step in a new job. -/
def scripting : Workspace where
  store := { steps := [{}], jobs := [{ steps := [0] }] }

theorem scripted_scripting : Scripted (callWithin 1) 0 none scripting := .fresh (by decide) (.none rfl rfl rfl)

def versionLines : List Value := [.text "make", .command (.text "echo a") (.text "version") .null]

def digestLines : List Value := [.command (.text "echo b") (.text "digest") .null, .path [.text "github", .text "ref"]]

/-- With an id and a script. -/
def drafting : Workspace :=
  ((callStep (callWithin 1) 0 "run" [.list versionLines]).run ((callStep (callWithin 1) 0 "id" [.text "build"]).run scripting).2).2

/-- With another script, and then a number for one, which is refused. -/
def digesting : Workspace :=
  ((callStep (callWithin 1) 0 "run" [.int 5]).run ((callStep (callWithin 1) 0 "run" [.tuple digestLines]).run drafting).2).2

theorem scripted_digesting : Scripted (callWithin 1) 0 (some ⟨digestLines, drafting.store⟩) digesting :=
  (((scripted_scripting.called "id" [.text "build"]).called "run" [.list versionLines]).called "run" [.tuple digestLines]).called
    "run" [.int 5]

theorem script_given_last_digesting :
    Scripted (callWithin 1) 0 (some ⟨digestLines, drafting.store⟩) digesting ∧
    (∀ tree, digesting.store.renderStep 0 = .ok tree → tree.fields.lookup "run" = some (.text "echo b\n$\x7b\x7b github.ref \x7d\x7d")) ∧
    (digesting.store.step 0).outputs = [.text "digest"] ∧ (digesting.store.step 0).exported = [] ∧
    ∃ reported, digesting.store.stepOutputs (digesting.store.job 0) = .ok reported ∧ (.text "build", [.text "digest"]) ∈ reported := by
  obtain ⟨runs, -, -, reports⟩ := script_given_last scripted_digesting
  have distinct : Store.IdsDistinct digesting.store (digesting.store.job 0) :=
    ⟨by decide, by decide, List.pairwise_singleton _ _⟩
  obtain ⟨reported, told, -, member⟩ := reports 0 List.mem_cons_self (by nofun) distinct
  cases runs with
  | some reads rendered outputs exported =>
    rcases reads with _ | ⟨first, _ | ⟨second, _ | _⟩⟩
    cases first with
    | path segmented => cases segmented
    | command written =>
      cases written
      cases second with
      | path segmented =>
        cases segmented
        exact ⟨scripted_digesting, rendered, outputs, exported, reported, told, member⟩

/-- A step whose id is a list, in a job. -/
def listed : Workspace :=
  ((callStep (callWithin 1) 0 "run" [.command (.text "echo a") (.text "version") .null]).run
    ((callStep (callWithin 1) 0 "id" [.list [.int 1]]).run scripting).2).2

/-- An id that cannot be looked up keeps a job from reporting anything, distinct though the ids are. -/
theorem listed_id_unreported :
    (∃ store, Scripted (callWithin 1) 0 (some ⟨[.command (.text "echo a") (.text "version") .null], store⟩) listed) ∧
    (listed.store.job 0).steps = [0] ∧ (listed.store.step 0).outputs = [.text "version"] ∧
    (listed.store.step 0).id = .list [.int 1] ∧ listed.store.stepIds (listed.store.job 0) = [.list [.int 1]] ∧
    listed.store.stepOutputs (listed.store.job 0) = .error (.ofCause .mistyped) :=
  ⟨⟨_, (scripted_scripting.called "id" [.list [.int 1]]).called "run" [.command (.text "echo a") (.text "version") .null]⟩,
    rfl, rfl, rfl, rfl, rfl⟩

end Build

end WorkflowCompiler
