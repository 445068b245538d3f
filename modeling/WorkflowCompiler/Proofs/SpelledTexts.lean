import Mathlib.Data.List.GetD
import WorkflowCompiler.Builder.Wording
import WorkflowCompiler.Proofs.SpelledEvents

/-! The texts of values and objects with their members spelled out. A text is the same unless it
shows a member itself: a member on its own reads as its set and name, not as the text that it stands
for. Paths and expressions show members by their texts alone. -/

namespace WorkflowCompiler

def Fragment.spelled : Fragment → Fragment
  | .path segments => .path (segments.map Label.spelled)
  | fragment => fragment

def Expression.spelled (expression : Expression) : Expression :=
  { expression with contents := expression.contents.map Fragment.spelled }

def Known.spelled (known : Known) : Known := { known with steps := known.steps.map (List.map Value.spelled) }

def Step.spelled (step : Step) : Step where
  known := step.known.map Known.spelled
  fields field := (step.fields field).spelled
  outputs := step.outputs.map Value.spelled
  exported := step.exported.map Value.spelled

def Job.spelled (job : Job) : Job := { job with fields := fun field => (job.fields field).spelled }

def Workflow.spelled (workflow : Workflow) : Workflow where
  name := workflow.name.spelled
  fileName := workflow.fileName.spelled
  events := Value.spelledNamed workflow.events
  fields field := (workflow.fields field).spelled
  jobs := workflow.jobs.map (Prod.map Value.spelled id)

/-- The objects with the members in them spelled out. -/
def Store.spelled (store : Store) : Store where
  expressions := store.expressions.map Expression.spelled
  steps := store.steps.map Step.spelled
  jobs := store.jobs.map Job.spelled
  workflows := store.workflows.map Workflow.spelled

namespace Store

variable (store : Store)

@[simp] theorem expression_spelled (identity : Nat) : store.spelled.expression identity = (store.expression identity).spelled :=
  List.getD_map store.expressions {} Expression.spelled

@[simp] theorem step_spelled (identity : Nat) : store.spelled.step identity = (store.step identity).spelled :=
  List.getD_map store.steps {} Step.spelled

@[simp] theorem job_spelled (identity : Nat) : store.spelled.job identity = (store.job identity).spelled :=
  List.getD_map store.jobs {} Job.spelled

@[simp] theorem workflow_spelled (identity : Nat) : store.spelled.workflow identity = (store.workflow identity).spelled :=
  List.getD_map store.workflows { name := .null, fileName := .null } Workflow.spelled

@[simp] theorem size_spelled : store.spelled.size = store.size := by
  simp [size, spelled]

end Store

@[simp] theorem dotted_spelled (segments : List Label) : dotted (segments.map Label.spelled) = dotted segments := by
  simp [dotted, Function.comp_def]

namespace Store

variable (store : Store)

theorem expressionTextWithin_spelled (hops identity : Nat) :
    store.spelled.expressionTextWithin hops identity = store.expressionTextWithin hops identity := by
  induction hops generalizing identity with
  | zero => rfl
  | succ hops ih =>
    rw [expressionTextWithin, expressionTextWithin, expression_spelled, Expression.spelled, List.mapM_map]
    congr 2
    funext fragment
    cases fragment with
    | text value => rfl
    | path segments => exact congrArg Except.ok (dotted_spelled segments)
    | nested inner => exact ih inner

@[simp] theorem expressionText_spelled (identity : Nat) : store.spelled.expressionText identity = store.expressionText identity := by
  rw [expressionText, expressionText, size_spelled, expressionTextWithin_spelled]

end Store

namespace Value

mutual

/-- Whether the text of the value shows neither a member nor a step, job or workflow, which are
shown with what they are called. -/
def settled : Value → Bool
  | .choice _ => false
  | .list items => settledItems items
  | .tuple items => settledItems items
  | .map entries => settledEntries entries
  | .step _ => false
  | .job _ => false
  | .workflow _ => false
  | .command line _ _ => settled line
  | .event _ settings => settledItems settings
  | .input _ settings => settledItems settings
  | _ => true

def settledItems : List Value → Bool
  | [] => true
  | value :: rest => settled value && settledItems rest

def settledEntries : List (Value × Value) → Bool
  | [] => true
  | entry :: rest => settledEntry entry && settledEntries rest

def settledEntry : Value × Value → Bool
  | (key, value) => settled key && settled value

end

end Value

/-- An object that is shown by its texts alone. -/
def Target.settled : Target → Bool
  | .expression _ => true
  | _ => false

/-- Texts that are the same if nothing in them shows a member. -/
abbrev SameText (settled : Bool) : Except Failure String → Except Failure String → Prop :=
  Agrees fun text copy => settled → text = copy

namespace Value

section

variable {visit copied : Target → Except Failure String}

mutual

theorem shownWith_spelled (each : ∀ target : Target, SameText target.settled (visit target) (copied target)) (value : Value) :
    SameText value.settled (shownWith visit value) (shownWith copied value.spelled) := by
  cases value with
  | choice value => exact .ok fun settled => nomatch settled
  | list items =>
    simp only [spelled, spelledItems_eq, shownWith, settled]
    exact (shownItems_spelled each items).bind fun texts copies same => .ok fun settled => by rw [same settled]
  | tuple items =>
    match items with
    | [] => exact .ok fun _ => rfl
    | [item] =>
      simp only [spelled, spelledItems, shownWith, settled, settledItems, Bool.and_true]
      exact (shownWith_spelled each item).bind fun text copy same => .ok fun settled => by rw [same settled]
    | first :: second :: items =>
      simp only [spelled, spelledItems_eq, List.map_cons, settled]
      exact (shownItems_spelled each (first :: second :: items)).bind fun texts copies same =>
        .ok fun settled => by rw [same settled]
  | map entries =>
    simp only [spelled, spelledEntries_eq, shownWith, settled]
    exact (shownEntries_spelled each entries).bind fun texts copies same => .ok fun settled => by rw [same settled]
  | path segments => exact .ok fun _ => by rw [dotted_spelled]
  | expression identity => exact each (.expression identity)
  | step identity => exact each (.step identity)
  | job identity => exact each (.job identity)
  | workflow identity => exact each (.workflow identity)
  | command line output exported =>
    simp only [spelled, shownWith, settled]
    exact (shownWith_spelled each line).bind fun text copy same => .ok fun settled => by rw [same settled]
  | event kind settings =>
    simp only [spelled, spelledItems_eq, shownWith, settled]
    exact (shownItems_spelled each settings).bind fun texts copies same => .ok fun settled => by rw [same settled]
  | input kind settings =>
    simp only [spelled, spelledItems_eq, shownWith, settled]
    exact (shownItems_spelled each settings).bind fun texts copies same => .ok fun settled => by rw [same settled]
  | _ => exact .ok fun _ => rfl

theorem shownItems_spelled (each : ∀ target : Target, SameText target.settled (visit target) (copied target)) (items : List Value) :
    Agrees (fun texts copies => settledItems items → texts = copies) (shownItems visit items)
      (shownItems copied (items.map spelled)) := by
  cases items with
  | nil => exact .ok fun _ => rfl
  | cons value rest =>
    simp only [List.map_cons, shownItems, settledItems, Bool.and_eq_true]
    exact (shownWith_spelled each value).bind fun text copy one =>
      (shownItems_spelled each rest).bind fun texts copies more => .ok fun settled => by rw [one settled.1, more settled.2]

theorem shownEntries_spelled (each : ∀ target : Target, SameText target.settled (visit target) (copied target))
    (entries : List (Value × Value)) :
    Agrees (fun texts copies => settledEntries entries → texts = copies) (shownEntries visit entries)
      (shownEntries copied (spelledPairs entries)) := by
  cases entries with
  | nil => exact .ok fun _ => rfl
  | cons entry rest =>
    simp only [List.map_cons, shownEntries, settledEntries, Bool.and_eq_true]
    exact (shownEntry_spelled each entry).bind fun text copy one =>
      (shownEntries_spelled each rest).bind fun texts copies more => .ok fun settled => by rw [one settled.1, more settled.2]

theorem shownEntry_spelled (each : ∀ target : Target, SameText target.settled (visit target) (copied target))
    (entry : Value × Value) :
    SameText (settledEntry entry) (shownEntry visit entry) (shownEntry copied (Prod.map spelled spelled entry)) := by
  obtain ⟨key, value⟩ := entry
  exact (shownWith_spelled each key).bind fun text copy one =>
    (shownWith_spelled each value).bind fun texts copies more => .ok fun settled => by
      obtain ⟨onKey, onValue⟩ := Bool.and_eq_true_iff.mp settled
      rw [one onKey, more onValue]

end

end

end Value

namespace Store

variable (store : Store)

theorem wordingWith_spelled {shown copied : Value → Except Failure String}
    (each : ∀ value, SameText value.settled (shown value) (copied value.spelled)) (value : Value) :
    SameText value.settled (store.wordingWith shown value) (store.spelled.wordingWith copied value.spelled) := by
  cases value with
  | choice value => exact .ok fun settled => nomatch settled
  | path segments => exact .ok fun _ => (dotted_spelled segments).symm
  | expression identity =>
    simp only [Value.spelled, wordingWith, expressionText_spelled]
    exact (Agrees.refl _).mono fun _ _ same _ => same
  | command line output exported =>
    cases line with
    | text value => exact .ok fun _ => rfl
    | choice value => exact .ok fun settled => nomatch settled
    | _ => exact .fail rfl
  | text value => exact .ok fun _ => rfl
  | file value => exact .ok fun _ => rfl
  | failure identity value => exact .ok fun _ => rfl
  | _ => exact each _

theorem label_spelled (step : Step) : step.spelled.label = step.label.spelled := by
  show (if step.id.spelled.isNull then (step.fields .name).spelled else step.id.spelled) = _
  rw [Value.isNull_spelled, Step.label, apply_ite Value.spelled]

theorem shownWithin_spelled (hops : Nat) (target : Target) :
    SameText target.settled (store.shownWithin hops target) (store.spelled.shownWithin hops target) := by
  induction hops generalizing target with
  | zero => exact .fail rfl
  | succ hops ih =>
    have shown := Value.shownWith_spelled ih
    have wording := store.wordingWith_spelled shown
    cases target with
    | expression identity =>
      simp only [shownWithin, expressionText_spelled]
      exact (Agrees.refl _).bind fun text _ same => .ok fun _ => by rw [same]
    | step identity =>
      simp only [shownWithin, step_spelled, label_spelled]
      exact (shown _).bind fun _ _ _ => .ok fun settled => nomatch settled
    | job identity =>
      simp only [shownWithin, job_spelled]
      exact (shown _).bind fun _ _ _ => .ok fun settled => nomatch settled
    | workflow identity =>
      simp only [shownWithin, workflow_spelled]
      exact (wording _).bind fun _ _ _ => (wording _).bind fun _ _ _ => .ok fun settled => nomatch settled

theorem shown_spelled (value : Value) : SameText value.settled (store.shown value) (store.spelled.shown value.spelled) := by
  rw [shown, shown, size_spelled]
  exact Value.shownWith_spelled (store.shownWithin_spelled _) value

theorem wording_spelled (value : Value) : SameText value.settled (store.wording value) (store.spelled.wording value.spelled) :=
  store.wordingWith_spelled store.shown_spelled value

/-- A text in a message: it need not be the same. -/
theorem anyShown_spelled (value : Value) : Agrees (fun _ _ => True) (store.shown value) (store.spelled.shown value.spelled) :=
  (store.shown_spelled value).mono fun _ _ _ => trivial

theorem anyWording_spelled (value : Value) : Agrees (fun _ _ => True) (store.wording value) (store.spelled.wording value.spelled) :=
  (store.wording_spelled value).mono fun _ _ _ => trivial

theorem settledWording {value : Value} (settled : value.settled) :
    Agrees Eq (store.wording value) (store.spelled.wording value.spelled) :=
  (store.wording_spelled value).mono fun _ _ same => same settled

end Store

end WorkflowCompiler
