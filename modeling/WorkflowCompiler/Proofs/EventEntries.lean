import WorkflowCompiler.Builder.Rendering
import WorkflowCompiler.Proofs.NamedEntries
import WorkflowCompiler.Proofs.Results

/-! The entries of an event's section: each is named by a text. Among the options of an event,
workflows whose runs are waited for are called by their names. -/

namespace WorkflowCompiler

namespace Event

def AllNamed (entries : List (Value × α)) : Prop := ∀ entry ∈ entries, ∃ name, entry.1 = .text name

theorem allNamed_nil : AllNamed ([] : List (Value × α)) := by
  simp [AllNamed]

theorem allNamed_cons {name : String} {item : α} {entries : List (Value × α)} (named : AllNamed entries) :
    AllNamed ((.text name, item) :: entries) :=
  List.forall_mem_cons.mpr ⟨⟨name, rfl⟩, named⟩

theorem allNamed_append {entries more : List (Value × α)} (named : AllNamed entries) (onMore : AllNamed more) :
    AllNamed (entries ++ more) :=
  List.forall_mem_append.mpr ⟨named, onMore⟩

theorem allNamed_insert {name : String} {item : α} {entries : List (Value × α)} (named : AllNamed entries) :
    AllNamed (Value.insert (.text name) item entries) := by
  intro entry member
  have all : ∀ other ∈ entries, (∃ name, other.1 = .text name) ∧ True := fun other there => ⟨named other there, trivial⟩
  exact (Value.forall_mem_insert (fun key => ∃ name, key = .text name) (fun _ => True) ⟨name, rfl⟩ trivial all entry member).1

theorem allNamed_update {entries more : List (Value × Value)} (named : AllNamed entries) (onMore : AllNamed more) :
    AllNamed (update entries more) := by
  induction more generalizing entries with
  | nil => exact named
  | cons entry rest ih =>
    obtain ⟨key, value⟩ := entry
    obtain ⟨⟨name, rfl⟩, others⟩ := List.forall_mem_cons.mp onMore
    exact ih (allNamed_insert named) others

theorem allNamed_singleton (name : String) (value : Value) : AllNamed (singleton name value) := allNamed_cons allNamed_nil

theorem inputEntries_named (kind : InputKind) (settings : List Value) : Gives AllNamed (inputEntries kind settings) := by
  have optional : ∀ {name : String} {value : Value}, AllNamed (if value.isNull then [] else [(Value.text name, value)]) := by
    intro name value
    split
    · exact allNamed_nil
    · exact allNamed_singleton name value
  have lines : ∀ {options : List (Value × Value)} {required description default : Value} {type : String}, AllNamed options →
      AllNamed ((if description.isNull then [] else [(Value.text "description", description)])
        ++ [(Value.text "required", required), (Value.text "type", Value.text type)]
        ++ (if default.isNull then [] else [(Value.text "default", default)]) ++ options) := by
    intro options required description default type onOptions
    exact allNamed_append (allNamed_append (allNamed_append optional (allNamed_cons (allNamed_singleton _ _))) optional) onOptions
  unfold inputEntries
  cases kind
  case choice => exact gives_bind fun _ => gives_ok (lines (allNamed_singleton _ _))
  all_goals exact gives_ok (lines allNamed_nil)

/-- An event that is not joined from others gives one entry. -/
theorem simpleEntries_single {kind : EventKind} (simple : kind ≠ .anyOf) (settings : List Value) :
    Gives (fun entries => ∃ name options, entries = singleton name options) (simpleEntries kind settings) := by
  have one {name : String} {value : Except Failure Value} :
      Gives (fun entries => ∃ name options, entries = singleton name options) (return singleton name (← value)) :=
    gives_bind fun options => gives_ok ⟨name, options, rfl⟩
  unfold simpleEntries
  cases kind
  case push => exact one
  case pullRequest =>
    apply gives_bind
    intro target
    cases target <;> exact one
  case schedule => exact gives_bind fun _ => gives_ok ⟨_, _, rfl⟩
  case dispatch =>
    apply gives_bind
    intro inputs
    cases inputs
    · exact gives_ok ⟨_, _, rfl⟩
    · exact gives_bind fun _ => gives_ok ⟨_, _, rfl⟩
  case call =>
    apply gives_bind
    intro inputs
    cases inputs
    · exact gives_bind fun _ => gives_bind fun _ => gives_bind fun _ => gives_ok ⟨_, _, rfl⟩
    · exact gives_bind fun _ => gives_bind fun _ => gives_bind fun _ => gives_bind fun _ => gives_ok ⟨_, _, rfl⟩
  case run => exact gives_bind fun _ => gives_bind fun _ => gives_bind fun _ => gives_ok ⟨_, _, rfl⟩
  case anyOf => exact absurd rfl simple
  case abstract => exact gives_error _ _

theorem simpleEntries_named (kind : EventKind) (settings : List Value) : Gives AllNamed (simpleEntries kind settings) := by
  by_cases simple : kind = .anyOf
  · subst simple
    exact gives_ok allNamed_nil
  · intro entries listed
    obtain ⟨name, options, rfl⟩ := simpleEntries_single simple settings entries listed
    exact allNamed_singleton name options

mutual

theorem entries_named (value : Value) : Gives AllNamed (entries value) := by
  unfold entries
  split
  · exact combinedEntries_named _ allNamed_nil
  · exact combinedEntries_named _ allNamed_nil
  · apply gives_bind
    intro parts
    cases parts
    · exact gives_ok allNamed_nil
    · exact gives_error _ _
  · exact simpleEntries_named _ _
  · exact inputEntries_named _ _
  · exact gives_error _ _
  · exact gives_error _ _

theorem combinedEntries_named {found : List (Value × Value)} (parts : List Value) (named : AllNamed found) :
    Gives AllNamed (combinedEntries found parts) := by
  cases parts with
  | nil => exact gives_ok named
  | cons part rest =>
    unfold combinedEntries
    exact (entries_named part).bind fun entries onPart => combinedEntries_named rest (allNamed_update named onPart)

end

end Event

namespace Store

/-- What stands for a workflow whose runs are waited for. -/
def nameOf (store : Store) : Value → Value
  | .workflow identity => (store.workflow identity).name
  | other => other

theorem eventOptions_workflows {store : Store} {entries : List (Value × Value)} {workflows : Value}
    (found : Value.lookup? (.text "workflows") entries = some workflows) :
    store.eventOptions "workflow_run" (.map entries) = do
      return .map (Value.insert (.text "workflows") (.list ((← workflows.iterate).map store.nameOf)) entries) := by
  rw [eventOptions, found]
  rfl

theorem eventOptions_others {store : Store} {name : String} {options : Value}
    (others : ∀ entries workflows, name = "workflow_run" → options = .map entries →
      Value.lookup? (.text "workflows") entries ≠ some workflows) : store.eventOptions name options = .ok options := by
  unfold eventOptions
  split
  · next entries =>
    rcases found : Value.lookup? (.text "workflows") entries with _ | workflows
    · rfl
    · exact absurd found (others entries workflows rfl rfl)
  · rfl

end Store

end WorkflowCompiler
