import WorkflowCompiler.Proofs.BuiltRecords
import WorkflowCompiler.Proofs.JoinedEvents

/-! Events that wait for the runs of other workflows. When the event is rendered, workflows in the list
of those waited for are called by their names as they are then; a single name is taken apart into its
characters. -/

namespace WorkflowCompiler

namespace Workflow

theorem lookup_putNamed (name : String) (value : α) (found : List (String × α)) :
    (putNamed name value found).lookup name = some value := by
  induction found with
  | nil => simp [putNamed]
  | cons entry rest ih =>
    obtain ⟨other, old⟩ := entry
    by_cases same : other = name
    · simp [putNamed, same]
    · rw [putNamed, if_neg same, List.lookup_cons, beq_false_of_ne (Ne.symm same), ih]

end Workflow

/-- What is made of named items is found under the same name. -/
theorem lookup_of_mapM {make : String → α → Except Failure β} {items : List (String × α)} {results : List (String × β)}
    (made : (items.mapM fun item => do return (item.1, ← make item.1 item.2)) = .ok results) {name : String} {item : α}
    (found : items.lookup name = some item) : ∃ result, make name item = .ok result ∧ results.lookup name = some result := by
  have paired := forall₂_of_mapM made
  clear made
  induction paired with
  | nil => cases found
  | @cons entry result rest results one _ ih =>
    obtain ⟨other, old⟩ := entry
    obtain ⟨tree, rendered, same⟩ := ok_of_bind one
    cases same
    rw [List.lookup_cons] at found ⊢
    by_cases same : name = other
    · subst same
      rw [beq_self_eq_true] at found ⊢
      cases found
      exact ⟨tree, rendered, rfl⟩
    · rw [beq_false_of_ne same] at found ⊢
      exact ih found

theorem Value.insert_same {key item : Value} {entries : List (Value × Value)} (found : Value.lookup? key entries = some item) :
    Value.insert key item entries = entries := by
  induction entries with
  | nil => cases found
  | cons entry rest ih =>
    obtain ⟨other, old⟩ := entry
    rw [Value.insert]
    by_cases same : Value.equals key other = true
    · obtain rfl : old = item := by simpa [Value.lookup?, same] using found
      rw [if_pos same]
    · have later : Value.lookup? key rest = some item := by simpa [Value.lookup?, same] using found
      rw [if_neg same, ih later]

namespace Store

/-- The section of a workflow's event as it is rendered. -/
def renderEvent (store : Store) (name : String) (options : Value) : Except Failure Tree := do
  store.plain (← store.eventOptions name options)

theorem nameOf_plain {store : Store} {items : List Value} (plain : ∀ item ∈ items, ∀ identity, item ≠ .workflow identity) :
    items.map store.nameOf = items := by
  refine (List.map_congr_left fun item member => ?_).trans (List.map_id items)
  cases item with
  | workflow identity => exact absurd rfl (plain _ member identity)
  | _ => rfl

theorem renderEvent_workflows {store : Store} {entries : List (Value × Value)} {workflows : Value} {items : List Value}
    (found : Value.lookup? (.text "workflows") entries = some workflows) (listed : workflows.iterate = .ok items) :
    store.renderEvent "workflow_run" (.map entries) =
      store.plain (.map (Value.insert (.text "workflows") (.list (items.map store.nameOf)) entries)) := by
  rw [renderEvent, eventOptions_workflows found, listed]
  rfl

/-- The record of a workflow has each event as it is rendered. -/
theorem event_of_renderWorkflow {store : Store} {identity : Nat} {record : WorkflowRecord} {name : String} {options : Value}
    (rendered : store.renderWorkflow identity = .ok record) (found : (store.workflow identity).events.lookup name = some options) :
    ∃ events tree, record.sections.lookup "on" = some (Tree.record events) ∧ events.lookup name = some tree ∧
      store.renderEvent name options = .ok tree := by
  obtain ⟨sections, whole, same⟩ := ok_of_bind rendered
  cases same
  obtain ⟨jobs, events, settings, -, started, -, rfl⟩ := parts_of_workflowSections whole
  have begun : ((store.workflow identity).events.mapM fun event => do
      return (event.1, ← store.renderEvent event.1 event.2)) = .ok events := by
    simp only [renderEvent, bind_assoc]
    exact started
  obtain ⟨tree, made, listed⟩ := lookup_of_mapM begun found
  refine ⟨events, tree, ?_, listed, made⟩
  have some : events.isEmpty = false := by
    cases events with
    | nil => cases listed
    | cons => rfl
  simp [some]

end Store

/-- What tells a workflow to wait for the runs of others: the name of the event with its options, or
the event that has them. -/
inductive Awaiting : List Value → List (Value × Value) → Prop
  | options (entries : List (Value × Value)) : Awaiting [.text "workflow_run", .map entries] entries
  | event {settings : List Value} {entries : List (Value × Value)}
      (listed : Event.entries (.event .run settings) = .ok [(.text "workflow_run", .map entries)]) :
      Awaiting [.event .run settings] entries

namespace Build

variable {call : Call}

theorem run_awaiting {arguments : List Value} {entries : List (Value × Value)} (awaiting : Awaiting arguments entries)
    (some : entries ≠ []) (waiter : Nat) (workspace : Workspace) :
    (callMethod call (.workflow waiter) "on" arguments).run workspace =
      (.ok (.workflow waiter), workspace.withEvents waiter [("workflow_run", .map entries)]) := by
  cases awaiting with
  | options =>
    have kept : Workflow.eventOptions (.map entries) = .map entries := by
      cases entries with
      | nil => exact absurd rfl some
      | cons => rfl
    have worded : workspace.store.wording (.text "workflow_run") = .ok "workflow_run" := rfl
    have added : (addEvent waiter (.text "workflow_run") (.map entries)).run workspace =
        (.ok (), workspace.withEvents waiter [("workflow_run", .map entries)]) := by
      rw [addEvent, run_bind_ok (run_ask worded), run_modifyWorkflow, kept]
      · rfl
      · simp
    exact (run_bind_ok added).trans rfl
  | event listed =>
    rw [run_on, Event.putsOf, listed]
    rfl

/-- Workflows renamed one after the other. -/
def renameAll (call : Call) : List (Nat × Value) → Build Unit
  | [] => return ()
  | (identity, name) :: rest => do
    let _ ← callMethod call (.workflow identity) "set_name" [name]
    renameAll call rest

/-- A renamed workflow has the name that it was given last, and its events. -/
theorem run_renameAll (renamings : List (Nat × Value)) (workspace : Workspace) :
    ∃ after, (renameAll call renamings).run workspace = (.ok (), after) ∧ ∀ identity, workspace.store.Has (.workflow identity) →
      (after.store.workflow identity).events = (workspace.store.workflow identity).events ∧
      (after.store.workflow identity).name = (lastPut renamings identity).getD (workspace.store.workflow identity).name := by
  induction renamings generalizing workspace with
  | nil => exact ⟨workspace, rfl, fun _ _ => ⟨rfl, rfl⟩⟩
  | cons entry rest ih =>
    obtain ⟨renamed, name⟩ := entry
    let between := workspace.withWorkflow renamed fun workflow => { workflow with name }
    have first : (callMethod call (.workflow renamed) "set_name" [name]).run workspace = (.ok (.workflow renamed), between) := rfl
    obtain ⟨after, ran, later⟩ := ih between
    refine ⟨after, (run_bind_ok first).trans ran, fun identity has => ?_⟩
    have still : between.store.Has (.workflow identity) := Workspace.has_withWorkflow.mpr has
    obtain ⟨events, named⟩ := later identity still
    rw [events, named, ← List.singleton_append, lastPut_append]
    by_cases same : identity = renamed
    · subst same
      have changed : between.store.workflow identity = { workspace.store.workflow identity with name } :=
        Workspace.workflow_withWorkflow has _
      rw [changed]
      cases lastPut rest identity <;> simp [lastPut]
    · have kept : between.store.workflow identity = workspace.store.workflow identity :=
        getD_modify_ne _ _ _ (Ne.symm same)
      rw [kept]
      cases lastPut rest identity <;> simp [lastPut, List.lookup_cons, beq_false_of_ne same]

theorem name_withEvents {workspace : Workspace} {waiter identity : Nat} (has : workspace.store.Has (.workflow identity))
    (puts : List (String × Value)) :
    ((workspace.withEvents waiter puts).store.workflow identity).name = (workspace.store.workflow identity).name := by
  by_cases same : waiter = identity
  · subst same
    rw [Workspace.withEvents, Workspace.workflow_withWorkflow has]
  · exact congrArg Workflow.name (getD_modify_ne _ _ _ same)

/-- A workflow that waits for the runs of others, rendered after any of them have been renamed. Its
event has the options that were given; of those waited for in a list each workflow is called by the
name that it has by then, and a list without workflows is rendered as it is. A text is rendered as the
list of its characters. -/
theorem awaited_workflows (call : Call) {workspace : Workspace} {waiter : Nat} (has : workspace.store.Has (.workflow waiter))
    {arguments : List Value} {entries : List (Value × Value)} (awaiting : Awaiting arguments entries) {workflows : Value}
    (found : Value.lookup? (.text "workflows") entries = some workflows) (renamings : List (Nat × Value)) :
    ∃ after, (do let _ ← callMethod call (.workflow waiter) "on" arguments; renameAll call renamings).run workspace = (.ok (), after) ∧
      (∀ identity, workspace.store.Has (.workflow identity) → after.store.nameOf (.workflow identity) =
        (lastPut renamings identity).getD (workspace.store.workflow identity).name) ∧
      (∀ record, after.store.renderWorkflow waiter = .ok record → ∃ events tree,
        record.sections.lookup "on" = some (Tree.record events) ∧ events.lookup "workflow_run" = some tree ∧
        after.store.renderEvent "workflow_run" (.map entries) = .ok tree) ∧
      (∀ items, workflows = .list items →
        after.store.renderEvent "workflow_run" (.map entries) =
          after.store.plain (.map (Value.insert (.text "workflows") (.list (items.map after.store.nameOf)) entries)) ∧
        ((∀ item ∈ items, ∀ identity, item ≠ .workflow identity) →
          after.store.renderEvent "workflow_run" (.map entries) = after.store.plain (.map entries))) ∧
      ∀ text, workflows = .text text →
        after.store.renderEvent "workflow_run" (.map entries) =
          after.store.plain (.map (Value.insert (.text "workflows") (.list (text.toList.map fun c => .text c.toString)) entries)) := by
  have some : entries ≠ [] := by
    rintro rfl
    cases found
  let waiting := workspace.withEvents waiter [("workflow_run", .map entries)]
  obtain ⟨after, ran, later⟩ := @run_renameAll call renamings waiting
  have existing (identity : Nat) (has : workspace.store.Has (.workflow identity)) : waiting.store.Has (.workflow identity) :=
    Workspace.has_withWorkflow.mpr has
  refine ⟨after, (run_bind_ok (run_awaiting awaiting some waiter workspace)).trans ran, ?_, ?_, ?_, ?_⟩
  · intro identity known
    rw [← name_withEvents known [("workflow_run", .map entries)]]
    exact (later identity (existing identity known)).2
  · intro record rendered
    have listed : (waiting.store.workflow waiter).events = _ := congrArg Workflow.events (Workspace.workflow_withWorkflow has _)
    refine Store.event_of_renderWorkflow rendered ?_
    rw [(later waiter (existing waiter has)).1, listed]
    exact Workflow.lookup_putNamed _ _ _
  · rintro items rfl
    have named : after.store.renderEvent "workflow_run" (.map entries) = _ := Store.renderEvent_workflows found rfl
    refine ⟨named, fun plain => ?_⟩
    rw [named, Store.nameOf_plain plain, Value.insert_same found]
  · rintro text rfl
    have named : after.store.renderEvent "workflow_run" (.map entries) = _ := Store.renderEvent_workflows found rfl
    rw [named, Store.nameOf_plain fun item member identity => ?_]
    obtain ⟨c, -, rfl⟩ := List.mem_map.mp member
    simp

/-- A workflow that deploys, and one that it may wait for. -/
def deploying : Workspace where
  store := { workflows := [{ name := .text "Deploy", fileName := .text "deploy" }, { name := .text "CI", fileName := .text "ci" }] }

theorem equals_workflows : Value.equals (.text "workflows") (.text "workflows") = true :=
  (Store.equals_ofLabel (.text "workflows") (.text "workflows")).trans (beq_self_eq_true _)

theorem lookup?_workflows (workflows : Value) (rest : List (Value × Value)) :
    Value.lookup? (.text "workflows") ((.text "workflows", workflows) :: rest) = some workflows := by
  simp [Value.lookup?, equals_workflows]

theorem insert_workflows (workflows old : Value) (rest : List (Value × Value)) :
    Value.insert (.text "workflows") workflows ((.text "workflows", old) :: rest) = (.text "workflows", workflows) :: rest := by
  simp [Value.insert, equals_workflows]

theorem awaited_workflows_deploying :
    deploying.store.Has (.workflow 0) ∧
    Awaiting [.event .run [.list [.workflow 1, .text "Nightly"], .list [.text "completed"], .null]]
      [(.text "workflows", .list [.workflow 1, .text "Nightly"]), (.text "types", .list [.text "completed"])] ∧
    ∃ after, (after : Workspace).store.nameOf (.workflow 1) = .text "Build" ∧
      after.store.renderEvent "workflow_run"
          (.map [(.text "workflows", .list [.workflow 1, .text "Nightly"]), (.text "types", .list [.text "completed"])]) =
        .ok (.map [(.text "workflows", .list [.text "Build", .text "Nightly"]), (.text "types", .list [.text "completed"])]) := by
  have has : deploying.store.Has (.workflow 0) := by decide
  have awaiting : Awaiting [.event .run [.list [.workflow 1, .text "Nightly"], .list [.text "completed"], .null]]
      [(.text "workflows", .list [.workflow 1, .text "Nightly"]), (.text "types", .list [.text "completed"])] := .event rfl
  obtain ⟨after, -, names, -, listed, -⟩ :=
    awaited_workflows (fun _ _ => fail .mistyped) has awaiting (lookup?_workflows _ _) [(1, .text "Test"), (1, .text "Build")]
  have named := names 1 (by decide)
  refine ⟨has, awaiting, after, named, ?_⟩
  rw [(listed _ rfl).1, List.map_cons, named, insert_workflows]
  rfl

/-- A single name is taken apart, where its plain form is the name. -/
theorem awaited_name_split :
    (callMethod (fun _ _ => fail .mistyped) (.workflow 0) "on"
        [.text "workflow_run", .map [(.text "workflows", .text "CI")]]).run deploying =
      (.ok (.workflow 0), deploying.withEvents 0 [("workflow_run", .map [(.text "workflows", .text "CI")])]) ∧
    (deploying.withEvents 0 [("workflow_run", .map [(.text "workflows", .text "CI")])]).store.renderEvent "workflow_run"
        (.map [(.text "workflows", .text "CI")]) =
      .ok (.map [(.text "workflows", .list [.text "C", .text "I"])]) ∧
    (deploying.withEvents 0 [("workflow_run", .map [(.text "workflows", .text "CI")])]).store.plain
        (.map [(.text "workflows", .text "CI")]) = .ok (.map [(.text "workflows", .text "CI")]) := by
  refine ⟨run_awaiting (.options _) (List.cons_ne_nil _ _) 0 deploying, ?_, rfl⟩
  rw [Store.renderEvent_workflows (lookup?_workflows _ _) rfl, insert_workflows]
  rfl

end Build

end WorkflowCompiler
