import WorkflowCompiler.Proofs.RenderedFiles

/-! Rendering to plain data fails for reasons of its own. Structural faults come up in it only where a
job or a workflow is itself part of a value. -/

namespace WorkflowCompiler

/-- The value holds a job or a workflow, if only in a step that it holds. -/
inductive Embeds (store : Store) : Value → Prop
  | job (identity : Nat) : Embeds store (.job identity)
  | workflow (identity : Nat) : Embeds store (.workflow identity)
  | item {value : Value} {items : List Value} (member : value ∈ items) (inner : Embeds store value) :
      Embeds store (.list items)
  | tupleItem {value : Value} {items : List Value} (member : value ∈ items) (inner : Embeds store value) :
      Embeds store (.tuple items)
  | entry {key value : Value} {entries : List (Value × Value)} (member : (key, value) ∈ entries)
      (inner : Embeds store value) : Embeds store (.map entries)
  | setting {identity : Nat} (field : StepField) (inner : Embeds store ((store.step identity).fields field)) :
      Embeds store (.step identity)

/-- The result is no report of structural faults. -/
def Quiet (result : Except Failure α) : Prop := ∀ failure, result = .error failure → failure.category ≠ .validation

theorem quiet_ok (value : α) : Quiet (.ok value : Except Failure α) := by
  intro failure failed
  cases failed

theorem quiet_cause {cause : Cause} (other : cause.category ≠ .validation) :
    Quiet (.error (.ofCause cause) : Except Failure α) := by
  intro failure failed
  cases failed
  exact other

theorem Quiet.bind {first : Except Failure α} {next : α → Except Failure β} (quiet : Quiet first)
    (later : ∀ value, Quiet (next value)) : Quiet (first >>= next) := by
  cases first with
  | error failure => exact fun other failed => quiet other (by cases failed; rfl)
  | ok value => exact later value

theorem quiet_mapM {items : List α} {make : α → Except Failure β} (quiet : ∀ item ∈ items, Quiet (make item)) :
    Quiet (items.mapM make) := by
  induction items with
  | nil => exact quiet_ok []
  | cons item items ih =>
    rw [List.mapM_cons]
    refine (quiet item List.mem_cons_self).bind fun first => ?_
    exact (ih fun item member => quiet item (List.mem_cons_of_mem _ member)).bind fun _ => quiet_ok _

namespace Value

variable {visit : Target → Except Failure String}

mutual

theorem quiet_shownWith (quiet : ∀ target, Quiet (visit target)) : ∀ value, Quiet (shownWith visit value)
  | .null => quiet_ok _
  | .bool _ => quiet_ok _
  | .int _ => quiet_ok _
  | .float _ => quiet_ok _
  | .text _ => quiet_ok _
  | .choice _ => quiet_ok _
  | .bytes _ => quiet_ok _
  | .file _ => quiet_ok _
  | .list items => (quiet_shownItems quiet items).bind fun _ => quiet_ok _
  | .tuple [] => quiet_ok _
  | .tuple [item] => (quiet_shownWith quiet item).bind fun _ => quiet_ok _
  | .tuple (first :: second :: items) =>
    (quiet_shownItems quiet (first :: second :: items)).bind fun _ => quiet_ok _
  | .map entries => (quiet_shownEntries quiet entries).bind fun _ => quiet_ok _
  | .path _ => quiet_ok _
  | .pathLike _ _ => quiet_ok _
  | .foreign _ _ => quiet_ok _
  | .expression _ => quiet _
  | .step _ => quiet _
  | .job _ => quiet _
  | .workflow _ => quiet _
  | .command line _ _ => (quiet_shownWith quiet line).bind fun _ => quiet_ok _
  | .event _ settings => (quiet_shownItems quiet settings).bind fun _ => quiet_ok _
  | .input _ settings => (quiet_shownItems quiet settings).bind fun _ => quiet_ok _
  | .function _ => quiet_ok _
  | .failure _ _ => quiet_ok _

theorem quiet_shownItems (quiet : ∀ target, Quiet (visit target)) : ∀ items, Quiet (shownItems visit items)
  | [] => quiet_ok _
  | value :: rest =>
    (quiet_shownWith quiet value).bind fun _ => (quiet_shownItems quiet rest).bind fun _ => quiet_ok _

theorem quiet_shownEntries (quiet : ∀ target, Quiet (visit target)) : ∀ entries, Quiet (shownEntries visit entries)
  | [] => quiet_ok _
  | entry :: rest =>
    (quiet_shownEntry quiet entry).bind fun _ => (quiet_shownEntries quiet rest).bind fun _ => quiet_ok _

theorem quiet_shownEntry (quiet : ∀ target, Quiet (visit target)) : ∀ entry, Quiet (shownEntry visit entry)
  | (key, value) => (quiet_shownWith quiet key).bind fun _ => (quiet_shownWith quiet value).bind fun _ => quiet_ok _

end

variable {store : Store} {wording : Value → Except Failure String} {plain : Target → Except Failure Tree}

mutual

theorem quiet_plainWith (worded : ∀ value, Quiet (wording value))
    (expressions : ∀ identity, Quiet (plain (.expression identity)))
    (steps : ∀ identity, ¬Embeds store (.step identity) → Quiet (plain (.step identity))) :
    ∀ value, ¬Embeds store value → Quiet (plainWith wording plain value)
  | .null, _ => quiet_ok _
  | .bool _, _ => quiet_ok _
  | .int _, _ => quiet_ok _
  | .float _, _ => quiet_ok _
  | .text _, _ => quiet_ok _
  | .choice _, _ => quiet_ok _
  | .bytes _, _ => quiet_cause (by simp [Cause.category])
  | .file _, _ => quiet_ok _
  | .list items, apart =>
    (quiet_plainItems worded expressions steps items fun _ member inner => apart (.item member inner)).bind
      fun _ => quiet_ok _
  | .tuple items, apart =>
    (quiet_plainItems worded expressions steps items fun _ member inner => apart (.tupleItem member inner)).bind
      fun _ => quiet_ok _
  | .map entries, apart =>
    (quiet_plainEntries worded expressions steps entries [] fun _ member inner => apart (.entry member inner)).bind
      fun _ => quiet_ok _
  | .path _, _ => quiet_ok _
  | .pathLike identity segments, _ => by
    rw [plainWith]
    cases (pathLike identity segments).segments? with
    | none => exact quiet_cause (by simp [Cause.category])
    | some labels => exact quiet_ok _
  | .foreign _ _, _ => quiet_cause (by simp [Cause.category])
  | .expression identity, _ => expressions identity
  | .step identity, apart => steps identity apart
  | .job identity, apart => absurd (.job identity) apart
  | .workflow identity, apart => absurd (.workflow identity) apart
  | .command line _ _, _ => by
    rw [plainWith]
    cases line.chars? with
    | none => exact quiet_cause (by simp [Cause.category])
    | some written => exact quiet_ok _
  | .event _ _, _ => quiet_cause (by simp [Cause.category])
  | .input _ _, _ => quiet_cause (by simp [Cause.category])
  | .function _, _ => quiet_cause (by simp [Cause.category])
  | .failure _ _, _ => quiet_cause (by simp [Cause.category])

theorem quiet_plainItems (worded : ∀ value, Quiet (wording value))
    (expressions : ∀ identity, Quiet (plain (.expression identity)))
    (steps : ∀ identity, ¬Embeds store (.step identity) → Quiet (plain (.step identity))) :
    ∀ items : List Value, (∀ value ∈ items, ¬Embeds store value) → Quiet (plainItems wording plain items)
  | [], _ => quiet_ok _
  | value :: rest, apart =>
    (quiet_plainWith worded expressions steps value (apart value List.mem_cons_self)).bind fun _ =>
      (quiet_plainItems worded expressions steps rest fun value member => apart value (List.mem_cons_of_mem _ member)).bind
        fun _ => quiet_ok _

theorem quiet_plainEntries (worded : ∀ value, Quiet (wording value))
    (expressions : ∀ identity, Quiet (plain (.expression identity)))
    (steps : ∀ identity, ¬Embeds store (.step identity) → Quiet (plain (.step identity))) :
    ∀ (entries : List (Value × Value)) (found : List (Tree × Tree)),
      (∀ entry ∈ entries, ¬Embeds store entry.2) → Quiet (plainEntries wording plain found entries)
  | [], _, _ => quiet_ok _
  | entry :: rest, found, apart =>
    (quiet_plainEntry worded expressions steps entry found (apart entry List.mem_cons_self)).bind fun _ =>
      quiet_plainEntries worded expressions steps rest _ fun entry member => apart entry (List.mem_cons_of_mem _ member)

theorem quiet_plainEntry (worded : ∀ value, Quiet (wording value))
    (expressions : ∀ identity, Quiet (plain (.expression identity)))
    (steps : ∀ identity, ¬Embeds store (.step identity) → Quiet (plain (.step identity))) :
    ∀ (entry : Value × Value) (found : List (Tree × Tree)), ¬Embeds store entry.2 →
      Quiet (plainEntry wording plain found entry)
  | (key, value), found, apart => by
    have later : ∀ name : String, Quiet (do
        return Tree.putText name (← plainWith wording plain value) found : Except Failure (List (Tree × Tree))) :=
      fun _ => (quiet_plainWith worded expressions steps value apart).bind fun _ => quiet_ok _
    cases key with
    | choice key => exact (quiet_ok key.text).bind later
    | _ => exact (worded _).bind later

end

end Value

namespace Store

variable {store : Store}

theorem quiet_expressionTextWithin (hops identity : Nat) : Quiet (store.expressionTextWithin hops identity) := by
  induction hops generalizing identity with
  | zero => exact quiet_cause (by simp [Cause.category])
  | succ hops ih =>
    rw [expressionTextWithin]
    refine (quiet_mapM ?_).bind fun _ => quiet_ok _
    intro fragment _
    cases fragment with
    | text value => exact quiet_ok _
    | path segments => exact quiet_ok _
    | nested inner => exact ih inner

theorem quiet_wordingWith {shown : Value → Except Failure String} (quiet : ∀ value, Quiet (shown value)) (value : Value) :
    Quiet (store.wordingWith shown value) := by
  unfold wordingWith
  split
  · exact quiet_ok _
  · exact quiet_ok _
  · exact quiet_ok _
  · exact quiet_ok _
  · exact quiet_expressionTextWithin _ _
  · split
    · exact quiet_ok _
    · exact quiet_ok _
    · exact quiet_cause (by simp [Cause.category])
  · exact quiet_ok _
  · exact quiet _

theorem quiet_shownWithin (hops : Nat) (target : Target) : Quiet (store.shownWithin hops target) := by
  induction hops generalizing target with
  | zero => exact quiet_cause (by simp [Cause.category])
  | succ hops ih =>
    have shown := Value.quiet_shownWith ih
    cases target with
    | expression identity => exact (quiet_expressionTextWithin _ _).bind fun _ => quiet_ok _
    | step identity => exact (shown _).bind fun _ => quiet_ok _
    | job identity => exact (shown _).bind fun _ => quiet_ok _
    | workflow identity =>
      exact (quiet_wordingWith shown _).bind fun _ => (quiet_wordingWith shown _).bind fun _ => quiet_ok _

theorem quiet_wording (value : Value) : Quiet (store.wording value) :=
  quiet_wordingWith (Value.quiet_shownWith (quiet_shownWithin _)) value

theorem quiet_recordOf {plain : Value → Except Failure Tree} {fields : List (String × Value)}
    (quiet : ∀ field ∈ fields, Quiet (plain field.2)) : Quiet (recordOf plain fields) :=
  quiet_mapM fun field member => (quiet field (List.mem_filter.mp member).1).bind fun _ => quiet_ok _

theorem quiet_stepRecord {plain : Value → Except Failure Tree} {step : Step}
    (quiet : ∀ field, Quiet (plain (step.fields field))) : Quiet (stepRecord plain step) := by
  refine (quiet_recordOf ?_).bind fun _ => quiet_ok _
  intro entry member
  obtain ⟨field, -, rfl⟩ := List.mem_map.mp member
  exact quiet field

theorem quiet_plainWithin (hops : Nat) {value : Value} (apart : ¬Embeds store value) :
    Quiet (value.plainWith store.wording (store.targetWithin hops)) := by
  induction hops generalizing value with
  | zero =>
    refine Value.quiet_plainWith quiet_wording ?_ ?_ value apart
    · exact fun _ => quiet_cause (by simp [Cause.category])
    · exact fun _ _ => quiet_cause (by simp [Cause.category])
  | succ hops ih =>
    refine Value.quiet_plainWith quiet_wording ?_ ?_ value apart
    · intro identity
      rw [targetWithin]
      exact (quiet_expressionTextWithin _ _).bind fun _ => quiet_ok _
    · intro identity outside
      rw [targetWithin]
      exact quiet_stepRecord fun field => ih fun inner => outside (.setting field inner)

/-- A value without jobs and workflows in it is not refused for structural faults. -/
theorem quiet_plain {value : Value} (apart : ¬Embeds store value) : Quiet (store.plain value) := quiet_plainWithin _ apart

end Store

end WorkflowCompiler
