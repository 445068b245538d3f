import WorkflowCompiler.Proofs.CallFrames
import WorkflowCompiler.Proofs.EventEntries
import WorkflowCompiler.Proofs.HopLimits

/-! Rendering in a store that has grown. Objects that a store holds render as before once other
objects have come about, since what they hold is in the store already. References may run in a
circle: it does not matter then for how many hops they are followed. -/

namespace WorkflowCompiler

namespace Value

/-- The value is an object or has it somewhere inside. -/
inductive Holds (target : Target) : Value → Prop
  | self {value : Value} (named : value.target? = some target) : Holds target value
  | item {value : Value} {items : List Value} (member : value ∈ items) (inner : Holds target value) : Holds target (.list items)
  | tupleItem {value : Value} {items : List Value} (member : value ∈ items) (inner : Holds target value) :
      Holds target (.tuple items)
  | key {key value : Value} {entries : List (Value × Value)} (member : (key, value) ∈ entries) (inner : Holds target key) :
      Holds target (.map entries)
  | entry {key value : Value} {entries : List (Value × Value)} (member : (key, value) ∈ entries) (inner : Holds target value) :
      Holds target (.map entries)
  | line {line output exported : Value} (inner : Holds target line) : Holds target (.command line output exported)
  | setting {kind : EventKind} {value : Value} {settings : List Value} (member : value ∈ settings) (inner : Holds target value) :
      Holds target (.event kind settings)
  | inputSetting {kind : InputKind} {value : Value} {settings : List Value} (member : value ∈ settings)
      (inner : Holds target value) : Holds target (.input kind settings)

/-- Whatever object the value holds is one of those that are meant. -/
def Within (inside : Target → Prop) (value : Value) : Prop := ∀ target, value.Holds target → inside target

variable {inside : Target → Prop}

section

variable {visit other : Target → Except Failure String}

mutual

theorem refines_shownWith (each : ∀ target, inside target → Refines (visit target) (other target)) :
    ∀ value, Within inside value → Refines (shownWith visit value) (shownWith other value)
  | .null, _ => .refl _
  | .bool _, _ => .refl _
  | .int _, _ => .refl _
  | .float _, _ => .refl _
  | .text _, _ => .refl _
  | .choice _, _ => .refl _
  | .bytes _, _ => .refl _
  | .file _, _ => .refl _
  | .list items, within =>
    (refines_shownItems each items fun _ member _ inner => within _ (.item member inner)).bind fun _ => .refl _
  | .tuple [], _ => .refl _
  | .tuple [item], within =>
    (refines_shownWith each item fun _ inner => within _ (.tupleItem List.mem_cons_self inner)).bind fun _ => .refl _
  | .tuple (first :: second :: items), within =>
    (refines_shownItems each (first :: second :: items) fun _ member _ inner => within _ (.tupleItem member inner)).bind
      fun _ => .refl _
  | .map entries, within =>
    (refines_shownEntries each entries fun _ member =>
      ⟨fun _ inner => within _ (.key member inner), fun _ inner => within _ (.entry member inner)⟩).bind fun _ => .refl _
  | .path _, _ => .refl _
  | .pathLike _ _, _ => .refl _
  | .foreign _ _, _ => .refl _
  | .expression _, within => each _ (within _ (.self rfl))
  | .step _, within => each _ (within _ (.self rfl))
  | .job _, within => each _ (within _ (.self rfl))
  | .workflow _, within => each _ (within _ (.self rfl))
  | .command line _ _, within => (refines_shownWith each line fun _ inner => within _ (.line inner)).bind fun _ => .refl _
  | .event _ settings, within =>
    (refines_shownItems each settings fun _ member _ inner => within _ (.setting member inner)).bind fun _ => .refl _
  | .input _ settings, within =>
    (refines_shownItems each settings fun _ member _ inner => within _ (.inputSetting member inner)).bind fun _ => .refl _
  | .function _, _ => .refl _
  | .failure _ _, _ => .refl _

theorem refines_shownItems (each : ∀ target, inside target → Refines (visit target) (other target)) :
    ∀ items : List Value, (∀ value ∈ items, Within inside value) → Refines (shownItems visit items) (shownItems other items)
  | [], _ => .refl _
  | value :: rest, within =>
    (refines_shownWith each value (within value List.mem_cons_self)).bind fun _ =>
      (refines_shownItems each rest fun value member => within value (List.mem_cons_of_mem _ member)).bind fun _ => .refl _

theorem refines_shownEntries (each : ∀ target, inside target → Refines (visit target) (other target)) :
    ∀ entries : List (Value × Value), (∀ entry ∈ entries, Within inside entry.1 ∧ Within inside entry.2) →
      Refines (shownEntries visit entries) (shownEntries other entries)
  | [], _ => .refl _
  | entry :: rest, within =>
    (refines_shownEntry each entry (within entry List.mem_cons_self)).bind fun _ =>
      (refines_shownEntries each rest fun entry member => within entry (List.mem_cons_of_mem _ member)).bind fun _ => .refl _

theorem refines_shownEntry (each : ∀ target, inside target → Refines (visit target) (other target)) :
    ∀ entry : Value × Value, Within inside entry.1 ∧ Within inside entry.2 →
      Refines (shownEntry visit entry) (shownEntry other entry)
  | (key, value), within =>
    (refines_shownWith each key within.1).bind fun _ => (refines_shownWith each value within.2).bind fun _ => .refl _

end

end

section

variable {wording : Value → Except Failure String} {otherWording : Value → Except Failure String}
  {visit other : Target → Except Failure Tree}

mutual

theorem refines_plainWith (names : ∀ value, Within inside value → wording value = otherWording value)
    (each : ∀ target, inside target → Refines (visit target) (other target)) :
    ∀ value, Within inside value → Refines (plainWith wording visit value) (plainWith otherWording other value)
  | .null, _ => .refl _
  | .bool _, _ => .refl _
  | .int _, _ => .refl _
  | .float _, _ => .refl _
  | .text _, _ => .refl _
  | .choice _, _ => .refl _
  | .bytes _, _ => .refl _
  | .file _, _ => .refl _
  | .list items, within =>
    (refines_plainItems names each items fun _ member _ inner => within _ (.item member inner)).bind fun _ => .refl _
  | .tuple items, within =>
    (refines_plainItems names each items fun _ member _ inner => within _ (.tupleItem member inner)).bind fun _ => .refl _
  | .map entries, within =>
    (refines_plainEntries names each entries [] fun _ member =>
      ⟨fun _ inner => within _ (.key member inner), fun _ inner => within _ (.entry member inner)⟩).bind fun _ => .refl _
  | .path _, _ => .refl _
  | .pathLike _ _, _ => .refl _
  | .foreign _ _, _ => .refl _
  | .expression _, within => each _ (within _ (.self rfl))
  | .step _, within => each _ (within _ (.self rfl))
  | .job _, within => each _ (within _ (.self rfl))
  | .workflow _, within => each _ (within _ (.self rfl))
  | .command _ _ _, _ => .refl _
  | .event _ _, _ => .refl _
  | .input _ _, _ => .refl _
  | .function _, _ => .refl _
  | .failure _ _, _ => .refl _

theorem refines_plainItems (names : ∀ value, Within inside value → wording value = otherWording value)
    (each : ∀ target, inside target → Refines (visit target) (other target)) :
    ∀ items : List Value, (∀ value ∈ items, Within inside value) →
      Refines (plainItems wording visit items) (plainItems otherWording other items)
  | [], _ => .refl _
  | value :: rest, within =>
    (refines_plainWith names each value (within value List.mem_cons_self)).bind fun _ =>
      (refines_plainItems names each rest fun value member => within value (List.mem_cons_of_mem _ member)).bind
        fun _ => .refl _

theorem refines_plainEntries (names : ∀ value, Within inside value → wording value = otherWording value)
    (each : ∀ target, inside target → Refines (visit target) (other target)) :
    ∀ (entries : List (Value × Value)) (found : List (Tree × Tree)),
      (∀ entry ∈ entries, Within inside entry.1 ∧ Within inside entry.2) →
      Refines (plainEntries wording visit found entries) (plainEntries otherWording other found entries)
  | [], _, _ => .refl _
  | entry :: rest, found, within =>
    (refines_plainEntry names each entry found (within entry List.mem_cons_self)).bind fun _ =>
      refines_plainEntries names each rest _ fun entry member => within entry (List.mem_cons_of_mem _ member)

theorem refines_plainEntry (names : ∀ value, Within inside value → wording value = otherWording value)
    (each : ∀ target, inside target → Refines (visit target) (other target)) :
    ∀ (entry : Value × Value) (found : List (Tree × Tree)), Within inside entry.1 ∧ Within inside entry.2 →
      Refines (plainEntry wording visit found entry) (plainEntry otherWording other found entry)
  | (key, value), found, within => by
    have later : ∀ name : String, Refines
        (do return Tree.putText name (← plainWith wording visit value) found)
        (do return Tree.putText name (← plainWith otherWording other value) found) :=
      fun _ => (refines_plainWith names each value within.2).bind fun _ => .refl _
    cases key with
    | choice key => exact (Refines.refl (.ok key.text)).bind later
    | _ => exact (Refines.of_eq (names _ within.1)).bind later

end

end

@[simp] theorem within_text (value : String) : (Value.text value).Within inside := fun _ holds => nomatch holds

/-- The items of a value hold only what the value holds. -/
theorem iterate_within {value : Value} {items : List Value} (within : value.Within inside) (listed : value.iterate = .ok items) :
    ∀ item ∈ items, item.Within inside := by
  intro item member
  cases value with
  | list values => cases listed; exact fun target holds => within target (.item member holds)
  | tuple values => cases listed; exact fun target holds => within target (.tupleItem member holds)
  | map entries =>
    cases listed
    obtain ⟨⟨key, value⟩, there, rfl⟩ := List.mem_map.mp member
    exact fun target holds => within target (.key there holds)
  | text value =>
    cases listed
    obtain ⟨_, -, rfl⟩ := List.mem_map.mp member
    exact within_text _
  | choice value =>
    cases listed
    obtain ⟨_, -, rfl⟩ := List.mem_map.mp member
    exact within_text _
  | bytes values =>
    cases listed
    obtain ⟨_, -, rfl⟩ := List.mem_map.mp member
    exact fun target holds => nomatch holds
  | _ => cases listed

theorem mem_of_lookup? {key : Value} {entries : List (Value × α)} {item : α} (found : Value.lookup? key entries = some item) :
    ∃ entry ∈ entries, entry.2 = item := by
  obtain ⟨entry, known, rfl⟩ := Option.map_eq_some_iff.mp found
  exact ⟨entry, List.mem_of_find?_eq_some known, rfl⟩

theorem within_map {entries : List (Value × Value)} :
    (Value.map entries).Within inside ↔ ∀ entry ∈ entries, entry.1.Within inside ∧ entry.2.Within inside := by
  constructor
  · exact fun within entry member =>
      ⟨fun target holds => within target (.key member holds), fun target holds => within target (.entry member holds)⟩
  · intro within target holds
    cases holds with
    | self named => cases named
    | key member inner => exact (within _ member).1 target inner
    | entry member inner => exact (within _ member).2 target inner

theorem within_list {items : List Value} : (Value.list items).Within inside ↔ ∀ item ∈ items, item.Within inside := by
  constructor
  · exact fun within item member target holds => within target (.item member holds)
  · intro within target holds
    cases holds with
    | self named => cases named
    | item member inner => exact within _ member target inner

theorem within_insert {key value : Value} {entries : List (Value × Value)} (onKey : key.Within inside) (onValue : value.Within inside)
    (within : (Value.map entries).Within inside) : (Value.map (Value.insert key value entries)).Within inside :=
  within_map.mpr (forall_mem_insert (Within inside) (Within inside) onKey onValue (within_map.mp within))

end Value

/-- All that an expression holds is among what is meant. -/
def Expression.Within (inside : Target → Prop) (expression : Expression) : Prop :=
  ∀ inner, .nested inner ∈ expression.contents → inside (.expression inner)

def Step.Within (inside : Target → Prop) (step : Step) : Prop := ∀ field, (step.fields field).Within inside

def Job.Within (inside : Target → Prop) (job : Job) : Prop :=
  (∀ field, (job.fields field).Within inside) ∧ ∀ step ∈ job.steps, inside (.step step)

def Workflow.Within (inside : Target → Prop) (workflow : Workflow) : Prop :=
  workflow.name.Within inside ∧ workflow.fileName.Within inside ∧ (∀ event ∈ workflow.events, event.2.Within inside) ∧
    (∀ field, (workflow.fields field).Within inside) ∧ ∀ job ∈ workflow.jobs, job.1.Within inside ∧ inside (.job job.2)

namespace Store

def Within (inside : Target → Prop) (store : Store) : Target → Prop
  | .expression identity => (store.expression identity).Within inside
  | .step identity => (store.step identity).Within inside
  | .job identity => (store.job identity).Within inside
  | .workflow identity => (store.workflow identity).Within inside

/-- All that the objects of a store hold is in the store. -/
def Closed (store : Store) : Prop := ∀ target, store.Has target → store.Within store.Has target

/-- Objects that are the same in two stores and hold only such objects. -/
structure Alike (inside : Target → Prop) (left right : Store) : Prop where
  same : ∀ target, inside target → Same left right target
  closed : ∀ target, inside target → left.Within inside target

section

variable {inside : Target → Prop} {left right : Store}

namespace Alike

theorem refl (closed : ∀ target, inside target → left.Within inside target) : Alike inside left left :=
  ⟨fun target _ => .refl left target, closed⟩

theorem symm (alike : Alike inside left right) : Alike inside right left where
  same target member := by
    have same := alike.same target member
    cases target <;> exact Eq.symm same
  closed target member := by
    have same := alike.same target member
    have within := alike.closed target member
    cases target <;> simpa only [Within, show _ = _ from same] using within

end Alike

end

section

variable {present : List Target} {left right : Store}

/-- The text of an expression; other objects have none. -/
def textWithin (store : Store) (hops : Nat) : Target → Except Failure String
  | .expression identity => store.expressionTextWithin hops identity
  | _ => .error (.ofCause .endless)

theorem advances_text (alike : Alike (· ∈ present) left right) : Advances present left.textWithin right.textWithin := by
  intro few many earlier target member
  cases target with
  | expression identity =>
    have same : right.expression identity = left.expression identity := alike.same _ member
    show Refines (left.expressionTextWithin (few + 1) identity) (right.expressionTextWithin (many + 1) identity)
    rw [expressionTextWithin, expressionTextWithin, same]
    refine Refines.bind (Refines.mapM fun fragment inner => ?_) fun _ => .refl _
    cases fragment with
    | nested identity => exact earlier (.expression identity) (alike.closed _ member identity inner)
    | _ => exact .refl _
  | _ => exact .refl _

theorem follows_text (alike : Alike (· ∈ present) left right) : Follows present left.textWithin where
  start target := by cases target <;> rfl
  advance := advances_text (.refl alike.closed)

/-- Enough hops for all places in both stores. -/
structure Roomy (present : List Target) (left right : Store) : Prop where
  left : present.length ≤ left.size + 1
  right : present.length ≤ right.size + 1

theorem Roomy.symm (roomy : Roomy present left right) : Roomy present right left := ⟨roomy.right, roomy.left⟩

theorem expressionText_eq (alike : Alike (· ∈ present) left right) (roomy : Roomy present left right) {identity : Nat}
    (member : .expression identity ∈ present) : left.expressionText identity = right.expressionText identity :=
  (follows_text alike).agree (follows_text alike.symm) (advances_text alike) (advances_text alike.symm) roomy.left roomy.right
    _ member

theorem refines_wordingWith (alike : Alike (· ∈ present) left right) (roomy : Roomy present left right)
    {shown other : Value → Except Failure String} {value : Value} (within : value.Within (· ∈ present))
    (same : Refines (shown value) (other value)) : Refines (left.wordingWith shown value) (right.wordingWith other value) := by
  unfold wordingWith
  split
  · exact .refl _
  · exact .refl _
  · exact .refl _
  · exact .refl _
  · exact .of_eq (expressionText_eq alike roomy (within _ (.self rfl)))
  · exact .refl _
  · exact .refl _
  · exact same

theorem advances_shown (alike : Alike (· ∈ present) left right) (roomy : Roomy present left right) :
    Advances present left.shownWithin right.shownWithin := by
  intro few many earlier target member
  have shown {value : Value} (within : value.Within (· ∈ present)) := Value.refines_shownWith earlier value within
  have closed := alike.closed target member
  have same := alike.same target member
  cases target with
  | expression identity =>
    rw [shownWithin, shownWithin]
    exact (Refines.of_eq (expressionText_eq alike roomy member)).bind fun _ => .refl _
  | step identity =>
    have same : right.step identity = left.step identity := same
    have label : (left.step identity).label.Within (· ∈ present) := by
      unfold Step.label
      split
      · exact closed .name
      · exact closed .id
    rw [shownWithin, shownWithin, same]
    exact (shown label).bind fun _ => .refl _
  | job identity =>
    have same : right.job identity = left.job identity := same
    rw [shownWithin, shownWithin, same]
    exact (shown (closed.1 .name)).bind fun _ => .refl _
  | workflow identity =>
    have same : right.workflow identity = left.workflow identity := same
    obtain ⟨name, fileName, -⟩ := closed
    rw [shownWithin, shownWithin, same]
    refine (refines_wordingWith alike roomy name (shown name)).bind fun _ => ?_
    exact (refines_wordingWith alike roomy fileName (shown fileName)).bind fun _ => .refl _

theorem follows_shown (alike : Alike (· ∈ present) left right) (room : present.length ≤ left.size + 1) :
    Follows present left.shownWithin where
  start _ := rfl
  advance := advances_shown (.refl alike.closed) ⟨room, room⟩

theorem wording_eq (alike : Alike (· ∈ present) left right) (roomy : Roomy present left right) {value : Value}
    (within : value.Within (· ∈ present)) : left.wording value = right.wording value := by
  have each := (follows_shown alike roomy.left).agree (follows_shown alike.symm roomy.right) (advances_shown alike roomy)
    (advances_shown alike.symm roomy.symm) roomy.left roomy.right
  have shown : left.shown value = right.shown value :=
    (Value.refines_shownWith (fun target member => .of_eq (each target member)) value within).antisymm
      (Value.refines_shownWith (fun target member => .of_eq (each target member).symm) value within)
  exact (refines_wordingWith alike roomy within (.of_eq shown)).antisymm
    (refines_wordingWith alike.symm roomy.symm within (.of_eq shown.symm))

theorem jobSteps_same (alike : Alike (· ∈ present) left right) {job : Job} (steps : ∀ step ∈ job.steps, .step step ∈ present) :
    right.jobSteps job = left.jobSteps job :=
  List.map_congr_left fun step member => alike.same _ (steps step member)

theorem repetitions_same {label : String} {ids seen : List Value} (words : ∀ id ∈ ids, left.wording id = right.wording id) :
    jobFaults.repetitions left label seen ids = jobFaults.repetitions right label seen ids := by
  induction ids generalizing seen with
  | nil => rfl
  | cons id rest ih =>
    obtain ⟨first, later⟩ := List.forall_mem_cons.mp words
    rw [jobFaults.repetitions, jobFaults.repetitions, ih later, first]

/-- A job has the same faults in both stores. -/
theorem jobFaults_same (alike : Alike (· ∈ present) left right) (roomy : Roomy present left right) {job : Job} {jobId : Value}
    (name : (job.label jobId).Within (· ∈ present)) (steps : ∀ step ∈ job.steps, .step step ∈ present) :
    left.jobFaults job jobId = right.jobFaults job jobId := by
  have ids : right.stepIds job = left.stepIds job := by rw [stepIds, stepIds, jobSteps_same alike steps]
  have words : ∀ id ∈ left.stepIds job, left.wording id = right.wording id := by
    intro id member
    obtain ⟨step, there, rfl⟩ := List.mem_map.mp (List.mem_filter.mp member).1
    obtain ⟨identity, inside, rfl⟩ := List.mem_map.mp there
    exact wording_eq alike roomy (alike.closed _ (steps identity inside) .id)
  have repeated {label : String} : jobFaults.repetitions left label [] (left.stepIds job) =
      jobFaults.repetitions right label [] (left.stepIds job) := repetitions_same words
  rw [jobFaults, jobFaults, ids, wording_eq alike roomy name]
  simp only [repeated]

theorem refines_recordOf {plain other : Value → Except Failure Tree} {fields : List (String × Value)}
    (each : ∀ field ∈ fields, Refines (plain field.2) (other field.2)) : Refines (recordOf plain fields) (recordOf other fields) :=
  .mapM fun field member => (each field (List.mem_filter.mp member).1).bind fun _ => .refl _

section

variable {plain other : Value → Except Failure Tree}

theorem refines_stepRecord {step : Step} (each : ∀ field, Refines (plain (step.fields field)) (other (step.fields field))) :
    Refines (stepRecord plain step) (stepRecord other step) := by
  refine (refines_recordOf fun entry member => ?_).bind fun _ => .refl _
  obtain ⟨field, -, rfl⟩ := List.mem_map.mp member
  exact each field

/-- The id under which a job is rendered, or the name that stands for it. -/
theorem label_within {inside : Target → Prop} {job : Job} {jobId : Value} (within : jobId.Within inside) :
    (job.label jobId).Within inside := by
  unfold Job.label
  split
  · exact within
  · split <;> exact fun target holds => nomatch holds

theorem refines_jobRecord (alike : Alike (· ∈ present) left right) (roomy : Roomy present left right)
    (each : ∀ value : Value, value.Within (· ∈ present) → Refines (plain value) (other value)) {identity : Nat} {jobId : Value}
    (member : .job identity ∈ present) (called : jobId.Within (· ∈ present)) :
    Refines (left.jobRecord plain (left.job identity) jobId) (right.jobRecord other (right.job identity) jobId) := by
  obtain ⟨fields, steps⟩ := alike.closed _ member
  have same : right.job identity = left.job identity := alike.same _ member
  have label : ((left.job identity).label jobId).Within (· ∈ present) := label_within called
  rw [jobRecord, jobRecord, same, ← jobFaults_same alike roomy label steps, ← wording_eq alike roomy label]
  have rest : Refines
      (do
        let steps ← (left.jobSteps (left.job identity)).mapM (stepRecord plain)
        let settings ← recordOf plain (JobField.all.map fun field => (field.key, (left.job identity).fields field))
        return Tree.record (settings ++ if steps.isEmpty then [] else [("steps", .list steps)]))
      (do
        let steps ← (right.jobSteps (left.job identity)).mapM (stepRecord other)
        let settings ← recordOf other (JobField.all.map fun field => (field.key, (left.job identity).fields field))
        return Tree.record (settings ++ if steps.isEmpty then [] else [("steps", .list steps)])) := by
    rw [jobSteps_same alike steps]
    refine (Refines.mapM fun step there => ?_).bind fun _ => (refines_recordOf fun entry there => ?_).bind fun _ => .refl _
    · obtain ⟨identity, inside, rfl⟩ := List.mem_map.mp there
      exact refines_stepRecord fun field => each _ (alike.closed _ (steps identity inside) field)
    · obtain ⟨field, -, rfl⟩ := List.mem_map.mp there
      exact each _ (fields field)
  refine (Refines.refl _).bind fun faults => ?_
  cases faults with
  | nil => exact rest
  | cons fault more => exact (Refines.refl _).bind fun _ => .refl _

theorem nameOf_same (alike : Alike (· ∈ present) left right) {value : Value} (within : value.Within (· ∈ present)) :
    left.nameOf value = right.nameOf value ∧ (left.nameOf value).Within (· ∈ present) := by
  cases value with
  | workflow identity =>
    have member := within _ (.self rfl)
    have same : right.workflow identity = left.workflow identity := alike.same _ member
    exact ⟨by rw [nameOf, nameOf, same], (alike.closed _ member).1⟩
  | _ => exact ⟨rfl, within⟩

/-- Workflows whose runs are waited for have the same names. -/
theorem eventOptions_same (alike : Alike (· ∈ present) left right) {name : String} {options : Value}
    (within : options.Within (· ∈ present)) :
    left.eventOptions name options = right.eventOptions name options ∧
      ∀ shown, left.eventOptions name options = .ok shown → shown.Within (· ∈ present) := by
  by_cases waits : ∃ entries workflows, name = "workflow_run" ∧ options = .map entries ∧
      Value.lookup? (.text "workflows") entries = some workflows
  · obtain ⟨entries, workflows, rfl, rfl, found⟩ := waits
    rw [eventOptions_workflows found, eventOptions_workflows found]
    obtain ⟨entry, there, rfl⟩ := Value.mem_of_lookup? found
    rcases iterated : entry.2.iterate with failure | items
    · exact ⟨rfl, fun shown same => nomatch same⟩
    have inside := Value.iterate_within (Value.within_map.mp within entry there).2 iterated
    have names : items.map left.nameOf = items.map right.nameOf :=
      List.map_congr_left fun item listed => (nameOf_same alike (inside item listed)).1
    refine ⟨?_, fun shown same => ?_⟩
    · show Except.ok (Value.map (Value.insert _ (.list (items.map left.nameOf)) entries)) = _
      rw [names]
      rfl
    · cases same
      refine Value.within_insert (Value.within_text _) (Value.within_list.mpr fun item listed => ?_) within
      obtain ⟨other, there, rfl⟩ := List.mem_map.mp listed
      exact (nameOf_same alike (inside other there)).2
  · have others (entries : List (Value × Value)) (workflows : Value) (named : name = "workflow_run") (given : options = .map entries) :
        Value.lookup? (.text "workflows") entries ≠ some workflows :=
      fun found => waits ⟨entries, workflows, named, given, found⟩
    rw [eventOptions_others others, eventOptions_others others]
    exact ⟨rfl, fun shown same => by cases same; exact within⟩

theorem refines_jobRecords (alike : Alike (· ∈ present) left right) (roomy : Roomy present left right)
    (each : ∀ value : Value, value.Within (· ∈ present) → Refines (plain value) (other value)) {jobs : List (Value × Nat)}
    (within : ∀ job ∈ jobs, job.1.Within (· ∈ present) ∧ .job job.2 ∈ present) :
    Refines (left.jobRecords plain jobs) (right.jobRecords other jobs) := by
  induction jobs with
  | nil => exact .refl _
  | cons entry rest ih =>
    obtain ⟨jobId, identity⟩ := entry
    obtain ⟨⟨called, member⟩, others⟩ := List.forall_mem_cons.mp within
    rw [jobRecords, jobRecords]
    rcases refines_jobRecord alike roomy each member called with ended | same
    · rw [ended]
      exact .inl rfl
    · rw [← same]
      rcases left.jobRecord plain (left.job identity) jobId with failure | record
      · dsimp only
        split
        · exact .refl _
        · exact (ih others).bind fun _ => .refl _
      · refine (ih others).bind fun _ => ?_
        have words := wording_eq alike roomy called
        cases jobId with
        | choice => exact .refl _
        | _ => exact (Refines.of_eq words).bind fun _ => .refl _

theorem refines_workflowSections (alike : Alike (· ∈ present) left right) (roomy : Roomy present left right)
    (each : ∀ value : Value, value.Within (· ∈ present) → Refines (plain value) (other value)) {identity : Nat}
    (member : .workflow identity ∈ present) :
    Refines (left.workflowSections plain (left.workflow identity)) (right.workflowSections other (right.workflow identity)) := by
  obtain ⟨name, fileName, events, fields, jobs⟩ := alike.closed _ member
  have same : right.workflow identity = left.workflow identity := alike.same _ member
  rw [workflowSections, workflowSections, same, ← wording_eq alike roomy name]
  refine (refines_jobRecords alike roomy each jobs).bind fun reported => ?_
  have rest : Refines
      (do
        let events ← (left.workflow identity).events.mapM fun event => do
          return (event.1, ← plain (← left.eventOptions event.1 event.2))
        let settings ← recordOf plain (WorkflowField.all.map fun field => (field.key, (left.workflow identity).fields field))
        return (if events.isEmpty then [] else [("on", Tree.record events)]) ++ settings
          ++ (if reported.1.isEmpty then [] else [("jobs", .map (mergeKeys reported.1))]))
      (do
        let events ← (left.workflow identity).events.mapM fun event => do
          return (event.1, ← other (← right.eventOptions event.1 event.2))
        let settings ← recordOf other (WorkflowField.all.map fun field => (field.key, (left.workflow identity).fields field))
        return (if events.isEmpty then [] else [("on", Tree.record events)]) ++ settings
          ++ (if reported.1.isEmpty then [] else [("jobs", .map (mergeKeys reported.1))])) := by
    refine (Refines.mapM fun event there => ?_).bind fun _ => (refines_recordOf fun entry there => ?_).bind fun _ => .refl _
    · obtain ⟨name, options⟩ := event
      obtain ⟨same, shown⟩ := eventOptions_same alike (events _ there)
      show Refines (left.eventOptions name options >>= fun shown => plain shown >>= fun tree => pure (name, tree))
        (right.eventOptions name options >>= fun shown => other shown >>= fun tree => pure (name, tree))
      rw [← same]
      rcases given : left.eventOptions name options with failure | value
      · exact .refl _
      · exact (each value (shown value given)).bind fun _ => .refl _
    · obtain ⟨field, -, rfl⟩ := List.mem_map.mp there
      exact each _ (fields field)
  obtain ⟨records, failures⟩ := reported
  cases failures with
  | nil => exact rest
  | cons failure more => exact (Refines.refl _).bind fun _ => .refl _

end

theorem advances_target (alike : Alike (· ∈ present) left right) (roomy : Roomy present left right) :
    Advances present left.targetWithin right.targetWithin := by
  intro few many earlier target member
  have each (value : Value) (within : value.Within (· ∈ present)) :
      Refines (value.plainWith left.wording (left.targetWithin few)) (value.plainWith right.wording (right.targetWithin many)) :=
    Value.refines_plainWith (fun value within => wording_eq alike roomy within) earlier value within
  have same := alike.same target member
  cases target with
  | expression identity =>
    rw [targetWithin, targetWithin]
    exact (Refines.of_eq (expressionText_eq alike roomy member)).bind fun _ => .refl _
  | step identity =>
    have same : right.step identity = left.step identity := same
    rw [targetWithin, targetWithin, same]
    exact refines_stepRecord fun field => each _ (alike.closed _ member field)
  | job identity =>
    rw [targetWithin, targetWithin]
    exact refines_jobRecord alike roomy each member fun target holds => nomatch holds
  | workflow identity =>
    have same : right.workflow identity = left.workflow identity := same
    rw [targetWithin, targetWithin]
    refine (refines_workflowSections alike roomy each member).bind fun _ => ?_
    rw [same]
    exact (each _ (alike.closed _ member).1).bind fun _ => .refl _

theorem follows_target (alike : Alike (· ∈ present) left right) (room : present.length ≤ left.size + 1) :
    Follows present left.targetWithin where
  start _ := rfl
  advance := advances_target (.refl alike.closed) ⟨room, room⟩

theorem plain_eq (alike : Alike (· ∈ present) left right) (roomy : Roomy present left right) {value : Value}
    (within : value.Within (· ∈ present)) : left.plain value = right.plain value := by
  have each := (follows_target alike roomy.left).agree (follows_target alike.symm roomy.right) (advances_target alike roomy)
    (advances_target alike.symm roomy.symm) roomy.left roomy.right
  have words (value : Value) (within : value.Within (· ∈ present)) := wording_eq alike roomy within
  exact (Value.refines_plainWith words (fun target member => .of_eq (each target member)) value within).antisymm
    (Value.refines_plainWith (fun value within => (words value within).symm) (fun target member => .of_eq (each target member).symm)
      value within)

end

/-- All objects of a store. -/
def targets (store : Store) : List Target :=
  (List.range store.expressions.length).map .expression ++ (List.range store.steps.length).map .step ++
    (List.range store.jobs.length).map .job ++ (List.range store.workflows.length).map .workflow

theorem mem_targets (store : Store) (target : Target) : target ∈ store.targets ↔ store.Has target := by
  cases target <;> simp [targets, Has]

theorem length_targets (store : Store) : store.targets.length = store.size := by
  simp [targets, size, Nat.add_assoc]

section

variable {before after : Store}

theorem size_le_of_keeps {free : List Target} (keeps : Keeps free before after) : before.size ≤ after.size := by
  have grown {old new : Nat} (has : ∀ identity < old, identity < new) : old ≤ new := by
    by_contra less
    exact Nat.lt_irrefl new (has new (Nat.lt_of_not_le less))
  have expressions := grown fun identity has => keeps.has (.expression identity) has
  have steps := grown fun identity has => keeps.has (.step identity) has
  have jobs := grown fun identity has => keeps.has (.job identity) has
  have workflows := grown fun identity has => keeps.has (.workflow identity) has
  unfold size
  omega

theorem alike_of_keeps (closed : Closed before) (keeps : Keeps [] before after) :
    Alike (· ∈ before.targets) before after ∧ Roomy before.targets before after := by
  have inside : (· ∈ before.targets) = before.Has := funext fun target => propext (before.mem_targets target)
  have larger := size_le_of_keeps keeps
  rw [inside]
  refine ⟨⟨fun target has => keeps.same target has (List.not_mem_nil), closed⟩, ?_, ?_⟩
  · rw [length_targets]
    omega
  · rw [length_targets]
    omega

/-- An object renders to the same in both stores; a job does so under any id that the first one knows. -/
def SameForm (before after : Store) : Target → Prop
  | .expression identity => after.expressionText identity = before.expressionText identity
  | .step identity => after.renderStep identity = before.renderStep identity
  | .job identity =>
    ∀ jobId : Value, jobId.Within before.Has → after.renderJob identity jobId = before.renderJob identity jobId
  | .workflow identity => after.renderWorkflow identity = before.renderWorkflow identity

/-- What an object renders to does not depend on what else has come about. -/
theorem sameForm_of_keeps (closed : Closed before) (keeps : Keeps [] before after) (target : Target) (has : before.Has target) :
    SameForm before after target := by
  obtain ⟨alike, roomy⟩ := alike_of_keeps closed keeps
  have member := (before.mem_targets target).mpr has
  have inside : (· ∈ before.targets) = before.Has := funext fun target => propext (before.mem_targets target)
  have each (value : Value) (within : value.Within (· ∈ before.targets)) := plain_eq alike roomy within
  have forth (value : Value) (within : value.Within (· ∈ before.targets)) := Refines.of_eq (each value within)
  have back (value : Value) (within : value.Within (· ∈ before.targets)) := Refines.of_eq (each value within).symm
  cases target with
  | expression identity => exact (expressionText_eq alike roomy member).symm
  | step identity =>
    have same : after.step identity = before.step identity := alike.same _ member
    have fields (field : StepField) := alike.closed _ member field
    show stepRecord after.plain (after.step identity) = stepRecord before.plain (before.step identity)
    rw [same]
    exact (refines_stepRecord fun field => back _ (fields field)).antisymm (refines_stepRecord fun field => forth _ (fields field))
  | job identity =>
    intro jobId within
    rw [← inside] at within
    exact (refines_jobRecord alike.symm roomy.symm back member within).antisymm (refines_jobRecord alike roomy forth member within)
  | workflow identity =>
    have same : after.workflow identity = before.workflow identity := alike.same _ member
    have sections := (refines_workflowSections alike.symm roomy.symm back member).antisymm
      (refines_workflowSections alike roomy forth member)
    show renderWorkflow after identity = renderWorkflow before identity
    rw [renderWorkflow, renderWorkflow, sections, same]

end

end Store

end WorkflowCompiler
