import WorkflowCompiler.Proofs.FiniteValues
import WorkflowCompiler.Proofs.MatrixAxes
import WorkflowCompiler.Proofs.PlainRecords

/-! Plain data for value trees. A finite tree of values renders to data of the same shape, which renders to itself, unless
something in it is of a type that nothing is rendered from: then rendering fails and names the type. Values are followed
from part to part, with hops enough for the objects that are still to be met. -/

namespace WorkflowCompiler

/-- Values of a type that nothing is rendered from. -/
def Value.isUnknown : Value → Bool
  | .bytes _ => true
  | .foreign _ _ => true
  | .event _ _ => true
  | .input _ _ => true
  | .function _ => true
  | .failure _ _ => true
  | .pathLike identity segments => (Value.pathLike identity segments).segments?.isNone
  | _ => false

theorem Value.known_of_segments {value : Value} {segments : List Label} (shown : value.segments? = some segments) :
    value.isUnknown = false := by
  cases value with
  | path => rfl
  | pathLike => simp [isUnknown, shown]
  | _ => cases shown

/-- The settings that are set, in the order in which they are written. -/
def Step.settings (step : Step) : List (String × Value) :=
  (StepField.all.map fun field => (field.key, step.fields field)).filter fun setting => !setting.2.isNull

/-- The settings that are set, in the order in which they are written. -/
def Job.settings (job : Job) : List (String × Value) :=
  (JobField.all.map fun field => (field.key, job.fields field)).filter fun setting => !setting.2.isNull

theorem Step.mem_settings {step : Step} {field : StepField} (set : (step.fields field).isNull = false) :
    (field.key, step.fields field) ∈ step.settings :=
  List.mem_filter.mpr ⟨Store.mem_stepFields step field, by simp [set]⟩

theorem Job.mem_settings {job : Job} {field : JobField} (set : (job.fields field).isNull = false) :
    (field.key, job.fields field) ∈ job.settings :=
  List.mem_filter.mpr ⟨Store.mem_jobFields job field, by simp [set]⟩

theorem Step.of_mem_settings {step : Step} {setting : String × Value} (member : setting ∈ step.settings) :
    ∃ field, setting.2 ≠ .null ∧ setting.2 = step.fields field := by
  obtain ⟨listed, set⟩ := List.mem_filter.mp member
  obtain ⟨field, -, rfl⟩ := List.mem_map.mp listed
  refine ⟨field, fun null => ?_, rfl⟩
  rw [null] at set
  cases set

theorem Job.of_mem_settings {job : Job} {setting : String × Value} (member : setting ∈ job.settings) :
    ∃ field, setting.2 ≠ .null ∧ setting.2 = job.fields field := by
  obtain ⟨listed, set⟩ := List.mem_filter.mp member
  obtain ⟨field, -, rfl⟩ := List.mem_map.mp listed
  refine ⟨field, fun null => ?_, rfl⟩
  rw [null] at set
  cases set

/-- A result that is good, or a failure that is meant. -/
def Ends (good : α → Prop) (meant : Failure → Prop) (result : Except Failure α) : Prop :=
  (∃ value, result = .ok value ∧ good value) ∨ ∃ failure, result = .error failure ∧ meant failure

section

variable {good : α → Prop} {better : β → Prop} {meant other : Failure → Prop}

theorem ends_ok {value : α} (fine : good value) : Ends good meant (.ok value) := .inl ⟨value, rfl, fine⟩

theorem Ends.bind {first : Except Failure α} {next : α → Except Failure β} (ends : Ends good meant first)
    (later : ∀ value, good value → Ends better meant (next value)) : Ends better meant (first >>= next) := by
  obtain ⟨value, rfl, fine⟩ | ⟨failure, rfl, fault⟩ := ends
  · exact later value fine
  · exact .inr ⟨failure, rfl, fault⟩

theorem Ends.imp {result : Except Failure α} (ends : Ends good meant result) (weaker : ∀ failure, meant failure → other failure) :
    Ends good other result :=
  Or.imp_right (fun ⟨failure, failed, fault⟩ => ⟨failure, failed, weaker failure fault⟩) ends

theorem ends_mapM {pairs : α → β → Prop} {items : List α} {make : α → Except Failure β}
    (each : ∀ item ∈ items, Ends (pairs item) meant (make item)) : Ends (List.Forall₂ pairs items) meant (items.mapM make) := by
  induction items with
  | nil => exact ends_ok .nil
  | cons item rest ih =>
    obtain ⟨first, others⟩ := List.forall_mem_cons.mp each
    rw [List.mapM_cons]
    exact first.bind fun result one => (ih others).bind fun results more => ends_ok (.cons one more)

end

/-- Of two lists of one length each item stands beside one of the other list. -/
theorem exists_mem_zip {items : List α} {others : List β} (sized : items.length = others.length) {item : α} (member : item ∈ items) :
    ∃ other, (item, other) ∈ items.zip others := by
  rw [← List.map_fst_zip (Nat.le_of_eq sized)] at member
  obtain ⟨⟨_, other⟩, there, rfl⟩ := List.mem_map.mp member
  exact ⟨other, there⟩

theorem exists_mem_zip' {items : List α} {others : List β} (sized : items.length = others.length) {other : β} (member : other ∈ others) :
    ∃ item, (item, other) ∈ items.zip others := by
  rw [← List.map_snd_zip (Nat.le_of_eq sized.symm)] at member
  obtain ⟨⟨item, _⟩, there, rfl⟩ := List.mem_map.mp member
  exact ⟨item, there⟩

namespace Store

/-- What is rendered with a value: its items, the values of its entries, and what is rendered with the settings of a
step or a job and with the steps of the job. -/
inductive Included (store : Store) (part : Value) : Value → Prop
  | self : Included store part part
  | item {value : Value} {items : List Value} (member : value ∈ items) (inner : Included store part value) :
      Included store part (.list items)
  | tupleItem {value : Value} {items : List Value} (member : value ∈ items) (inner : Included store part value) :
      Included store part (.tuple items)
  | entry {key value : Value} {entries : List (Value × Value)} (member : (key, value) ∈ entries) (inner : Included store part value) :
      Included store part (.map entries)
  | stepField {identity : Nat} (field : StepField) (inner : Included store part ((store.step identity).fields field)) :
      Included store part (.step identity)
  | jobField {identity : Nat} (field : JobField) (inner : Included store part ((store.job identity).fields field)) :
      Included store part (.job identity)
  | jobStep {identity step : Nat} (member : step ∈ (store.job identity).steps) (inner : Included store part (.step step)) :
      Included store part (.job identity)

/-- The text of a key: that of a member is the text it stands for. -/
def keyText (store : Store) : Value → Except Failure String
  | .choice key => .ok key.text
  | key => store.wording key

/-- What values render to. Lists keep their length and order, mappings the order of their entries, entries under one
text becoming one; an expression is wrapped once. -/
inductive Renders (store : Store) : Value → Tree → Prop
  | null : Renders store .null .null
  | bool (value : Bool) : Renders store (.bool value) (.bool value)
  | int (value : Int) : Renders store (.int value) (.int value)
  | float (value : Binary64) : Renders store (.float value) (.float value)
  | text (value : String) : Renders store (.text value) (.text value)
  | choice (value : Choice) : Renders store (.choice value) (.text value.text)
  | file (path : String) : Renders store (.file path) (.text path)
  | path {value : Value} {segments : List Label} (shown : value.segments? = some segments) : Renders store value (.text (dotted segments))
  | expression {identity : Nat} {text : String} (told : store.expressionText identity = .ok text) :
      Renders store (.expression identity) (.text (interpolation text))
  | command (line : Label) (output exported : Value) : Renders store (.command (.ofLabel line) output exported) (.text line.chars)
  | list {items : List Value} {trees : List Tree} (sized : items.length = trees.length)
      (each : ∀ item tree, (item, tree) ∈ items.zip trees → Renders store item tree) : Renders store (.list items) (.list trees)
  | tuple {items : List Value} {trees : List Tree} (sized : items.length = trees.length)
      (each : ∀ item tree, (item, tree) ∈ items.zip trees → Renders store item tree) : Renders store (.tuple items) (.list trees)
  | map {entries : List (Value × Value)} {fields : List (String × Tree)} (sized : entries.length = fields.length)
      (keys : ∀ entry field, (entry, field) ∈ entries.zip fields → store.keyText entry.1 = .ok field.1)
      (each : ∀ entry field, (entry, field) ∈ entries.zip fields → Renders store entry.2 field.2) :
      Renders store (.map entries) (Tree.record (mapping fields))
  | step {identity : Nat} {fields : List (String × Tree)} (keys : (store.step identity).settings.map Prod.fst = fields.map Prod.fst)
      (each : ∀ setting field, (setting, field) ∈ (store.step identity).settings.zip fields → Renders store setting.2 field.2) :
      Renders store (.step identity) (Tree.record fields)
  | job {identity : Nat} {fields : List (String × Tree)} {records : List Tree}
      (keys : (store.job identity).settings.map Prod.fst = fields.map Prod.fst)
      (each : ∀ setting field, (setting, field) ∈ (store.job identity).settings.zip fields → Renders store setting.2 field.2)
      (counted : (store.job identity).steps.length = records.length)
      (steps : ∀ step record, (step, record) ∈ (store.job identity).steps.zip records → Renders store (.step step) record) :
      Renders store (.job identity) (Tree.record (fields ++ if records.isEmpty then [] else [("steps", .list records)]))

/-- A finite tree of values. Its commands have texts for lines, its jobs are valid, and there are no workflows in it. -/
structure IsTree (store : Store) (value : Value) : Prop where
  finite : store.Finite value
  lined : store.AllLined value
  jobs : ∀ identity, store.Included (.job identity) value → store.jobFaults (store.job identity) .null = .ok []
  workflows : ∀ identity, ¬ store.Included (.workflow identity) value

/-- Something of an unknown type is rendered with the value, and the failure names the type. -/
def NamesUnknown (store : Store) (value : Value) (failure : Failure) : Prop :=
  ∃ part, store.Included part value ∧ part.isUnknown = true ∧ failure = .ofCause (.notRenderable part.typeName)

variable {store : Store} {part value : Value} {tree : Tree}

theorem IsTree.of_part (whole : store.IsTree value) (held : store.Part part value)
    (inner : ∀ other, store.Included other part → store.Included other value) : store.IsTree part where
  finite := whole.finite.inv held
  lined := whole.lined.of_part held
  jobs identity within := whole.jobs identity (inner _ within)
  workflows identity within := whole.workflows identity (inner _ within)

theorem NamesUnknown.of_part {failure : Failure} (inner : ∀ other, store.Included other part → store.Included other value)
    (named : store.NamesUnknown part failure) : store.NamesUnknown value failure := by
  obtain ⟨other, within, unknown, same⟩ := named
  exact ⟨other, inner other within, unknown, same⟩

theorem exists_keyText (whole : store.IsTree value) {key item : Value} {entries : List (Value × Value)} (same : value = .map entries)
    (member : (key, item) ∈ entries) : ∃ name, store.keyText key = .ok name := by
  subst same
  have held : store.Part key (.map entries) := .key member
  cases key with
  | choice key => exact ⟨key.text, rfl⟩
  | _ => exact exists_wording (whole.finite.inv held) (whole.lined.of_part held)

/-- Entries are rendered one after the other and put under the texts of their keys. -/
theorem plainEntries_eq (store : Store) (visit : Target → Except Failure Tree) (entries : List (Value × Value))
    (found : List (String × Tree)) :
    Value.plainEntries store.wording visit (Tree.ofFields found) entries = do
      let fields ← entries.mapM fun entry => do return (← store.keyText entry.1, ← Value.plainWith store.wording visit entry.2)
      return Tree.ofFields (fields.foldl (fun found field => Workflow.putNamed field.1 field.2 found) found) := by
  induction entries generalizing found with
  | nil => rfl
  | cons entry rest ih =>
    have put : Value.plainEntry store.wording visit (Tree.ofFields found) entry = do
        let field ← (do return (← store.keyText entry.1, ← Value.plainWith store.wording visit entry.2) : Except Failure (String × Tree))
        return Tree.ofFields (Workflow.putNamed field.1 field.2 found) := by
      obtain ⟨key, item⟩ := entry
      simp only [bind_assoc, pure_bind, Tree.ofFields, ← Tree.putText_record]
      cases key <;> rfl
    rw [Value.plainEntries, put, List.mapM_cons]
    simp only [bind_assoc, pure_bind, ih, List.foldl_cons]

/-- Entries of a mapping become the fields of a record, of those under one text the last. -/
theorem plain_map (store : Store) (visit : Target → Except Failure Tree) (entries : List (Value × Value)) :
    Value.plainWith store.wording visit (.map entries) = do
      let fields ← entries.mapM fun entry => do return (← store.keyText entry.1, ← Value.plainWith store.wording visit entry.2)
      return Tree.record (mapping fields) := by
  have whole := plainEntries_eq store visit entries []
  rw [Value.plainWith, show ([] : List (Tree × Tree)) = Tree.ofFields [] from rfl, whole]
  simp only [bind_assoc, pure_bind, ← mapping_eq_foldl]
  rfl

theorem fields_mapping {fields : List (String × Tree)} (each : ∀ field ∈ fields, field.2.Keyed) : Tree.Fields (mapping fields) := by
  rw [mapping_eq_foldl]
  induction fields using List.reverseRecOn with
  | nil => exact ⟨List.nodup_nil, by simp⟩
  | append_singleton fields field ih =>
    obtain ⟨before, last⟩ := List.forall_mem_append.mp each
    rw [List.foldl_append, List.foldl_cons, List.foldl_nil]
    exact (ih before).putNamed field.1 (last field (List.mem_singleton_self field))

theorem keys_sized {settings : List (String × Value)} {fields : List (String × Tree)}
    (keys : settings.map Prod.fst = fields.map Prod.fst) : settings.length = fields.length := by
  simpa using congrArg List.length keys

theorem nodup_settings {all : List (String × Value)} {fields : List (String × Tree)} (distinct : (all.map Prod.fst).Nodup)
    (keys : (all.filter fun setting => !setting.2.isNull).map Prod.fst = fields.map Prod.fst) : (fields.map Prod.fst).Nodup := by
  rw [← keys]
  exact distinct.sublist (List.filter_sublist.map Prod.fst)

theorem Renders.keyed (renders : store.Renders value tree) : tree.Keyed := by
  induction renders with
  | null => exact .null
  | bool value => exact .bool value
  | int value => exact .int value
  | float value => exact .float value
  | text | choice | file | path | expression | command => exact .text _
  | list sized _ ih | tuple sized _ ih =>
    exact .list fun tree member => (exists_mem_zip' sized member).elim fun item there => ih item tree there
  | map sized _ _ ih =>
    exact (fields_mapping fun field member => (exists_mem_zip' sized member).elim fun entry there => ih entry field there).keyed
  | @step identity fields keys _ ih =>
    refine .record (nodup_settings (nodup_stepKeys _) keys) fun field member => ?_
    obtain ⟨setting, there⟩ := exists_mem_zip' (keys_sized keys) member
    exact ih setting field there
  | @job identity fields records keys _ counted _ ih steps =>
    obtain ⟨distinct, -, apart⟩ := List.nodup_append.mp (nodup_jobKeys (store.job identity))
    have fine : Tree.Fields fields := by
      refine ⟨nodup_settings distinct keys, fun field member => ?_⟩
      obtain ⟨setting, there⟩ := exists_mem_zip' (keys_sized keys) member
      exact ih setting field there
    have fresh : "steps" ∉ fields.map Prod.fst := by
      rw [← keys]
      exact fun there => apart _ ((List.filter_sublist.map Prod.fst).mem there) _ (List.mem_singleton_self _) rfl
    exact (fine.group fresh fun tree member => (exists_mem_zip' counted member).elim fun step there => steps step tree there).keyed

theorem known_of_null (unset : value.isNull = true) (within : store.Included part value) : part.isUnknown = false := by
  cases within with
  | self =>
    rw [eq_null unset]
    rfl
  | _ => cases unset

/-- Nothing that renders has something of an unknown type in it. -/
theorem Renders.known (renders : store.Renders value tree) (within : store.Included part value) : part.isUnknown = false := by
  induction within generalizing tree with
  | self =>
    cases renders with
    | path shown => exact Value.known_of_segments shown
    | _ => rfl
  | item member _ ih =>
    cases renders with
    | list sized each =>
      obtain ⟨tree, there⟩ := exists_mem_zip sized member
      exact ih (each _ tree there)
    | path shown => cases shown
  | tupleItem member _ ih =>
    cases renders with
    | tuple sized each =>
      obtain ⟨tree, there⟩ := exists_mem_zip sized member
      exact ih (each _ tree there)
    | path shown => cases shown
  | entry member _ ih =>
    cases renders with
    | map sized _ each =>
      obtain ⟨field, there⟩ := exists_mem_zip sized member
      exact ih (each _ field there)
    | path shown => cases shown
  | stepField field inner ih =>
    cases renders with
    | path shown => cases shown
    | step keys each =>
      cases unset : ((store.step _).fields field).isNull with
      | true => exact known_of_null unset inner
      | false =>
        obtain ⟨other, there⟩ := exists_mem_zip (keys_sized keys) (Step.mem_settings unset)
        exact ih (each _ other there)
  | jobField field inner ih =>
    cases renders with
    | path shown => cases shown
    | job keys each =>
      cases unset : ((store.job _).fields field).isNull with
      | true => exact known_of_null unset inner
      | false =>
        obtain ⟨other, there⟩ := exists_mem_zip (keys_sized keys) (Job.mem_settings unset)
        exact ih (each _ other there)
  | jobStep member _ ih =>
    cases renders with
    | job _ _ counted steps =>
      obtain ⟨tree, there⟩ := exists_mem_zip counted member
      exact ih (steps _ tree there)
    | path shown => cases shown

section

variable {meant : Failure → Prop} {plain : Value → Except Failure Tree}

theorem ends_settings {settings : List (String × Value)}
    (each : ∀ setting ∈ settings, Ends (store.Renders setting.2) meant (plain setting.2)) :
    Ends (fun fields => settings.map Prod.fst = fields.map Prod.fst ∧
        ∀ setting field, (setting, field) ∈ settings.zip fields → store.Renders setting.2 field.2)
      meant (settings.mapM fun (name, value) => do return (name, ← plain value)) := by
  have one : ∀ setting ∈ settings, Ends (fun field : String × Tree => setting.1 = field.1 ∧ store.Renders setting.2 field.2) meant
      (do return (setting.1, ← plain setting.2)) :=
    fun setting member => (each setting member).bind fun tree renders => ends_ok ⟨rfl, renders⟩
  obtain ⟨fields, made, paired⟩ | failed := ends_mapM one
  · refine .inl ⟨fields, made, ?_, fun setting field there => (List.forall₂_zip paired there).2⟩
    have keys := List.forall₂_map_left_iff.mpr (List.forall₂_map_right_iff.mpr (paired.imp fun _ _ both => both.1))
    rwa [List.forall₂_eq_eq_eq] at keys
  · exact .inr failed

theorem ends_stepRecord {identity : Nat}
    (each : ∀ setting ∈ (store.step identity).settings, Ends (store.Renders setting.2) meant (plain setting.2)) :
    Ends (store.Renders (.step identity)) meant (stepRecord plain (store.step identity)) :=
  (ends_settings each).bind fun _ shown => ends_ok (.step shown.1 shown.2)

theorem ends_jobRecord {identity : Nat} (valid : store.jobFaults (store.job identity) .null = .ok [])
    (each : ∀ setting ∈ (store.job identity).settings, Ends (store.Renders setting.2) meant (plain setting.2))
    (steps : ∀ step ∈ (store.job identity).steps, Ends (store.Renders (.step step)) meant (stepRecord plain (store.step step))) :
    Ends (store.Renders (.job identity)) meant (store.jobRecord plain (store.job identity) .null) := by
  rw [jobRecord_settled valid, jobSteps, List.mapM_map]
  refine (ends_mapM steps).bind fun records paired => ?_
  obtain ⟨counted, shown⟩ := List.forall₂_iff_zip.mp paired
  exact (ends_settings each).bind fun fields found => ends_ok (.job found.1 found.2 counted fun _ _ there => shown there)

end

/-- A tree of values renders if there is nothing unknown in it, and otherwise fails on something unknown. -/
theorem ends_plainWith (whole : store.IsTree value) {hops : Nat} (enough : store.room value < hops) :
    Ends (store.Renders value) (store.NamesUnknown value) (value.plainWith store.wording (store.targetWithin hops)) := by
  have finite := whole.finite
  induction finite generalizing hops with
  | intro value inner ih =>
    have parts {part : Value} (held : store.Part part value) (within : ∀ other, store.Included other part → store.Included other value)
        {hops : Nat} (enough : store.room part < hops) :
        Ends (store.Renders part) (store.NamesUnknown value) (part.plainWith store.wording (store.targetWithin hops)) :=
      (ih part held (whole.of_part held within) enough).imp fun _ => NamesUnknown.of_part within
    have beside {part : Value} (held : store.Part part value) : store.room part < hops := Nat.lt_of_le_of_lt (room_le_of_part held) enough
    obtain ⟨fewer, rfl⟩ : ∃ fewer, hops = fewer + 1 := ⟨hops - 1, by omega⟩
    cases value with
    | null => exact ends_ok .null
    | bool value => exact ends_ok (.bool value)
    | int value => exact ends_ok (.int value)
    | float value => exact ends_ok (.float value)
    | text value => exact ends_ok (.text value)
    | choice value => exact ends_ok (.choice value)
    | file path => exact ends_ok (.file path)
    | path segments => exact ends_ok (.path rfl)
    | pathLike identity segments =>
      rw [Value.plainWith]
      split
      · next shown => exact ends_ok (.path shown)
      · next missing => exact .inr ⟨_, rfl, _, .self, by rw [Value.isUnknown, missing]; rfl, rfl⟩
    | command line output exported =>
      have labelled : (Value.command line output exported).Lined := whole.lined _ .refl
      cases line with
      | text line => exact ends_ok (.command (.text line) output exported)
      | choice line => exact ends_ok (.command (.choice line) output exported)
      | _ => cases labelled
    | list items =>
      rw [Value.plainWith, Value.plainItems_eq]
      refine (ends_mapM fun item member => parts (.item member) (fun _ => .item member) (beside (.item member))).bind fun trees paired => ?_
      obtain ⟨sized, each⟩ := List.forall₂_iff_zip.mp paired
      exact ends_ok (.list sized fun _ _ there => each there)
    | tuple items =>
      rw [Value.plainWith, Value.plainItems_eq]
      refine (ends_mapM fun item member => parts (.tupleItem member) (fun _ => .tupleItem member) (beside (.tupleItem member))).bind
        fun trees paired => ?_
      obtain ⟨sized, each⟩ := List.forall₂_iff_zip.mp paired
      exact ends_ok (.tuple sized fun _ _ there => each there)
    | map entries =>
      have each : ∀ entry ∈ entries, Ends (fun field : String × Tree => store.keyText entry.1 = .ok field.1 ∧ store.Renders entry.2 field.2)
          (store.NamesUnknown (.map entries))
          (do return (← store.keyText entry.1, ← Value.plainWith store.wording (store.targetWithin (fewer + 1)) entry.2)) := by
        rintro ⟨key, item⟩ member
        obtain ⟨name, named⟩ := exists_keyText whole rfl member
        rw [named]
        exact (parts (.entry member) (fun _ => .entry member) (beside (.entry member))).bind fun tree renders => ends_ok ⟨rfl, renders⟩
      rw [plain_map]
      refine (ends_mapM each).bind fun fields paired => ?_
      obtain ⟨sized, each⟩ := List.forall₂_iff_zip.mp paired
      exact ends_ok (.map sized (fun _ _ there => (each there).1) fun _ _ there => (each there).2)
    | expression identity =>
      obtain ⟨text, told⟩ := exists_expressionText whole.finite
      refine .inl ⟨.text (interpolation text), ?_, .expression told⟩
      rw [Value.plainWith, targetWithin, told]
      rfl
    | step identity =>
      refine ends_stepRecord fun setting member => ?_
      obtain ⟨field, set, same⟩ := Step.of_mem_settings member
      rw [same] at set ⊢
      exact parts (.stepField identity field) (fun _ => .stepField field) (room_lt_of_part (.step identity) whole.finite (.stepField identity field) set enough)
    | job identity =>
      refine ends_jobRecord (whole.jobs identity .self) (fun setting member => ?_) fun step member => ?_
      · obtain ⟨field, set, same⟩ := Job.of_mem_settings member
        rw [same] at set ⊢
        exact parts (.jobField identity field) (fun _ => .jobField field) (room_lt_of_part (.job identity) whole.finite (.jobField identity field) set enough)
      · exact parts (.jobStep member) (fun _ => .jobStep member) (beside (.jobStep member))
    | workflow identity => exact absurd .self (whole.workflows identity)
    | _ => exact .inr ⟨_, rfl, _, .self, rfl, rfl⟩

/-- Entries under distinct texts all become fields, in their order. -/
theorem Renders.fields {entries : List (Value × Value)} (keyed : Value.TextKeyed entries) (renders : store.Renders (.map entries) tree) :
    ∃ fields, tree = Tree.record fields ∧
      List.Forall₂ (fun entry field => entry.1 = .text field.1 ∧ store.Renders entry.2 field.2) entries fields := by
  cases renders with
  | path shown => cases shown
  | @map entries fields sized keys each =>
    obtain ⟨named, distinct⟩ := keyed
    have paired : List.Forall₂ (fun entry field => entry.1 = .text field.1 ∧ store.Renders entry.2 field.2) entries fields := by
      refine List.forall₂_iff_zip.mpr ⟨sized, fun {entry field} there => ⟨?_, each entry field there⟩⟩
      obtain ⟨name, same⟩ := named entry (List.of_mem_zip there).1
      have told := keys entry field there
      rw [same] at told ⊢
      exact congrArg Value.text (Except.ok.inj told)
    have names : entries.map Prod.fst = (fields.map Prod.fst).map Value.text := by
      rw [List.map_map, ← List.forall₂_eq_eq_eq]
      exact List.forall₂_map_left_iff.mpr (List.forall₂_map_right_iff.mpr (paired.imp fun _ _ both => both.1))
    have apart : (fields.map Prod.fst).Nodup := List.Nodup.of_map Value.text (names ▸ distinct)
    exact ⟨fields, by rw [mapping_of_nodup apart], paired⟩

/-- A finite tree of values renders to plain data of its own shape, which renders to itself; with something of an unknown
type in it, it does not render, and the failure names such a type. -/
theorem plain_valueTree (whole : store.IsTree value) :
    ((∀ part, store.Included part value → part.isUnknown = false) →
      ∃ data, store.plain value = .ok data ∧ data.Keyed ∧ store.Renders value data ∧ store.plain (Build.ofTree data) = .ok data) ∧
    (∀ entries data, Value.TextKeyed entries → store.Renders (.map entries) data →
      ∃ fields, data = Tree.record fields ∧
        List.Forall₂ (fun entry field => entry.1 = .text field.1 ∧ store.Renders entry.2 field.2) entries fields) ∧
    (∀ part, store.Included part value → part.isUnknown = true →
      ∃ failure, store.plain value = .error failure ∧ failure.category = .composition ∧ store.NamesUnknown value failure) := by
  have ends : Ends (store.Renders value) (store.NamesUnknown value) (store.plain value) :=
    ends_plainWith whole (Nat.lt_succ_of_le (store.room_le_size value))
  refine ⟨fun known => ?_, fun entries data keyed renders => renders.fields keyed, fun part within unknown => ?_⟩
  · obtain ⟨data, rendered, renders⟩ | ⟨_, -, part, within, unknown, -⟩ := ends
    · exact ⟨data, rendered, renders.keyed, renders, plain_ofTree renders.keyed⟩
    · rw [known part within] at unknown
      cases unknown
  · obtain ⟨data, -, renders⟩ | ⟨failure, failed, named⟩ := ends
    · rw [renders.known within] at unknown
      cases unknown
    · obtain ⟨part, within, unknown, rfl⟩ := named
      exact ⟨_, failed, rfl, part, within, unknown, rfl⟩

/-- A reference to the branch, as an expression. -/
def branch : Store := { expressions := [{ contents := [.path [.text "github", .text "ref"]] }] }

theorem AllLined.intro (own : value.Lined) (parts : ∀ part, store.Part part value → store.AllLined part) : store.AllLined value := by
  intro part reached
  obtain rfl | ⟨other, further, held⟩ := reached.cases_tail
  · exact own
  · exact parts other held part further

theorem isTree_leaf (alone : ∀ part, ¬ store.Part part value) (own : value.Lined)
    (other : ∀ identity, value ≠ .job identity ∧ value ≠ .workflow identity) : store.IsTree value := by
  have only {part : Value} (within : store.Included part value) : part = value := by
    cases within with
    | self => rfl
    | item member => exact absurd (.item member) (alone _)
    | tupleItem member => exact absurd (.tupleItem member) (alone _)
    | entry member => exact absurd (.entry member) (alone _)
    | stepField field => exact absurd (.stepField _ field) (alone _)
    | jobField field => exact absurd (.jobField _ field) (alone _)
    | jobStep member => exact absurd (.jobStep member) (alone _)
  exact {
    finite := .intro _ fun part held => absurd held (alone part)
    lined := .intro own fun part held => absurd held (alone part)
    jobs := fun identity within => absurd (only within).symm (other identity).1
    workflows := fun identity within => (other identity).2 (only within).symm }

theorem isTree_list {items : List Value} (each : ∀ item ∈ items, store.IsTree item) : store.IsTree (.list items) where
  finite := .intro _ fun part held => by
    cases held with
    | item member => exact (each part member).finite
  lined := .intro trivial fun part held => by
    cases held with
    | item member => exact (each part member).lined
  jobs identity within := by
    cases within with
    | item member inner => exact (each _ member).jobs identity inner
  workflows identity within := by
    cases within with
    | item member inner => exact (each _ member).workflows identity inner

theorem isTree_map {entries : List (Value × Value)} (keys : ∀ entry ∈ entries, store.IsTree entry.1)
    (each : ∀ entry ∈ entries, store.IsTree entry.2) : store.IsTree (.map entries) where
  finite := .intro _ fun part held => by
    cases held with
    | key member => exact (keys _ member).finite
    | entry member => exact (each _ member).finite
  lined := .intro trivial fun part held => by
    cases held with
    | key member => exact (keys _ member).lined
    | entry member => exact (each _ member).lined
  jobs identity within := by
    cases within with
    | entry member inner => exact (each _ member).jobs identity inner
  workflows identity within := by
    cases within with
    | entry member inner => exact (each _ member).workflows identity inner

theorem isTree_branch : branch.IsTree (.expression 0) := by
  refine isTree_leaf (fun part held => ?_) trivial (by simp)
  cases held with
  | nested member => cases List.mem_singleton.mp member

/-- A list with the branch in it and a mapping. -/
def naming (entry : Value) : Value := .list [.expression 0, .map [(.int 1, entry)]]

theorem known_naming {part entry : Value} (within : branch.Included part (naming entry))
    (known : ∀ part, branch.Included part entry → part.isUnknown = false) : part.isUnknown = false := by
  cases within with
  | self => rfl
  | item member inner =>
    rcases List.mem_pair.mp member with rfl | rfl
    · cases inner
      rfl
    · cases inner with
      | self => rfl
      | entry member inner =>
        cases List.mem_singleton.mp member
        exact known part inner

theorem isTree_naming {entry : Value} (inner : branch.IsTree entry) : branch.IsTree (naming entry) := by
  have number : branch.IsTree (.int 1) := isTree_leaf (fun part held => by cases held) trivial (by simp)
  refine isTree_list (List.forall_mem_cons.mpr ⟨isTree_branch, List.forall_mem_singleton.mpr ?_⟩)
  exact isTree_map (List.forall_mem_singleton.mpr number) (List.forall_mem_singleton.mpr inner)

theorem plain_valueTree_branch :
    (∃ data, branch.plain (naming (.expression 0)) = .ok data ∧ data.Keyed ∧ branch.plain (Build.ofTree data) = .ok data) ∧
    ∃ failure, branch.plain (naming (.bytes [7])) = .error failure ∧ failure.category = .composition := by
  have bytes : branch.IsTree (.bytes [7]) := isTree_leaf (fun part held => by cases held) trivial (by simp)
  constructor
  · have known : ∀ part, branch.Included part (.expression 0) → part.isUnknown = false := fun part within => by cases within; rfl
    obtain ⟨data, rendered, keyed, -, same⟩ := (plain_valueTree (isTree_naming isTree_branch)).1 fun part within => known_naming within known
    exact ⟨data, rendered, keyed, same⟩
  · have within : branch.Included (.bytes [7]) (naming (.bytes [7])) := .item (List.mem_cons_of_mem _ List.mem_cons_self) (.entry List.mem_cons_self .self)
    obtain ⟨failure, failed, category, -⟩ := (plain_valueTree (isTree_naming bytes)).2.2 _ within rfl
    exact ⟨failure, failed, category⟩

/-- A command whose line is a number does not render, although its line would. -/
theorem plain_command_numbered : ({} : Store).Finite (.command (.int 5) .null .null) ∧
    ({} : Store).plain (.int 5) = .ok (.int 5) ∧ ({} : Store).plain (.command (.int 5) .null .null) = .error (.ofCause .mistyped) := by
  refine ⟨.intro _ fun part held => ?_, rfl, rfl⟩
  cases held with
  | line => exact .intro _ fun part held => by cases held

end Store

end WorkflowCompiler
