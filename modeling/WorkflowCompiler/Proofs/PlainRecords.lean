import WorkflowCompiler.Proofs.BuiltRecords
import WorkflowCompiler.Proofs.NamedEntries
import WorkflowCompiler.Publish.Writing

/-! Records are plain data: what a workflow renders to holds texts, numbers, lists and mappings under
distinct texts, and rendering it again changes nothing. The one exception is the name of a workflow,
which stands in the record as it was given. -/

namespace WorkflowCompiler

/-- Plain data with mappings that have each key once, a text. -/
inductive Tree.Keyed : Tree → Prop
  | null : Keyed .null
  | bool (value : Bool) : Keyed (.bool value)
  | int (value : Int) : Keyed (.int value)
  | float (value : Binary64) : Keyed (.float value)
  | text (value : String) : Keyed (.text value)
  | list {items : List Tree} (each : ∀ item ∈ items, Keyed item) : Keyed (.list items)
  | record {fields : List (String × Tree)} (distinct : (fields.map Prod.fst).Nodup) (each : ∀ field ∈ fields, Keyed field.2) :
      Keyed (Tree.record fields)

/-- A value that is plain data as it stands. -/
def Value.Plain (value : Value) : Prop := ∃ tree : Tree, tree.Keyed ∧ Build.ofTree tree = value

/-- The record as the mapping that it stands for. -/
def WorkflowRecord.value (record : WorkflowRecord) : Value :=
  .map ((.text "name", record.name) :: record.sections.map fun field => (.text field.1, Build.ofTree field.2))

namespace Tree

/-- The fields of a record. -/
def fields : Tree → List (String × Tree)
  | .map entries => entries.filterMap fun
    | (.text name, value) => some (name, value)
    | _ => none
  | _ => []

@[simp] theorem fields_record (found : List (String × Tree)) : (record found).fields = found := by
  simp [record, fields, List.filterMap_map]

/-- Fields under distinct names stand for a mapping that has each key once. -/
def Fields (fields : List (String × Tree)) : Prop := (fields.map Prod.fst).Nodup ∧ ∀ field ∈ fields, field.2.Keyed

theorem Fields.keyed {fields : List (String × Tree)} (fine : Fields fields) : (record fields).Keyed := .record fine.1 fine.2

theorem Fields.putNamed {fields : List (String × Tree)} (fine : Fields fields) (name : String) {value : Tree} (keyed : value.Keyed) :
    Fields (Workflow.putNamed name value fields) :=
  ⟨Workflow.nodup_putNamed fine.1, Workflow.forall_mem_putNamed keyed fine.2⟩

/-- A list under a new name, which is left out if there is nothing in it. -/
theorem Fields.group {fields : List (String × Tree)} (fine : Fields fields) {name : String} (fresh : name ∉ fields.map Prod.fst)
    {trees : List Tree} (keyed : ∀ tree ∈ trees, tree.Keyed) :
    Fields (fields ++ if trees.isEmpty then [] else [(name, .list trees)]) := by
  split
  · rwa [List.append_nil]
  · refine ⟨?_, List.forall_mem_append.mpr ⟨fine.2, by simpa using Keyed.list keyed⟩⟩
    rw [List.map_append]
    have apart : ∀ other ∈ fields.map Prod.fst, other ≠ name := fun other there same => fresh (same ▸ there)
    exact List.nodup_append.mpr ⟨fine.1, by simp, fun other there last single => List.mem_singleton.mp single ▸ apart other there⟩

end Tree

/-- The keys and the values that fields stand for. -/
def Tree.ofFields (fields : List (String × Tree)) : List (Tree × Tree) := fields.map fun field => (.text field.1, field.2)

/-- Entries that fields under distinct names stand for. -/
def Tree.IsFields (entries : List (Tree × Tree)) : Prop := ∃ fields, Fields fields ∧ entries = ofFields fields

theorem Tree.IsFields.keyed {entries : List (Tree × Tree)} (made : IsFields entries) : Keyed (.map entries) := by
  obtain ⟨fields, fine, rfl⟩ := made
  exact fine.keyed

theorem Tree.isFields_of_keyed {entries : List (Tree × Tree)} (keyed : Keyed (.map entries)) : IsFields entries := by
  generalize same : Tree.map entries = tree at keyed
  cases keyed with
  | @record fields distinct each => exact ⟨fields, ⟨distinct, each⟩, Tree.map.inj same⟩
  | _ => cases same

theorem Tree.IsFields.putText {entries : List (Tree × Tree)} (made : IsFields entries) (name : String) {value : Tree} (keyed : value.Keyed) :
    IsFields (Tree.putText name value entries) := by
  obtain ⟨fields, fine, rfl⟩ := made
  exact ⟨_, fine.putNamed name keyed, putText_record name value fields⟩

theorem Tree.isFields_nil : IsFields [] := ⟨[], ⟨List.nodup_nil, by simp⟩, rfl⟩

namespace Value

section

variable {wording : Value → Except Failure String} {visit : Target → Except Failure Tree}

mutual

theorem plainWith_keyed (visits : ∀ target, Gives Tree.Keyed (visit target)) : ∀ value, Gives Tree.Keyed (plainWith wording visit value)
  | .null => gives_ok .null
  | .bool value => gives_ok (.bool value)
  | .int value => gives_ok (.int value)
  | .float value => gives_ok (.float value)
  | .text value => gives_ok (.text value)
  | .choice value => gives_ok (.text value.text)
  | .file name => gives_ok (.text name)
  | .list items => (plainItems_keyed visits items).bind fun _ each => gives_ok (.list each)
  | .tuple items => (plainItems_keyed visits items).bind fun _ each => gives_ok (.list each)
  | .map entries => (plainEntries_keyed visits entries [] Tree.isFields_nil).bind fun _ made => gives_ok made.keyed
  | .expression _ => visits _
  | .step _ => visits _
  | .job _ => visits _
  | .workflow _ => visits _
  | .command line _ _ => by
    rw [plainWith]
    split
    · exact gives_ok (.text _)
    · exact gives_error _ _
  | .path _ => gives_ok (.text _)
  | .pathLike _ _ => by
    rw [plainWith]
    split
    · exact gives_ok (.text _)
    · exact gives_error _ _
  | .bytes _ => gives_error _ _
  | .foreign _ _ => gives_error _ _
  | .event _ _ => gives_error _ _
  | .input _ _ => gives_error _ _
  | .function _ => gives_error _ _
  | .failure _ _ => gives_error _ _

theorem plainItems_keyed (visits : ∀ target, Gives Tree.Keyed (visit target)) :
    ∀ items, Gives (fun trees => ∀ tree ∈ trees, tree.Keyed) (plainItems wording visit items)
  | [] => gives_ok (List.forall_mem_nil _)
  | value :: rest =>
    (plainWith_keyed visits value).bind fun _ first =>
      (plainItems_keyed visits rest).bind fun _ later => gives_ok (List.forall_mem_cons.mpr ⟨first, later⟩)

theorem plainEntries_keyed (visits : ∀ target, Gives Tree.Keyed (visit target)) :
    ∀ (entries : List (Value × Value)) (found : List (Tree × Tree)), Tree.IsFields found →
      Gives Tree.IsFields (plainEntries wording visit found entries)
  | [], _, made => gives_ok made
  | entry :: rest, found, made =>
    (plainEntry_keyed visits entry found made).bind fun more made => plainEntries_keyed visits rest more made

theorem plainEntry_keyed (visits : ∀ target, Gives Tree.Keyed (visit target)) :
    ∀ (entry : Value × Value) (found : List (Tree × Tree)), Tree.IsFields found → Gives Tree.IsFields (plainEntry wording visit found entry)
  | (key, value), found, made => by
    have later : ∀ name : String, Gives Tree.IsFields (do return Tree.putText name (← plainWith wording visit value) found) :=
      fun name => (plainWith_keyed visits value).bind fun _ keyed => gives_ok (made.putText name keyed)
    cases key with
    | choice key => exact later key.text
    | _ => exact gives_bind later

end

theorem ofItems_eq (items : List Tree) : Build.ofTree.ofItems items = items.map Build.ofTree := by
  induction items with
  | nil => rfl
  | cons item rest ih => rw [Build.ofTree.ofItems, ih, List.map_cons]

theorem ofEntries_eq (fields : List (String × Tree)) :
    Build.ofTree.ofEntries (Tree.ofFields fields) = fields.map fun field => (.text field.1, Build.ofTree field.2) := by
  induction fields with
  | nil => rfl
  | cons field rest ih =>
    rw [Tree.ofFields, List.map_cons, Build.ofTree.ofEntries, ← Tree.ofFields, ih]
    rfl

/-- Items are rendered one after the other. -/
theorem plainItems_eq (wording : Value → Except Failure String) (visit : Target → Except Failure Tree) (items : List Value) :
    plainItems wording visit items = items.mapM (plainWith wording visit) := by
  induction items with
  | nil => rfl
  | cons item rest ih => rw [plainItems, ih, List.mapM_cons]

theorem plainItems_same {items : List Tree} (each : ∀ item ∈ items, plainWith wording visit (Build.ofTree item) = .ok item) :
    plainItems wording visit (items.map Build.ofTree) = .ok items := by
  induction items with
  | nil => rfl
  | cons item rest ih =>
    obtain ⟨first, later⟩ := List.forall_mem_cons.mp each
    rw [List.map_cons, plainItems, first, ih later]
    rfl

/-- Entries under new names are put behind those that are there. -/
theorem plainEntries_same (texts : ∀ name, wording (.text name) = .ok name) {fields : List (String × Tree)}
    (each : ∀ field ∈ fields, plainWith wording visit (Build.ofTree field.2) = .ok field.2) (found : List (String × Tree))
    (distinct : ((found ++ fields).map Prod.fst).Nodup) :
    plainEntries wording visit (Tree.ofFields found) (fields.map fun field => (.text field.1, Build.ofTree field.2)) =
      .ok (Tree.ofFields (found ++ fields)) := by
  induction fields generalizing found with
  | nil =>
    rw [List.append_nil]
    rfl
  | cons field rest ih =>
    obtain ⟨first, later⟩ := List.forall_mem_cons.mp each
    have put : plainEntry wording visit (Tree.ofFields found) (.text field.1, Build.ofTree field.2) =
        .ok (Tree.ofFields (found ++ [field])) := by
      have fresh : field.1 ∉ found.map Prod.fst := by
        rw [List.map_append, List.map_cons] at distinct
        exact fun there => (List.nodup_append.mp distinct).2.2 _ there _ List.mem_cons_self rfl
      simp only [plainEntry, texts, first, bind, Except.bind]
      refine congrArg Except.ok ?_
      rw [Tree.ofFields, Tree.putText_record, Workflow.putNamed_fresh fresh]
      rfl
    rw [List.map_cons, plainEntries, put]
    have more := ih later (found ++ [field]) (by simpa using distinct)
    rw [List.append_assoc] at more
    exact more

/-- What is plain stays as it is. -/
theorem plainWith_ofTree (texts : ∀ name, wording (.text name) = .ok name) {tree : Tree} (keyed : tree.Keyed) :
    plainWith wording visit (Build.ofTree tree) = .ok tree := by
  induction keyed with
  | null => rfl
  | bool => rfl
  | int => rfl
  | float => rfl
  | text => rfl
  | list _ ih =>
    rw [Build.ofTree, ofItems_eq, plainWith, plainItems_same ih]
    rfl
  | @record fields distinct _ ih =>
    show plainWith wording visit (.map (Build.ofTree.ofEntries (Tree.ofFields fields))) = _
    rw [ofEntries_eq, plainWith, show ([] : List (Tree × Tree)) = Tree.ofFields [] from rfl, plainEntries_same texts ih [] distinct]
    rfl

end

end Value

namespace Store

/-- Each event of a workflow has one entry. -/
def EventsDistinct (store : Store) : Prop := ∀ identity, ((store.workflow identity).events.map Prod.fst).Nodup

/-- The names that the sections of a workflow can have, in their order. -/
def sectionNames : List String := ["on"] ++ WorkflowField.all.map WorkflowField.key ++ ["jobs"]

section

variable {store : Store} {plain : Value → Except Failure Tree} (plains : ∀ value, Gives Tree.Keyed (plain value))
include plains

theorem recordOf_fields {fields : List (String × Value)} (distinct : (fields.map Prod.fst).Nodup) :
    Gives Tree.Fields (recordOf plain fields) := by
  intro entries made
  refine ⟨nodup_recordOf made distinct, fun entry member => ?_⟩
  obtain ⟨field, -, one⟩ := mem_mapM made entry member
  obtain ⟨tree, rendered, same⟩ := ok_of_bind one
  cases same
  exact plains _ tree rendered

theorem stepRecord_keyed (step : Step) : Gives Tree.Keyed (stepRecord plain step) :=
  (recordOf_fields plains (nodup_stepKeys step)).bind fun _ fine => gives_ok fine.keyed

theorem jobRecord_keyed (job : Job) (jobId : Value) : Gives Tree.Keyed (store.jobRecord plain job jobId) := by
  intro tree made
  obtain ⟨trees, settings, steps, fields, rfl⟩ := parts_of_jobRecord made
  have keys := List.nodup_append.mp (nodup_jobKeys job)
  have fine : Tree.Fields settings := recordOf_fields plains keys.1 settings fields
  have fresh : "steps" ∉ settings.map Prod.fst := by
    rw [keys_recordOf fields]
    exact fun there => keys.2.2 _ ((List.filter_sublist.map Prod.fst).mem there) _ (List.mem_singleton_self _) rfl
  refine (fine.group fresh fun tree member => ?_).keyed
  obtain ⟨step, -, one⟩ := mem_mapM steps tree member
  exact stepRecord_keyed plains step tree one

omit plains in
theorem putAll_fields {entries : List (String × Tree)} (keyed : ∀ entry ∈ entries, entry.2.Keyed) {found : List (Tree × Tree)}
    (made : Tree.IsFields found) :
    Tree.IsFields ((Tree.ofFields entries).foldl (fun found entry =>
      match entry with
      | (.text key, value) => Tree.putText key value found
      | entry => found ++ [entry]) found) := by
  induction entries generalizing found with
  | nil => exact made
  | cons entry rest ih =>
    obtain ⟨first, later⟩ := List.forall_mem_cons.mp keyed
    exact ih later (made.putText entry.1 first)

omit plains in
/-- Entries with equal keys become one. -/
theorem mergeKeys_fields {entries : List (String × Tree)} (keyed : ∀ entry ∈ entries, entry.2.Keyed) :
    Tree.IsFields (mergeKeys (Tree.ofFields entries)) :=
  putAll_fields keyed Tree.isFields_nil

theorem events_keyed {named : List (String × Value)} {events : List (String × Tree)} (distinct : (named.map Prod.fst).Nodup)
    (started : (named.mapM fun (name, options) => do return (name, ← store.eventOptions name options >>= plain)) = .ok events) :
    (Tree.record events).Keyed := by
  refine .record ?_ fun event member => ?_
  · rwa [Builder.names_of_mapM (fun name options => store.eventOptions name options >>= plain) started]
  · obtain ⟨given, -, one⟩ := mem_mapM started event member
    obtain ⟨tree, rendered, same⟩ := ok_of_bind one
    obtain ⟨options, -, rendered⟩ := ok_of_bind rendered
    cases same
    exact plains options tree rendered

theorem workflowSections_fields {workflow : Workflow} (distinct : (workflow.events.map Prod.fst).Nodup) :
    Gives (fun sections => (sections.map Prod.fst).Sublist sectionNames ∧ ∀ field ∈ sections, field.2.Keyed)
      (store.workflowSections plain workflow) := by
  intro sections made
  obtain ⟨jobs, events, settings, reported, started, fields, rfl⟩ := parts_of_workflowSections made
  obtain ⟨records, rfl, recorded⟩ := entries_of_jobRecords reported
  have onEvents : (Tree.record events).Keyed := events_keyed plains distinct (by simpa only [bind_assoc] using started)
  have onJobs : (Tree.map (mergeKeys (Tree.ofFields records))).Keyed := by
    refine (mergeKeys_fields fun entry member => ?_).keyed
    obtain ⟨given, -, one⟩ := mem_mapM recorded entry member
    obtain ⟨tree, rendered, same⟩ := ok_of_bind one
    cases same
    exact jobRecord_keyed plains _ _ tree rendered
  have names := keys_recordOf fields
  have keys : (WorkflowField.all.map fun field => (field.key, workflow.fields field)).map Prod.fst = WorkflowField.all.map WorkflowField.key := by
    rw [List.map_map]
    rfl
  have fine := (recordOf_fields plains (by rw [keys]; decide) settings fields).2
  constructor
  · rw [List.map_append, List.map_append, names]
    refine List.Sublist.append (List.Sublist.append (show List.Sublist _ ["on"] from ?_) ?_) ?_
    · split <;> simp
    · rw [← keys]
      exact List.filter_sublist.map Prod.fst
    · split <;> simp
  · refine List.forall_mem_append.mpr ⟨List.forall_mem_append.mpr ⟨?_, fine⟩, ?_⟩
    · split
      · simp
      · simpa using onEvents
    · split
      · simp
      · simpa [Tree.ofFields] using onJobs

end

variable {store : Store}

/-- Objects have records with each key once. -/
theorem targetWithin_keyed (distinct : store.EventsDistinct) (hops : Nat) (target : Target) :
    Gives Tree.Keyed (store.targetWithin hops target) := by
  induction hops generalizing target with
  | zero => exact gives_error _ _
  | succ hops ih =>
    have plains : ∀ value, Gives Tree.Keyed (Value.plainWith store.wording (store.targetWithin hops) value) := Value.plainWith_keyed ih
    cases target with
    | expression identity => exact gives_bind fun _ => gives_ok (.text _)
    | step identity => exact stepRecord_keyed plains _
    | job identity => exact jobRecord_keyed plains _ _
    | workflow identity =>
      refine Gives.bind (workflowSections_fields plains (distinct identity)) fun sections fine => ?_
      refine (plains _).bind fun name keyed => gives_ok ?_
      refine Tree.Fields.keyed ⟨?_, List.forall_mem_cons.mpr ⟨keyed, fine.2⟩⟩
      exact (fine.1.cons_cons "name").nodup (by decide)

theorem plain_keyed (distinct : store.EventsDistinct) (value : Value) : Gives Tree.Keyed (store.plain value) :=
  Value.plainWith_keyed (targetWithin_keyed distinct _) value

theorem plain_ofTree {tree : Tree} (keyed : tree.Keyed) : store.plain (Build.ofTree tree) = .ok tree :=
  Value.plainWith_ofTree (fun _ => rfl) keyed

/-- A value is plain just if rendering gives it back. -/
theorem plain_iff (distinct : store.EventsDistinct) (value : Value) :
    value.Plain ↔ ∃ tree, store.plain value = .ok tree ∧ Build.ofTree tree = value := by
  constructor
  · rintro ⟨tree, keyed, rfl⟩
    exact ⟨tree, plain_ofTree keyed, rfl⟩
  · rintro ⟨tree, rendered, rfl⟩
    exact ⟨tree, plain_keyed distinct _ tree rendered, rfl⟩

theorem ofTree_record (fields : List (String × Tree)) :
    Build.ofTree (Tree.record fields) = .map (fields.map fun field => (.text field.1, Build.ofTree field.2)) :=
  congrArg Value.map (Value.ofEntries_eq fields)

theorem value_eq {record : WorkflowRecord} {name : Tree} (named : Build.ofTree name = record.name) :
    Build.ofTree (Tree.record (("name", name) :: record.sections)) = record.value := by
  rw [ofTree_record, List.map_cons, named]
  rfl

/-- What stands in a plain record is plain. -/
theorem plain_name {record : WorkflowRecord} (plain : record.value.Plain) : record.name.Plain := by
  obtain ⟨tree, keyed, same⟩ := plain
  cases tree with
  | map entries =>
    obtain ⟨fields, fine, rfl⟩ := Tree.isFields_of_keyed keyed
    rw [show Tree.map (Tree.ofFields fields) = Tree.record fields from rfl, ofTree_record] at same
    cases fields with
    | nil => cases Value.map.inj same
    | cons field rest =>
      obtain ⟨first, -⟩ := List.cons.inj (Value.map.inj same)
      exact ⟨field.2, fine.2 field List.mem_cons_self, (Prod.mk.inj first).2⟩
  | _ => cases same

theorem itemData?_ofItems {items : List Tree} (each : ∀ item ∈ items, (Build.ofTree item).data? = some item) :
    Value.data?.itemData? (Build.ofTree.ofItems items) = some items := by
  induction items with
  | nil => rfl
  | cons item rest ih =>
    obtain ⟨first, later⟩ := List.forall_mem_cons.mp each
    rw [Build.ofTree.ofItems, Value.data?.itemData?, first, ih later]
    rfl

theorem entryData?_ofFields {fields : List (String × Tree)} (each : ∀ field ∈ fields, (Build.ofTree field.2).data? = some field.2) :
    Value.data?.entryData? (Build.ofTree.ofEntries (Tree.ofFields fields)) = some (Tree.ofFields fields) := by
  induction fields with
  | nil => rfl
  | cons field rest ih =>
    obtain ⟨first, later⟩ := List.forall_mem_cons.mp each
    rw [Tree.ofFields, List.map_cons, Build.ofTree.ofEntries, Value.data?.entryData?, first, ← Tree.ofFields, ih later]
    rfl

/-- What is plain can be written as it is. -/
theorem data?_ofTree {tree : Tree} (keyed : tree.Keyed) : (Build.ofTree tree).data? = some tree := by
  induction keyed with
  | null => rfl
  | bool => rfl
  | int => rfl
  | float => rfl
  | text => rfl
  | list _ ih =>
    rw [Build.ofTree, Value.data?, itemData?_ofItems ih]
    rfl
  | @record fields _ _ ih =>
    show Value.data? (.map (Build.ofTree.ofEntries (Tree.ofFields fields))) = _
    rw [Value.data?, entryData?_ofFields ih]
    rfl

/-- The record of a workflow is plain data in all sections, and as a whole just if its name is. Rendering
the record again changes nothing but the name, and a record that is plain has a file. -/
theorem renderWorkflow_plain {store : Store} (distinct : store.EventsDistinct) {identity : Nat} {record : WorkflowRecord}
    (rendered : store.renderWorkflow identity = .ok record) :
    record.name = (store.workflow identity).name ∧
      (record.sections.map Prod.fst).Sublist sectionNames ∧ (∀ field ∈ record.sections, (Build.ofTree field.2).Plain) ∧
      (∀ name, store.plain record.name = .ok name →
        store.plain record.value = .ok (Tree.record (("name", name) :: record.sections))) ∧
      (record.value.Plain ↔ record.name.Plain) ∧
      (record.value.Plain ↔ ∃ tree, store.plain record.value = .ok tree ∧ Build.ofTree tree = record.value) ∧
      (record.value.Plain → ∃ tree, record.tree = .ok tree ∧ Build.ofTree tree = record.value ∧
        ∀ root fileName file, store.wording fileName = .ok file →
          Publish.texts store root [(fileName, record)] = ([(Publish.filePath root file, Publish.fileText tree)], .ok ())) := by
  obtain ⟨sections, made, same⟩ := ok_of_bind rendered
  cases same
  obtain ⟨names, keyed⟩ := workflowSections_fields (plain_keyed distinct) (distinct identity) sections made
  have whole : ∀ name : Tree, name.Keyed → (Tree.record (("name", name) :: sections)).Keyed := by
    intro name onName
    exact .record ((names.cons_cons "name").nodup (by decide)) (List.forall_mem_cons.mpr ⟨onName, keyed⟩)
  refine ⟨rfl, names, fun field member => ⟨field.2, keyed field member, rfl⟩, ?_, ⟨plain_name, ?_⟩, plain_iff distinct _, ?_⟩
  · intro name rendered
    have apart : ((("name", name) :: sections).map Prod.fst).Nodup := (names.cons_cons "name").nodup (by decide)
    have each : ∀ field ∈ sections, store.plain (Build.ofTree field.2) = .ok field.2 := fun field member => plain_ofTree (keyed field member)
    have more := Value.plainEntries_same (fun _ => rfl) each [("name", name)] apart
    have first : Value.plainEntry store.wording (store.targetWithin (store.size + 1)) [] (.text "name", (store.workflow identity).name) =
        .ok (Tree.ofFields [("name", name)]) := by
      show (store.plain (store.workflow identity).name >>= _) = _
      rw [rendered]
      rfl
    rw [WorkflowRecord.value, Store.plain, Value.plainWith, Value.plainEntries, first]
    show (Value.plainEntries store.wording _ (Tree.ofFields [("name", name)]) _ >>= _) = _
    rw [more]
    rfl
  · rintro ⟨name, onName, named⟩
    exact ⟨_, whole name onName, value_eq named⟩
  · intro plain
    obtain ⟨name, onName, named⟩ := plain_name plain
    have whole : WorkflowRecord.tree ⟨(store.workflow identity).name, sections⟩ = .ok (Tree.record (("name", name) :: sections)) := by
      rw [WorkflowRecord.tree, ← named, data?_ofTree onName]
    refine ⟨Tree.record (("name", name) :: sections), whole, value_eq named, ?_⟩
    intro root fileName file spelled
    rw [Publish.texts, spelled, whole, Publish.texts]

/-- A workflow whose settings have members of sets for keys and items. -/
def memberSettings : Store where
  workflows := [Workflow.set { name := .text "CI", fileName := .text "ci" } .env
    (.map [(.choice (.runner .ubuntuLatest), .tuple [.int 1, .choice (.shell .bash)])])]

theorem renderWorkflow_plain_members : ∃ record, memberSettings.renderWorkflow 0 = .ok record ∧ record.value.Plain ∧
    ∃ tree, record.tree = .ok tree ∧ Build.ofTree tree = record.value := by
  have distinct : memberSettings.EventsDistinct := by
    rintro (_ | _) <;> exact List.nodup_nil
  have rendered : memberSettings.renderWorkflow 0 =
      .ok ⟨.text "CI", [("env", Tree.record [("ubuntu-latest", .list [.int 1, .text "bash"])])]⟩ := by rfl
  obtain ⟨-, -, -, -, named, -, written⟩ := renderWorkflow_plain distinct rendered
  have plain := named.mpr ⟨.text "CI", .text "CI", rfl⟩
  obtain ⟨tree, whole, same, -⟩ := written plain
  exact ⟨_, rendered, plain, tree, whole, same⟩

/-- A workflow that is named by a member of a set. -/
def memberNamed : Store := { workflows := [{ name := .choice (.runner .ubuntuLatest), fileName := .text "ci" }] }

/-- A directory with a file in it. -/
def holding : Disk := ⟨[(["out"], .directory), (["out", "old.yml"], .file "name: old")]⟩

/-- The name is plain once it is rendered and stays a member in the record, so that the file cannot be
written after the directory was emptied. -/
theorem memberNamed_not_plain : ∃ record, memberNamed.renderWorkflow 0 = .ok record ∧ ¬ record.value.Plain ∧
    memberNamed.plain record.name = .ok (.text "ubuntu-latest") ∧ record.tree.isOk = false ∧
    (Publish.generate memberNamed [] holding [.workflow 0] ⟨.relative, ["out"]⟩ true).result.isOk = false ∧
    (Publish.generate memberNamed [] holding [.workflow 0] ⟨.relative, ["out"]⟩ true).disk.find ["out", "old.yml"] = none := by
  refine ⟨⟨.choice (.runner .ubuntuLatest), []⟩, rfl, fun plain => ?_, rfl, rfl, by decide, by decide⟩
  obtain ⟨tree, -, same⟩ := plain_name plain
  cases tree <;> cases same

end Store

end WorkflowCompiler
