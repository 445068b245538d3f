import WorkflowCompiler.Proofs.Results
import WorkflowCompiler.Proofs.WritingFiles
import WorkflowCompiler.Publish.Checking

/-! What workflows render to, file by file. Workflows that could all be rendered have file names of
their own, and each has a tree under its file name. -/

namespace WorkflowCompiler.Publish

/-- A workflow whose name is a text and whose file name is a text of some kind. -/
structure Named (valid : String → Prop) (store : Store) (workflow : Value) : Prop where
  known : ∃ identity name fileName, workflow = .workflow identity ∧ (store.workflow identity).name = .text name ∧
    (store.workflow identity).fileName = .text fileName ∧ valid fileName

/-- The trees that workflows render to, each under the file name of its workflow. -/
inductive Renders (store : Store) : List Value → List (String × Tree) → Prop
  | nil : Renders store [] []
  | cons {identity : Nat} {record : WorkflowRecord} {tree : Tree} {fileName : String} {workflows : List Value}
      {files : List (String × Tree)} (named : (store.workflow identity).fileName = .text fileName)
      (rendered : store.renderWorkflow identity = .ok record) (whole : record.tree = .ok tree)
      (more : Renders store workflows files) :
      Renders store (.workflow identity :: workflows) ((fileName, tree) :: files)

/-- The record of a file, as it was collected. -/
structure Filed (entry : Value × WorkflowRecord) (file : String × Tree) : Prop where
  named : entry.1 = .text file.1
  whole : entry.2.tree = .ok file.2

section

variable {valid : String → Prop} {store : Store} {workflows : List Value} {entries : List (Value × WorkflowRecord)}
  {files : List (String × Tree)}

theorem equals_text (left right : String) : Value.equals (.text left) (.text right) = (left == right) := by
  simp [Value.equals, Value.sameSize, Value.sameChars, Value.size?, Value.chars?, Value.label?, Label.chars]

theorem lookup?_text_append (fileName other : String) (owners : Owners) (owner : Value) :
    Value.lookup? (.text other) (owners ++ [(.text fileName, owner)]) = none ↔
      Value.lookup? (.text other) owners = none ∧ other ≠ fileName := by
  simp [Value.lookup?, List.find?_append, equals_text, Option.or_eq_none_iff]

theorem tree_of_renderWorkflow {identity : Nat} {record : WorkflowRecord} {name : String}
    (named : (store.workflow identity).name = .text name) (rendered : store.renderWorkflow identity = .ok record) :
    record.tree = .ok (Tree.record (("name", .text name) :: record.sections)) := by
  rw [Store.renderWorkflow] at rendered
  cases sections : store.workflowSections store.plain (store.workflow identity) with
  | error failure => simp [sections] at rendered
  | ok found =>
    rw [sections] at rendered
    cases rendered
    simp [WorkflowRecord.tree, named, Value.data?]

/-- Without a fault, the first workflow has a name that is not taken and could be rendered. -/
theorem collectRecords_cons {identity : Nat} {fileName : String} {owners : Owners}
    (named : (store.workflow identity).fileName = .text fileName)
    (collected : collectRecords store owners (.workflow identity :: workflows) = .ok (entries, [])) :
    ∃ record more, Value.lookup? (.text fileName) owners = none ∧ store.renderWorkflow identity = .ok record ∧
      collectRecords store (owners ++ [(.text fileName, (store.workflow identity).name)]) workflows =
        .ok (more, []) ∧ entries = (.text fileName, record) :: more := by
  have isKey : Value.isKey (.text fileName) = true := rfl
  rw [collectRecords] at collected
  simp only [named, isKey, Bool.not_true, Bool.false_eq_true, if_false] at collected
  cases taken : Value.lookup? (.text fileName) owners with
  | some owner =>
    simp only [taken] at collected
    obtain ⟨first, -, collected⟩ := ok_of_bind collected
    obtain ⟨second, -, collected⟩ := ok_of_bind collected
    obtain ⟨third, -, collected⟩ := ok_of_bind collected
    obtain ⟨rest, -, faulty⟩ := ok_of_bind collected
    cases faulty
  | none =>
    simp only [taken] at collected
    cases rendered : store.renderWorkflow identity with
    | ok record =>
      simp only [rendered] at collected
      obtain ⟨⟨more, faults⟩, later, same⟩ := ok_of_bind collected
      cases same
      exact ⟨record, more, rfl, rfl, later, rfl⟩
    | error fault =>
      simp only [rendered] at collected
      split at collected
      · cases collected
      · obtain ⟨rest, -, faulty⟩ := ok_of_bind collected
        cases faulty

theorem collectRecords_renders {owners : Owners} (plain : ∀ workflow ∈ workflows, Named valid store workflow)
    (collected : collectRecords store owners workflows = .ok (entries, [])) :
    ∃ files, Renders store workflows files ∧ List.Forall₂ Filed entries files ∧ (files.map Prod.fst).Nodup ∧
      ∀ file ∈ files, Value.lookup? (.text file.1) owners = none := by
  induction workflows generalizing owners entries with
  | nil =>
    cases collected
    exact ⟨[], .nil, .nil, List.nodup_nil, by simp⟩
  | cons workflow workflows ih =>
    obtain ⟨identity, name, fileName, rfl, titled, named, -⟩ := (plain workflow List.mem_cons_self).known
    obtain ⟨record, more, free, rendered, later, rfl⟩ := collectRecords_cons named collected
    obtain ⟨files, renders, filed, distinct, apart⟩ :=
      ih (fun workflow member => plain workflow (List.mem_cons_of_mem _ member)) later
    have whole := tree_of_renderWorkflow titled rendered
    refine ⟨_ :: files, .cons named rendered whole renders, .cons ⟨rfl, whole⟩ filed, ?_, ?_⟩
    · rw [List.map_cons, List.nodup_cons]
      refine ⟨?_, distinct⟩
      intro member
      obtain ⟨file, inside, same⟩ := List.mem_map.mp member
      exact ((lookup?_text_append _ _ _ _).mp (apart file inside)).2 same
    · intro file member
      rcases List.mem_cons.mp member with rfl | later
      · exact free
      · exact ((lookup?_text_append _ _ _ _).mp (apart file later)).1

/-- Workflows that have records render to files under names of their own. -/
theorem records_render (plain : ∀ workflow ∈ workflows, Named valid store workflow)
    (collected : records store workflows = .ok entries) :
    ∃ files, Renders store workflows files ∧ List.Forall₂ Filed entries files ∧ (files.map Prod.fst).Nodup := by
  obtain ⟨⟨found, faults⟩, collected, kept⟩ := ok_of_bind collected
  cases faults with
  | cons fault faults => cases kept
  | nil =>
    cases kept
    obtain ⟨files, renders, filed, distinct, -⟩ := collectRecords_renders plain collected
    exact ⟨files, renders, filed, distinct⟩

theorem texts_filed (root : Path) (filed : List.Forall₂ Filed entries files) :
    texts store root entries = (files.map fun file => (filePath root file.1, fileText file.2), .ok ()) := by
  induction filed with
  | nil => rfl
  | cons first _ ih =>
    obtain ⟨named, whole⟩ := first
    rw [texts, named, whole, ih]
    rfl

theorem expected_filed (filed : List.Forall₂ Filed entries files) :
    expected store entries = .ok (files.map Listed.ofFile) := by
  apply mapM_ok
  rw [List.forall₂_map_right_iff]
  refine filed.imp ?_
  rintro ⟨name, record⟩ file ⟨named, whole⟩
  cases named
  simp only [Value.chars?, Value.label?]
  rw [whole]
  rfl

theorem Renders.names (renders : Renders store workflows files)
    (plain : ∀ workflow ∈ workflows, Named valid store workflow) : ∀ file ∈ files, valid file.1 := by
  induction renders with
  | nil => simp
  | cons named _ _ _ ih =>
    intro file member
    rcases List.mem_cons.mp member with rfl | later
    · obtain ⟨identity, name, fileName, same, -, written, kind⟩ := (plain _ List.mem_cons_self).known
      cases same
      rw [named] at written
      cases written
      exact kind
    · exact ih (fun workflow member => plain workflow (List.mem_cons_of_mem _ member)) file later

end

/-- The store of one workflow that has a name, a file name and no more. -/
def nameOnly (fileName : String) : Store := { workflows := [{ name := .text "CI", fileName := .text fileName }] }

theorem nameOnly_named {valid : String → Prop} {fileName : String} (kind : valid fileName) :
    ∀ workflow ∈ [Value.workflow 0], Named valid (nameOnly fileName) workflow := by
  intro workflow member
  rw [List.mem_singleton.mp member]
  exact ⟨0, "CI", fileName, rfl, rfl, rfl, kind⟩

theorem records_nameOnly (fileName : String) :
    records (nameOnly fileName) [.workflow 0] = .ok [(.text fileName, { name := .text "CI", sections := [] })] := rfl

theorem renders_nameOnly {fileName : String} {files : List (String × Tree)}
    (renders : Renders (nameOnly fileName) [.workflow 0] files) :
    files = [(fileName, Tree.record [("name", .text "CI")])] := by
  cases renders with
  | cons named rendered whole more =>
    cases more
    cases named
    cases rendered
    cases whole
    rfl

end WorkflowCompiler.Publish
