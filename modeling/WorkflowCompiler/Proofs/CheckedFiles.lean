import WorkflowCompiler.Proofs.ComparisonLines

/-! What the check takes for up to date: a directory whose workflow files read back as exactly what
the workflows render to, and no other. -/

namespace WorkflowCompiler

namespace Store

variable {store : Store} {plain : Value → Except Failure Tree}

theorem keys_of_recordOf {fields : List (String × Value)} {record : List (String × Tree)}
    (made : recordOf plain fields = .ok record) : ∀ entry ∈ record, ∃ field ∈ fields, field.1 = entry.1 := by
  intro entry member
  obtain ⟨field, inside, one⟩ := mem_mapM made entry member
  obtain ⟨tree, -, same⟩ := ok_of_bind one
  cases same
  exact ⟨field, (List.mem_filter.mp inside).1, rfl⟩

/-- The keys that a workflow is written under, after its name. -/
theorem keys_of_workflowSections {workflow : Workflow} {sections : List (String × Tree)}
    (made : store.workflowSections plain workflow = .ok sections) :
    ∀ entry ∈ sections, entry.1 = "on" ∨ entry.1 = "jobs" ∨ ∃ field : WorkflowField, entry.1 = field.key := by
  obtain ⟨⟨jobs, failures⟩, -, made⟩ := ok_of_bind made
  cases failures with
  | cons failure failures =>
    obtain ⟨label, -, made⟩ := ok_of_bind made
    cases made
  | nil =>
    obtain ⟨events, -, made⟩ := ok_of_bind made
    obtain ⟨settings, fields, same⟩ := ok_of_bind made
    cases same
    intro entry member
    rcases List.mem_append.mp member with early | late
    · rcases List.mem_append.mp early with event | setting
      · split at event
        · cases event
        · rw [List.mem_singleton.mp event]
          exact .inl rfl
      · obtain ⟨field, inside, same⟩ := keys_of_recordOf fields entry setting
        obtain ⟨wanted, -, rfl⟩ := List.mem_map.mp inside
        exact .inr (.inr ⟨wanted, same.symm⟩)
    · split at late
      · cases late
      · rw [List.mem_singleton.mp late]
        exact .inr (.inl rfl)

end Store

namespace Publish
open Disk

section

variable {store : Store} {disk : Disk} {current : Place} {root : Path} {workflows : List Value}
  {entries : List (Value × WorkflowRecord)} {files actual : List (String × Tree)} {valid : String → Prop}

theorem Renders.titled (renders : Renders store workflows files)
    (named : ∀ workflow ∈ workflows, Named valid store workflow) : ∀ file ∈ files, Titled file.2 := by
  induction renders with
  | nil => simp
  | cons written rendered whole more ih =>
    intro file member
    rcases List.mem_cons.mp member with rfl | later
    · obtain ⟨identity, name, fileName, same, titled, -, -⟩ := (named _ List.mem_cons_self).known
      cases same
      rw [tree_of_renderWorkflow titled rendered] at whole
      cases whole
      refine ⟨.text name, _, rfl, ?_⟩
      intro other member
      obtain ⟨entry, inside, same⟩ := List.mem_map.mp member
      obtain ⟨key, -⟩ := Prod.mk.inj same
      obtain ⟨sections, made, done⟩ := ok_of_bind rendered
      cases done
      have name : entry.1 = "File" := Tree.text.inj key
      rcases Store.keys_of_workflowSections made entry inside with on | jobs | ⟨field, setting⟩
      · simp [on] at name
      · simp [jobs] at name
      · cases field <;> simp [setting, WorkflowField.key] at name
    · exact ih (fun workflow member => named workflow (List.mem_cons_of_mem _ member)) file later

theorem mappingOf_eq_map (tree : Tree) : ∃ entries, mappingOf tree = .map entries := by
  cases tree with
  | map entries => exact ⟨entries, rfl⟩
  | _ => exact ⟨[], rfl⟩

theorem StandsFor.single {fileName name : String} (stands : StandsFor fileName name) (single : '\n' ∉ fileName.toList) :
    '\n' ∉ name.toList := by
  rcases stands with ⟨-, rfl⟩ | ⟨rfl, -⟩
  · intro member
    exact single (by simp [member])
  · decide

theorem StandsFor.stem {fileName name stem : String} (stands : StandsFor fileName name) (only : stem? fileName = some stem) :
    name = stem := Option.some.inj ((stem?_eq_some.mpr stands).symm.trans only)

/-- The check reports nothing exactly when what it reads is what the workflows render to: no file is
missing, none is left over and none has changed. What it reads is what the workflow files of the
directory say, and it reads them if each of them can be read. -/
theorem check_eq_empty_iff (store : Store) (current : Place) {disk : Disk} (sound : disk.Sound) {workflows : List Value}
    (named : ∀ workflow ∈ workflows, Named (fun fileName => '\n' ∉ fileName.toList) store workflow)
    {entries : List (Value × WorkflowRecord)} (rendered : records store workflows = .ok entries) (root : Path)
    (single : ∀ name content, FileAt disk current root name content → '\n' ∉ name.toList)
    (faithful : ∀ files actual, Renders store workflows files → readFiles disk current root = .ok actual →
      Faithful ((files ++ actual).map Prod.snd)) :
    ∃ files, Renders store workflows files ∧
      (Short root → Fits root.parts → ShortFiles disk current root →
        (∀ name content, FileAt disk current root name content →
          ∃ text tree, content = .text text ∧ Yaml.load text = .ok tree) →
        ∃ actual report, readFiles disk current root = .ok actual ∧
          check store current disk workflows root = .ok report) ∧
      (∀ actual, readFiles disk current root = .ok actual → Reads disk current root actual) ∧
      (check store current disk workflows root = .ok "" ↔ ∃ actual, readFiles disk current root = .ok actual ∧
        ∀ name, actual.lookup name = files.lookup name) := by
  obtain ⟨files, renders, filed, distinct⟩ := records_render named rendered
  refine ⟨files, renders, ?_, fun actual => readFiles_reads sound, ?_⟩
  · intro short fits shortFiles parses
    obtain ⟨actual, read⟩ := readFiles_of_fileAt sound short fits shortFiles parses
    exact ⟨actual, _, read, by rw [check_eq rendered filed, read]; rfl⟩
  · rw [check_eq_empty rendered filed]
    refine exists_congr fun actual => and_congr_right fun read => ?_
    have found := readFiles_reads sound read
    constructor
    · intro same
      have mappings : ∀ file ∈ actual, ∃ entries, file.2 = .map entries := by
        intro file member
        obtain ⟨name, text, loaded, -, -, -, shape⟩ := found.sound file member
        rw [shape]
        exact mappingOf_eq_map loaded
      have lines : ∀ file ∈ files ++ actual, '\n' ∉ file.1.toList := by
        intro file member
        rcases List.mem_append.mp member with expected | there
        · exact renders.names named file expected
        · obtain ⟨name, text, loaded, place, stands, -⟩ := found.sound file there
          exact stands.single (single name (.text text) place)
      have perm := comparison_inj (faithful files actual renders read) (renders.titled named) mappings lines same
      intro name
      apply Option.ext
      intro tree
      rw [lookup_eq_some found.distinct, lookup_eq_some distinct]
      exact perm.mem_iff
    · intro same
      have alike : ∀ file, file ∈ actual ↔ file ∈ files := by
        rintro ⟨name, tree⟩
        rw [← lookup_eq_some found.distinct, ← lookup_eq_some distinct, same name]
      exact comparison_perm ((List.perm_ext_iff_of_nodup found.distinct.of_map distinct.of_map).mpr alike) found.distinct

end

/-- A directory with files under the given names, each that of a workflow that has a name and no more. -/
def stocked (names : List String) : Disk :=
  ⟨(["out"], .directory) :: names.map fun name => (["out", name], .file (fileText (Tree.record [("name", .text "CI")])))⟩

theorem fileAt_stocked {names : List String} (sound : (stocked names).Sound) {name : String} {content : Content}
    (there : FileAt (stocked names) [] ⟨.relative, ["out"]⟩ name content) :
    name ∈ names ∧ content = .text (fileText (Tree.record [("name", .text "CI")])) := by
  obtain ⟨-, place, located, found, -⟩ := there
  have out : (stocked names).locate [] ⟨.relative, ["out"]⟩ = .ok ["out"] := rfl
  rw [out] at located
  cases located
  have listed := (find_eq_some sound (by simp)).mp found
  simpa [stocked, eq_comm] using listed

theorem faithful_nameOnly {trees : List Tree} (all : ∀ tree ∈ trees, tree = Tree.record [("name", .text "CI")]) :
    Faithful trees where
  distinct := by
    intro first left second right _
    rw [all first left, all second right]
  single := by
    intro entries member
    rw [all _ member]
    decide
  titled := by
    intro value entries member
    rw [all _ member]
    exact ⟨_, _, rfl, rfl⟩
  headed := by
    intro entries member line inside starts
    rw [all _ member] at inside
    have none : ∀ line ∈ linesOf (Yaml.document (Tree.record [("name", .text "CI")])), isFileLine line = false := by decide
    rw [none line inside] at starts
    cases starts

/-- What is read of such a directory. -/
theorem Reads.stocked {names : List String} (sound : (stocked names).Sound) {actual : List (String × Tree)}
    (reads : Reads (stocked names) [] ⟨.relative, ["out"]⟩ actual) :
    ∀ file ∈ actual, file.2 = Tree.record [("name", .text "CI")] ∧ ∃ name ∈ names, StandsFor name file.1 := by
  intro file member
  obtain ⟨name, text, loaded, there, stands, parsed, shape⟩ := reads.sound file member
  obtain ⟨listed, same⟩ := fileAt_stocked sound there
  cases same
  rw [load_ci] at parsed
  cases parsed
  exact ⟨shape, name, listed, stands⟩

theorem faithful_stocked {names : List String} (sound : (stocked names).Sound) :
    ∀ files actual, Renders (nameOnly "ci") [.workflow 0] files →
      readFiles (stocked names) [] ⟨.relative, ["out"]⟩ = .ok actual → Faithful ((files ++ actual).map Prod.snd) := by
  intro files actual renders read
  apply faithful_nameOnly
  rw [renders_nameOnly renders, List.forall_mem_map]
  intro file member
  rcases List.mem_cons.mp member with rfl | found
  · rfl
  · exact ((readFiles_reads sound read).stocked sound file found).1

theorem shortFiles_stocked {names : List String} (sound : (stocked names).Sound)
    (short : ∀ name ∈ names, Short (Path.child ⟨.relative, ["out"]⟩ name)) :
    ShortFiles (stocked names) [] ⟨.relative, ["out"]⟩ := by
  rintro place located name found -
  have out : (stocked names).locate [] ⟨.relative, ["out"]⟩ = .ok ["out"] := rfl
  rw [out] at located
  cases located
  obtain ⟨entry, there⟩ := Option.ne_none_iff_exists'.mp found
  have listed := (find_eq_some sound (by simp)).mp there
  obtain ⟨member, -⟩ : name ∈ names ∧ _ := by simpa [stocked] using listed
  exact short name member

theorem check_stocked :
    check (nameOnly "ci") [] (stocked ["ci.yml"]) [.workflow 0] ⟨.relative, ["out"]⟩ = .ok "" ∧
      check (nameOnly "ci") [] (stocked ["ci.yml", "old.yml"]) [.workflow 0] ⟨.relative, ["out"]⟩ ≠ .ok "" := by
  have single : ∀ {names : List String}, (stocked names).Sound → (∀ name ∈ names, '\n' ∉ name.toList) →
      ∀ name content, FileAt (stocked names) [] ⟨.relative, ["out"]⟩ name content → '\n' ∉ name.toList :=
    fun sound lines name content there => lines name (fileAt_stocked sound there).1
  constructor
  · have sound : (stocked ["ci.yml"]).Sound := sound_of_entries (by decide) (by decide) (by decide)
    obtain ⟨files, renders, readable, reads, upToDate⟩ := check_eq_empty_iff (nameOnly "ci") [] sound
      (nameOnly_named (by decide)) (records_nameOnly "ci") ⟨.relative, ["out"]⟩ (single sound (by decide)) (faithful_stocked sound)
    obtain rfl := renders_nameOnly renders
    have out : (stocked ["ci.yml"]).locate [] ⟨.relative, ["out"]⟩ = .ok ["out"] := rfl
    obtain ⟨actual, -, read, -⟩ := readable (by decide) (by decide) (shortFiles_stocked sound (by decide))
      fun name content there => ⟨_, _, (fileAt_stocked sound there).2, load_ci⟩
    have found := reads actual read
    have held := found.stocked sound
    have ci : ∀ {name}, (∃ fileName ∈ ["ci.yml"], StandsFor fileName name) → name = "ci" := by
      rintro name ⟨fileName, member, stands⟩
      rw [List.mem_singleton.mp member] at stands
      exact stands.stem (by decide)
    refine upToDate.mpr ⟨actual, read, fun name => Option.ext fun tree => ?_⟩
    rw [lookup_eq_some found.distinct, lookup_eq_some (by simp), List.mem_singleton, Prod.ext_iff]
    constructor
    · intro member
      obtain ⟨shape, stands⟩ := held _ member
      exact ⟨ci stands, shape⟩
    · rintro ⟨rfl, rfl⟩
      obtain ⟨stem, listed, stands⟩ := found.complete "ci.yml" _
        ⟨by decide, ["out"], out, rfl, "ci", .inl ⟨by decide, by decide⟩⟩
      obtain ⟨file, member, rfl⟩ := List.mem_map.mp listed
      have whole : file = ("ci", Tree.record [("name", .text "CI")]) :=
        Prod.ext (ci ⟨_, List.mem_cons_self, stands⟩) (held file member).1
      exact whole ▸ member
  · have sound : (stocked ["ci.yml", "old.yml"]).Sound := sound_of_entries (by decide) (by decide) (by decide)
    obtain ⟨files, renders, -, reads, upToDate⟩ := check_eq_empty_iff (nameOnly "ci") [] sound
      (nameOnly_named (by decide)) (records_nameOnly "ci") ⟨.relative, ["out"]⟩ (single sound (by decide)) (faithful_stocked sound)
    rw [renders_nameOnly renders] at upToDate
    intro empty
    obtain ⟨actual, read, same⟩ := upToDate.mp empty
    have out : (stocked ["ci.yml", "old.yml"]).locate [] ⟨.relative, ["out"]⟩ = .ok ["out"] := rfl
    obtain ⟨stem, listed, stands⟩ := (reads actual read).complete "old.yml" _
      ⟨by decide, ["out"], out, rfl, "old", .inl ⟨by decide, by decide⟩⟩
    obtain rfl : stem = "old" := stands.stem (by decide)
    obtain ⟨⟨name, tree⟩, member, rfl⟩ := List.mem_map.mp listed
    have found := (lookup_eq_some (reads actual read).distinct).mpr member
    rw [same] at found
    cases found

end Publish

end WorkflowCompiler
