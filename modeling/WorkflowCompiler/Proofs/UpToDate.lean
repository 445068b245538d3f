import WorkflowCompiler.Proofs.Comparison
import WorkflowCompiler.Proofs.Publishing

/-! What a run of `generate` without failures leaves for the check. The files that it wrote are read
back as they were rendered, so that nothing but workflow files of another origin is ever reported. -/

namespace WorkflowCompiler.Publish
open Disk

/-- The directory `place` holds the given files, and other files as it did before. -/
structure Holds (before after : Disk) (place : Place) (files : List (String × Tree)) : Prop where
  sound : after.Sound
  directory : after.find place = some .directory
  written : ∀ file ∈ files, after.find (target place file.1) = some (.file (fileText file.2))
  kept : ∀ name, (∀ file ∈ files, name ≠ file.1 ++ fileExtension) →
    after.find (place ++ [name]) = before.find (place ++ [name])

/-- A directory holds a workflow file that is none of the given ones. -/
def HoldsOther (disk : Disk) (place : Place) (files : List (String × Tree)) : Prop :=
  ∃ name content, disk.find (place ++ [name]) = some (.file content) ∧ isWorkflowFile name = true ∧
    ∀ file ∈ files, name ≠ file.1 ++ fileExtension

/-- A file can be written under the name, and read back under it. -/
structure Checkable (name : String) : Prop where
  plain : PlainName name
  apart : name ≠ fileExtension

theorem checkable_of_simple {name : String} (named : name ≠ "")
    (simple : ∀ c ∈ name.toList, c.isAlphanum = true ∨ c = '-') : Checkable name where
  plain := by
    refine ⟨named, ?_, ?_⟩
    · intro member
      have := simple '/' member
      revert this
      decide
    · intro member
      have := simple '\x00' member
      revert this
      decide
  apart := by
    rintro rfl
    have := simple '.' (by decide)
    revert this
    decide

section

variable {disk prepared after : Disk} {current place : Place} {root : Path} {cleanup : Bool}
  {files actual : List (String × Tree)}

theorem Holds.other (holds : Holds disk after place files) : HoldsOther after place files ↔ HoldsOther disk place files := by
  constructor
  · rintro ⟨name, content, there, file, other⟩
    exact ⟨name, content, holds.kept name other ▸ there, file, other⟩
  · rintro ⟨name, content, there, file, other⟩
    exact ⟨name, content, (holds.kept name other).trans there, file, other⟩

/-- What was written has a short path, so that it is enough if what was there before has. -/
theorem Holds.shortFiles (holds : Holds disk after place files) (located : after.locate current root = .ok place)
    (short : ∀ file ∈ files, Short (root.child (file.1 ++ fileExtension)))
    (others : ∀ name, disk.find (place ++ [name]) ≠ none → Short (root.child name)) : ShortFiles after current root := by
  rintro other reached name found -
  rw [located] at reached
  cases reached
  by_cases ours : ∀ file ∈ files, name ≠ file.1 ++ fileExtension
  · exact others name (holds.kept name ours ▸ found)
  · push Not at ours
    obtain ⟨file, member, rfl⟩ := ours
    exact short file member

theorem results_of_summary {results : List (Path × Except Failure Unit)} (succeeded : summary root results = .ok ()) :
    ∀ result ∈ results, result.2 = .ok () := by
  rw [summary] at succeeded
  split at succeeded
  · cases succeeded
  split at succeeded
  next none =>
    intro result member
    obtain ⟨path, ended⟩ := result
    cases ended with
    | ok => rfl
    | error failure =>
      have listed : failure ∈ results.filterMap failureOf := List.mem_filterMap.mpr ⟨_, member, rfl⟩
      rw [List.isEmpty_iff.mp none] at listed
      cases listed
  · cases succeeded

/-- A file can be written only into a directory that is there. -/
theorem write_flat {name text : String} (flat : '/' ∉ name.toList) (wrote : disk.write current (filePath root name) text = .ok after) :
    disk.locate current root = .ok (placeOf current root) ∧ disk.find (placeOf current root) = some .directory ∧
      disk.find (target (placeOf current root) name) ≠ some .directory ∧
      after = disk.put (target (placeOf current root) name) (.file (.text text)) := by
  have direct : filePath root name = root.child (name ++ fileExtension) := by
    rw [filePath, ofText_fileName flat]
    rfl
  have straight : Straight [name ++ fileExtension] := by
    intro part member
    rw [List.mem_singleton.mp member]
    exact isUp_fileName name
  rw [write] at wrote
  split at wrote
  · cases wrote
  rw [direct] at wrote
  split at wrote
  · cases wrote
  next there reached =>
    have short := short_of_locate reached
    have above : Short root := by simpa [Path.parent, Path.child] using short.parent
    rw [locate_of_short disk current short, Path.child, reach_append disk current root straight,
      ← locate_of_short disk current above] at reached
    cases located : disk.locate current root with
    | error fault =>
      rw [located] at reached
      cases reached
    | ok found =>
      obtain rfl := locate_climb located
      rw [located, Except.bind] at reached
      cases directory : disk.find (placeOf current root) with
      | none =>
        simp only [follow, directory] at reached
        cases reached
      | some entry =>
        cases entry with
        | file other =>
          simp only [follow, directory] at reached
          cases reached
        | directory =>
          rw [follow_part directory (isUp_fileName name)] at reached
          split at reached
          · cases reached
          cases reached
          split at wrote
          · cases wrote
          next free => exact ⟨rfl, rfl, free, (Except.ok.inj wrote).symm⟩

/-- Once the directory is there, what was written into it can be located. -/
theorem located_of_writeFiles {order : Order} (shuffles : ∀ files, (order files).Perm files)
    (flat : ∀ file ∈ files, '/' ∉ file.1.toList) (filled : files ≠ [])
    (all : ∀ result ∈ (writeFiles current disk (order (files.map fun file => (filePath root file.1, fileText file.2)))).2,
      result.2 = .ok ()) :
    disk.locate current root = .ok (placeOf current root) ∧ disk.find (placeOf current root) = some .directory := by
  have perm := shuffles (files.map fun file => (filePath root file.1, fileText file.2))
  cases ordered : order (files.map fun file => (filePath root file.1, fileText file.2)) with
  | nil =>
    rw [ordered] at perm
    exact absurd (List.map_eq_nil_iff.mp perm.nil_eq.symm) filled
  | cons first rest =>
    rw [ordered] at perm all
    obtain ⟨file, member, rfl⟩ := List.mem_map.mp (perm.mem_iff.mp List.mem_cons_self)
    rw [writeFiles] at all
    split at all
    next wrote =>
      obtain ⟨located, directory, -⟩ := write_flat (flat file member) wrote
      exact ⟨located, directory⟩
    next failure _ => cases all _ List.mem_cons_self

theorem locate_of_results {order : Order} (shuffles : ∀ files, (order files).Perm files)
    (plain : ∀ file ∈ files, PlainName file.1) (filled : files ≠ [])
    (all : ∀ result ∈ (writeFiles current disk (order (files.map fun file => (filePath root file.1, fileText file.2)))).2,
      result.2 = .ok ()) :
    ∃ place, disk.locate current root = .ok place ∧ disk.find place = some .directory :=
  ⟨_, located_of_writeFiles shuffles (fun file member => (plain file member).flat) filled all⟩

/-- Without a failure all files are there, and what else there was. -/
theorem writeFiles_holds {order : Order} (shuffles : ∀ files, (order files).Perm files) (sound : disk.Sound)
    (noNul : holdsNul root = false) (located : disk.locate current root = .ok place)
    (directory : disk.find place = some .directory) (plain : ∀ file ∈ files, PlainName file.1)
    (distinct : (files.map Prod.fst).Nodup)
    (wrote : writeFiles current disk (order (files.map fun file => (filePath root file.1, fileText file.2))) = (after, results))
    (all : ∀ result ∈ results, result.2 = .ok ()) :
    Holds disk after place files ∧ after.locate current root = .ok place ∧
      ∀ file ∈ files, Short (root.child (file.1 ++ fileExtension)) := by
  have leads : disk.Leads current root place [] :=
    ⟨⟨root.parts, by simp, (locate_of_short disk current (short_of_locate located)).symm.trans located⟩, directory, by simp [Straight]⟩
  obtain ⟨left, names, perm, run, written⟩ :=
    writeTrees_in_order shuffles sound leads (by simp [Fits]) noNul (by simpa using directory) files plain distinct
  rw [List.append_nil] at written run
  obtain ⟨rfl, rfl⟩ := Prod.mk.inj (wrote.symm.trans run)
  have accepted : ∀ file ∈ files, fault? disk place root file.1 = none := by
    intro file member
    have listed : file.1 ∈ names := perm.mem_iff.mpr (List.mem_map_of_mem member)
    have fine := all _ (List.mem_map_of_mem listed)
    cases found : fault? disk place root file.1 with
    | none => rfl
    | some fault => simp [verdict, found] at fine
  have kept : ∀ other, (∀ file ∈ files, other ≠ target place file.1) → after.find other = disk.find other := by
    intro other apart
    refine written.kept other fun writing member _ => ?_
    obtain ⟨file, inside, rfl⟩ := List.mem_map.mp member
    exact apart file inside
  have directories : ∀ other, disk.find other = some .directory → after.find other = some .directory := by
    intro other there
    rw [kept, there]
    rintro file member rfl
    exact (fault?_eq_none.mp (accepted file member)).2 there
  have reached : after.locate current root = .ok place := by
    have short := short_of_locate located
    rw [locate_of_short _ current short] at located ⊢
    exact follow_mono directories located
  refine ⟨⟨written.sound, directories place directory, ?_, ?_⟩, reached, ?_⟩
  · intro file member
    exact written.written _ (List.mem_map_of_mem member) (accepted file member)
  · intro name apart
    refine kept _ fun file member same => ?_
    exact apart file member (by simpa [target] using same)
  · intro file member
    have fits := (fault?_eq_none.mp (accepted file member)).1
    rw [← filePath_eq root (plain file member)]
    exact not_not.mp fun long => fits (.inr long)

theorem stem?_eq {name fileName : String} (apart : name ≠ fileExtension) (stem : stem? fileName = some name) :
    fileName = name ++ fileExtension :=
  ((stem?_eq_some.mp stem).resolve_right fun extension => apart extension.1).2

/-- What was written is read back. -/
theorem Holds.mem_actual (holds : Holds disk after place files) (read : ReadFrom after place actual)
    (names : ∀ file ∈ files, Checkable file.1) (reads : ∀ file ∈ files, readText (fileText file.2) = .ok file.2) :
    ∀ file ∈ files, file ∈ actual := by
  intro file member
  have name := names file member
  have stem : stem? (file.1 ++ fileExtension) = some file.1 := stem?_eq_some.mpr (.inl ⟨name.plain.named, rfl⟩)
  obtain ⟨-, listed⟩ := read.complete _ _ _ (holds.written file member) stem
  obtain ⟨⟨other, tree⟩, inside, rfl⟩ := List.mem_map.mp listed
  obtain ⟨fileName, text, there, stemmed, whole⟩ := read.sound _ inside
  have written := holds.written file member
  rw [target, ← stem?_eq name.apart stemmed, there] at written
  cases written
  rw [reads file member] at whole
  cases whole
  exact inside

/-- Without other files, nothing but what was written is read. -/
theorem Holds.readFiles (holds : Holds disk after place files) (noNul : holdsNul root = false)
    (located : after.locate current root = .ok place) (names : ∀ file ∈ files, Checkable file.1)
    (reads : ∀ file ∈ files, readText (fileText file.2) = .ok file.2) (distinct : (files.map Prod.fst).Nodup)
    (alone : ¬ HoldsOther after place files) (shortFiles : ShortFiles after current root) :
    ∃ actual, readFiles after current root = .ok actual ∧ actual.Perm files := by
  have ours : ∀ {name content}, after.find (place ++ [name]) = some (.file content) → isWorkflowFile name = true →
      ∃ file ∈ files, name = file.1 ++ fileExtension ∧ content = .text (fileText file.2) := by
    intro name content there isFile
    by_contra other
    refine alone ⟨name, content, there, isFile, ?_⟩
    rintro file member rfl
    have written := holds.written file member
    rw [target, there] at written
    cases written
    exact other ⟨file, member, rfl, rfl⟩
  have parses : ∀ name content, FileAt after current root name content →
      ∃ text tree, content = .text text ∧ Yaml.load text = .ok tree := by
    rintro name content ⟨-, other, reached, there, stem, stands⟩
    rw [located] at reached
    cases reached
    obtain ⟨file, inside, -, rfl⟩ := ours there (isWorkflowFile_of_stem (stem?_eq_some.mpr stands))
    obtain ⟨tree, loaded, -⟩ := readText_ok.mp (reads file inside)
    exact ⟨_, tree, rfl, loaded⟩
  obtain ⟨actual, ended⟩ := readFiles_of_fileAt holds.sound (short_of_locate located) (fits_of_locate located) shortFiles parses
  have read := readFiles_readFrom holds.sound noNul located holds.directory ended
  refine ⟨_, ended, (List.perm_ext_iff_of_nodup read.distinct.of_map distinct.of_map).mpr fun file => ⟨?_, ?_⟩⟩
  · intro member
    obtain ⟨fileName, text, there, stem, whole⟩ := read.sound file member
    obtain ⟨other, inside, rfl, same⟩ := ours there (isWorkflowFile_of_stem stem)
    cases same
    rw [stem?_fileName, if_neg (names other inside).plain.named] at stem
    rw [reads other inside] at whole
    rwa [Prod.ext (Option.some.inj stem).symm (Except.ok.inj whole).symm]
  · exact holds.mem_actual read names reads file

theorem Holds.more (holds : Holds disk after place files) (read : ReadFrom after place actual)
    (names : ∀ file ∈ files, Checkable file.1) (reads : ∀ file ∈ files, readText (fileText file.2) = .ok file.2)
    (distinct : (files.map Prod.fst).Nodup) (other : HoldsOther after place files) :
    ∃ more, more ≠ [] ∧ actual.Perm (files ++ more) := by
  have inside : files ⊆ actual := fun file member => holds.mem_actual read names reads file member
  obtain ⟨front, perm, sublist⟩ := List.subperm_of_subset distinct.of_map inside
  obtain ⟨more, whole⟩ := sublist.exists_perm_append
  refine ⟨more, ?_, whole.trans (perm.append_right more)⟩
  rintro rfl
  rw [List.append_nil] at whole
  obtain ⟨name, content, there, isFile, apart⟩ := other
  obtain ⟨stem, rfl⟩ := isWorkflowFile_iff.mp isFile
  obtain ⟨-, listed⟩ := read.complete _ _ _ there (stem?_fileName stem)
  obtain ⟨file, member, key⟩ := List.mem_map.mp listed
  have ours : file ∈ files := perm.mem_iff.mp (whole.mem_iff.mp member)
  split at key
  · exact (names file ours).apart key
  · exact apart file ours (by rw [key])

section

variable {store : Store} {workflows : List Value} {entries : List (Value × WorkflowRecord)}

/-- A directory that holds the files of the workflows is up to date unless it holds others. -/
theorem check_holds (holds : Holds disk after place files) (noNul : holdsNul root = false)
    (located : after.locate current root = .ok place) (names : ∀ file ∈ files, Checkable file.1)
    (reads : ∀ file ∈ files, readText (fileText file.2) = .ok file.2) (distinct : (files.map Prod.fst).Nodup)
    (rendered : records store workflows = .ok entries) (filed : List.Forall₂ Filed entries files) :
    check store current after workflows root = .ok "" ↔ ¬ HoldsOther disk place files ∧ ShortFiles after current root := by
  rw [check_eq_empty rendered filed, ← holds.other]
  constructor
  · rintro ⟨actual, ended, same⟩
    refine ⟨fun other => ?_, shortFiles_of_readFiles holds.sound noNul located holds.directory ended⟩
    have read := readFiles_readFrom holds.sound noNul located holds.directory ended
    obtain ⟨more, filled, perm⟩ := holds.more read names reads distinct other
    exact comparison_ne_of_more filled perm same
  · rintro ⟨alone, shortFiles⟩
    obtain ⟨actual, ended, perm⟩ := holds.readFiles noNul located names reads distinct alone shortFiles
    exact ⟨actual, ended, (comparison_perm perm.symm distinct).symm⟩

theorem WorkflowRecord.mappingOf_tree {record : WorkflowRecord} {tree : Tree} (whole : record.tree = .ok tree) :
    mappingOf tree = tree := by
  rw [WorkflowRecord.tree] at whole
  split at whole
  · cases whole
    rfl
  · cases whole

theorem Renders.readText {files : List (String × Tree)} (renders : Renders store workflows files)
    (loads : ∀ file ∈ files, Yaml.load (fileText file.2) = .ok file.2) :
    ∀ file ∈ files, readText (fileText file.2) = .ok file.2 := by
  induction renders with
  | nil => simp
  | cons named rendered whole more ih =>
    intro file member
    rcases List.mem_cons.mp member with rfl | later
    · exact readText_ok.mpr ⟨_, loads _ List.mem_cons_self, WorkflowRecord.mappingOf_tree whole⟩
    · exact ih (fun file member => loads file (List.mem_cons_of_mem _ member)) file later

/-- How a run without failures went. -/
structure Succeeded (order : Order) (store : Store) (current : Place) (disk : Disk) (workflows : List Value)
    (root : Path) (cleanup : Bool) (files : List (String × Tree)) (prepared : Disk) : Prop where
  renders : Renders store workflows files
  distinct : (files.map Prod.fst).Nodup
  filed : ∃ entries, records store workflows = .ok entries ∧ List.Forall₂ Filed entries files
  ready : prepare disk current root cleanup = (prepared, .ok ())
  wrote : ∃ results, writeFiles current prepared (order (files.map fun file => (filePath root file.1, fileText file.2))) =
    ((generateIn order store current disk workflows root cleanup).disk, results) ∧ ∀ result ∈ results, result.2 = .ok ()

theorem generateIn_succeeded {valid : String → Prop} {order : Order}
    (named : ∀ workflow ∈ workflows, Named valid store workflow)
    (succeeded : (generateIn order store current disk workflows root cleanup).result = .ok ()) :
    ∃ files prepared, Succeeded order store current disk workflows root cleanup files prepared := by
  cases rendered : records store workflows with
  | error failure =>
    simp only [generateIn, rendered] at succeeded
    cases succeeded
  | ok entries =>
    obtain ⟨files, renders, filed, distinct⟩ := records_render named rendered
    cases ready : prepare disk current root cleanup with
    | mk prepared ended =>
      cases ended with
      | error failure =>
        simp only [generateIn, rendered, ready] at succeeded
        cases succeeded
      | ok done =>
        simp only [generateIn, rendered, ready, texts_filed root filed] at succeeded
        refine ⟨files, prepared, renders, distinct, ⟨entries, rendered, filed⟩, ready, _, ?_, results_of_summary succeeded⟩
        simp only [generateIn, rendered, ready, texts_filed root filed]

/-- Where no directory was prepared nothing was written, or the first file would have been refused, and nothing is read. -/
theorem Succeeded.check_elsewhere {order : Order} {files : List (String × Tree)} {prepared : Disk}
    (run : Succeeded order store current disk workflows root cleanup files prepared) (shuffles : ∀ files, (order files).Perm files)
    (ready : Ready disk prepared current root cleanup) (plain : ∀ file ∈ files, PlainName file.1)
    (elsewhere : ∀ place, prepared.locate current root = .ok place → prepared.find place ≠ some .directory) :
    check store current (generateIn order store current disk workflows root cleanup).disk workflows root = .ok "" := by
  obtain ⟨entries, rendered, filed⟩ := run.filed
  obtain ⟨results, wrote, all⟩ := run.wrote
  have none : files = [] := by
    by_contra filled
    obtain ⟨place, located, directory⟩ := locate_of_results shuffles plain filled (by rwa [wrote])
    exact elsewhere place located directory
  subst none
  have same : (generateIn order store current disk workflows root cleanup).disk = prepared := by
    rw [List.map_nil, (shuffles []).eq_nil, writeFiles] at wrote
    exact (congrArg Prod.fst wrote).symm
  rw [check_eq_empty rendered filed, same]
  exact ⟨[], readFiles_elsewhere ready.short ready.fits elsewhere, rfl⟩

end

end

theorem loads_nameOnly : ∀ files, Renders (nameOnly "ci") [.workflow 0] files →
    ∀ file ∈ files, Yaml.load (fileText file.2) = .ok file.2 := by
  intro files renders file member
  rw [renders_nameOnly renders, List.mem_singleton] at member
  rw [member]
  exact load_ci

/-- After a run of `generate` without failures the check finds every file as it should be, and
reports nothing but workflow files that were there before and were not cleaned up. What was left in the
directory under the name of a workflow file must not have too long a path to be looked at. -/
theorem check_generateIn {order : Order} (shuffles : ∀ files, (order files).Perm files) (store : Store)
    {current : Place} {disk : Disk} (sound : disk.Sound) (here : disk.find current = some .directory)
    {workflows : List Value} (named : ∀ workflow ∈ workflows, Named Checkable store workflow)
    (loads : ∀ files, Renders store workflows files → ∀ file ∈ files, Yaml.load (fileText file.2) = .ok file.2)
    (root : Path) (cleanup : Bool)
    (succeeded : (generateIn order store current disk workflows root cleanup).result = .ok ()) :
    let after := (generateIn order store current disk workflows root cleanup).disk
    ∃ files, Renders store workflows files ∧
      (cleanup = true → check store current after workflows root = .ok "") ∧
      (cleanup = false → after.locate current root = .ok (placeOf current root) ∧
        (check store current after workflows root = .ok "" ↔
          ¬ HoldsOther disk (placeOf current root) files ∧ ShortFiles after current root)) := by
  intro after
  obtain ⟨files, prepared, run⟩ := generateIn_succeeded named succeeded
  obtain ⟨entries, rendered, filed⟩ := run.filed
  obtain ⟨results, wrote, all⟩ := run.wrote
  have ready := prepare_ready sound here run.ready
  have names : ∀ file ∈ files, Checkable file.1 := run.renders.names named
  have reads := run.renders.readText (loads files run.renders)
  have plain : ∀ file ∈ files, PlainName file.1 := fun file member => (names file member).plain
  have holds : ∀ {place}, prepared.locate current root = .ok place → prepared.find place = some .directory →
      Holds prepared after place files ∧ after.locate current root = .ok place ∧
        ∀ file ∈ files, Short (root.child (file.1 ++ fileExtension)) := fun located directory =>
    writeFiles_holds shuffles ready.sound ready.noNul located directory plain run.distinct wrote all
  refine ⟨files, run.renders, ?_, ?_⟩
  · rintro rfl
    by_cases there : ∃ place, prepared.locate current root = .ok place ∧ prepared.find place = some .directory
    · obtain ⟨place, located, directory⟩ := there
      obtain ⟨held, reached, short⟩ := holds located directory
      have empty : ∀ name, prepared.find (place ++ [name]) = none := fun name =>
        ready.empty rfl place located _ ⟨List.prefix_append _ _, by simp⟩
      refine (check_holds held ready.noNul reached names reads run.distinct rendered filed).mpr ⟨?_, ?_⟩
      · rintro ⟨name, content, there, -⟩
        rw [empty] at there
        cases there
      · exact held.shortFiles reached short fun name found => absurd (empty name) found
    · exact run.check_elsewhere shuffles ready plain fun place located directory => there ⟨place, located, directory⟩
  · rintro rfl
    obtain ⟨place, arrived⟩ := ready.there rfl
    obtain rfl := locate_climb arrived.located
    obtain ⟨held, reached, -⟩ := holds arrived.located arrived.directory
    refine ⟨reached, (check_holds held ready.noNul reached names reads run.distinct rendered filed).trans ?_⟩
    simp only [HoldsOther, arrived.files]

theorem check_generateIn_crowded :
    check (nameOnly "ci") []
      (generateIn List.reverse (nameOnly "ci") [] crowded [.workflow 0] ⟨.relative, ["out"]⟩ true).disk
      [.workflow 0] ⟨.relative, ["out"]⟩ = .ok "" := by
  have valid : Checkable "ci" := by
    refine checkable_of_simple (by decide) fun c member => ?_
    have letter : c = 'c' ∨ c = 'i' := by simpa using member
    rcases letter with rfl | rfl
    · decide
    · decide
  obtain ⟨done, succeeded⟩ : ∃ done, (generateIn List.reverse (nameOnly "ci") [] crowded [.workflow 0] ⟨.relative, ["out"]⟩
      true).result = .ok done := exists_ok (by decide)
  obtain ⟨files, -, upToDate, -⟩ := check_generateIn List.reverse_perm (nameOnly "ci") crowded_sound rfl
    (nameOnly_named valid) loads_nameOnly ⟨.relative, ["out"]⟩ true succeeded
  exact upToDate rfl

/-- The names of a path that goes down into a directory and up again so many times before it stays there. -/
def turns : Nat → List String
  | 0 => ["out"]
  | more + 1 => "out" :: ".." :: turns more

def winding (more : Nat) : Path := ⟨.relative, turns more⟩

theorem turns_append (more : Nat) (rest : List String) : ∃ tail, turns more ++ rest = "out" :: tail := by
  cases more with
  | zero => exact ⟨rest, rfl⟩
  | succ more => exact ⟨_, rfl⟩

theorem utf8ByteSize_turns (more : Nat) (rest : List String) :
    ("/".intercalate (turns more ++ rest)).utf8ByteSize = 7 * more + ("/".intercalate ("out" :: rest)).utf8ByteSize := by
  induction more with
  | zero => exact (Nat.zero_add _).symm
  | succ more ih =>
    obtain ⟨tail, first⟩ := turns_append more rest
    rw [turns, List.cons_append, List.cons_append, String.intercalate_cons_cons, String.utf8ByteSize_append, first,
      String.intercalate_cons_cons, String.utf8ByteSize_append, String.utf8ByteSize_append, ← first, ih]
    show 3 + 1 + (2 + 1 + _) = _
    omega

theorem utf8ByteSize_winding (more : Nat) : (winding more).text.utf8ByteSize = 7 * more + 3 := by
  have whole := utf8ByteSize_turns more []
  rw [List.append_nil, String.intercalate_singleton, show "out".utf8ByteSize = 3 by decide] at whole
  rw [winding, utf8ByteSize_text (by omega), whole]

theorem utf8ByteSize_winding_child (more : Nat) (name : String) :
    ((winding more).child name).text.utf8ByteSize = 7 * more + 4 + name.utf8ByteSize := by
  have whole := utf8ByteSize_turns more [name]
  rw [String.intercalate_cons_cons, String.intercalate_singleton, String.utf8ByteSize_append, String.utf8ByteSize_append,
    show "out".utf8ByteSize = 3 by decide, show "/".utf8ByteSize = 1 by decide] at whole
  have written : (Path.text ⟨.relative, turns more ++ [name]⟩).utf8ByteSize = _ := utf8ByteSize_text (by omega)
  rw [Path.child, winding, written, whole]
  omega

theorem follow_turns {disk : Disk} (directory : disk.find ["out"] = some .directory) (more : Nat) :
    disk.follow [] (turns more) = .ok ["out"] := by
  induction more with
  | zero => rfl
  | succ more ih =>
    have top : disk.find [] = some .directory := find_nil disk
    have fits : ∀ part ∈ ["out", ".."], ¬ longestName < part.utf8ByteSize := by decide
    rw [turns, follow, top]
    dsimp only
    rw [if_neg (fits _ (by simp)), if_neg (by decide), follow, List.nil_append, directory]
    dsimp only
    rw [if_neg (fits _ (by simp)), if_pos (by decide)]
    exact ih

theorem reach_winding {disk : Disk} (directory : disk.find ["out"] = some .directory) (more : Nat) :
    disk.reach [] (winding more) = .ok ["out"] := by
  obtain ⟨tail, first⟩ := turns_append more []
  rw [List.append_nil] at first
  rw [reach, start, winding, first, List.takeWhile_cons_of_neg (by decide), List.dropWhile_cons_of_neg (by decide), ← first]
  exact follow_turns directory more

theorem holdsNul_winding (more : Nat) : holdsNul (winding more) = false := by
  rw [holdsNul, winding]
  induction more with
  | zero => decide
  | succ more ih =>
    rw [turns, List.any_cons, List.any_cons, ih]
    decide

/-- A directory that holds nothing but another one, which has a long name. -/
def nested : Disk := ⟨[(["out"], .directory), (["out", letters 7 ++ fileExtension], .directory)]⟩

theorem nested_sound : nested.Sound := sound_of_entries (by simp [nested]) (by simp [nested]) (by simp [nested, find])

/-- What has the name of a workflow file stays in the directory and is not looked at if its path is too long. -/
theorem check_nested {root : Path} (noNul : holdsNul root = false)
    (reached : ∀ {disk : Disk}, disk.find ["out"] = some .directory → disk.reach [] root = .ok ["out"])
    (short : Short root) (shortFile : Short (root.child ("ci" ++ fileExtension)))
    (longChild : ¬ Short (root.child (letters 7 ++ fileExtension))) :
    let outcome := generateIn id (nameOnly "ci") [] nested [.workflow 0] root false
    outcome.result = .ok () ∧ check (nameOnly "ci") [] outcome.disk [.workflow 0] root ≠ .ok "" := by
  intro outcome
  have apart : letters 7 ++ fileExtension ≠ "ci" ++ fileExtension := by
    intro same
    have sizes := congrArg String.utf8ByteSize same
    rw [String.utf8ByteSize_append, utf8ByteSize_letters] at sizes
    revert sizes
    decide
  have usable : Usable nested [] root false ["out"] [] :=
    { leads := ⟨⟨root.parts, by simp, reached rfl⟩, rfl, by simp [Straight]⟩
      stays := by simp
      children := by simp
      short := short
      fits := by simp [Fits]
      noNul := noNul }
  have free : ¬ Blocked nested ["out"] [] := by
    rintro ⟨front, leads, content, file⟩
    rw [List.prefix_nil.mp leads] at file
    cases file
  have valid : PlainName "ci" := ⟨by decide, by decide, by decide⟩
  have shuffles : ∀ files, (id files : List (Path × String)).Perm files := fun _ => .refl _
  obtain ⟨files, renders, published⟩ := generateIn_published shuffles nested_sound
    (nameOnly_named valid) (records_nameOnly "ci") usable free
  obtain rfl := renders_nameOnly renders
  have accepted : ¬ Refused nested (["out"] ++ []) root false "ci" := by
    rintro ((long | long) | ⟨-, taken⟩)
    · revert long
      decide
    · rw [filePath_eq root valid] at long
      exact long shortFile
    · have listed := (find_eq_some nested_sound (by simp [target])).mp taken
      simp [nested, target, apart.symm] at listed
  refine ⟨published.succeeded.mpr ?_, ?_⟩
  · rw [refused, List.filter_eq_nil_iff]
    intro file member
    rw [List.mem_singleton.mp member]
    simpa using accepted
  · intro empty
    obtain ⟨files, -, filed, -⟩ := records_render (nameOnly_named valid) (records_nameOnly "ci")
    obtain ⟨actual, read, -⟩ := (check_eq_empty (records_nameOnly "ci") filed).mp empty
    have directory := published.directory
    have located := (locate_of_short outcome.disk [] short).trans (reached directory)
    have shortFiles := shortFiles_of_readFiles published.sound noNul located directory read
    have inside : nested.find ["out", letters 7 ++ fileExtension] = some .directory :=
      (find_eq_some nested_sound (by simp)).mpr (by simp [nested])
    have kept := published.kept ["out", letters 7 ++ fileExtension] (by simp) (by simpa [target] using fun _ => apart)
      (by simp [inside])
    refine longChild (shortFiles _ located _ ?_ ⟨letters 7, .inl ⟨(plainName_letters 7).named, rfl⟩⟩)
    rw [List.singleton_append, kept, inside]
    simp

/-- No workflow file is in the directory, and still it is not up to date after a run without failures: the path of
what has the name of one is too long. -/
theorem check_fails_of_long_path :
    let outcome := generateIn id (nameOnly "ci") [] nested [.workflow 0] (winding 570) false
    (∀ files, Renders (nameOnly "ci") [.workflow 0] files → ∀ file ∈ files, Yaml.load (fileText file.2) = .ok file.2) ∧
      nested.locate [] (winding 570) = .ok ["out"] ∧ (∀ files, ¬ HoldsOther nested ["out"] files) ∧
      outcome.result = .ok () ∧ check (nameOnly "ci") [] outcome.disk [.workflow 0] (winding 570) ≠ .ok "" := by
  have short : Short (winding 570) := by
    rw [Short, utf8ByteSize_winding]
    decide
  have shortFile : Short ((winding 570).child ("ci" ++ fileExtension)) := by
    have named : ("ci" ++ fileExtension).utf8ByteSize = 6 := by decide
    rw [Short, utf8ByteSize_winding_child, named]
    decide
  have longChild : ¬ Short ((winding 570).child (letters 7 ++ fileExtension)) := by
    have named : fileExtension.utf8ByteSize = 4 := by decide
    rw [not_short, utf8ByteSize_winding_child, String.utf8ByteSize_append, utf8ByteSize_letters, named]
    decide
  refine ⟨loads_nameOnly, (locate_of_short nested [] short).trans (reach_winding rfl 570), ?_,
    check_nested (holdsNul_winding 570) (fun directory => reach_winding directory 570) short shortFile longChild⟩
  rintro files ⟨name, content, there, -⟩
  have listed := (find_eq_some nested_sound (by simp)).mp there
  simp [nested] at listed

end WorkflowCompiler.Publish
