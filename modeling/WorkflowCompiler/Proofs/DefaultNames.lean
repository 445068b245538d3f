import WorkflowCompiler.Proofs.BuildRuns
import WorkflowCompiler.Proofs.FilesApart
import WorkflowCompiler.Proofs.KebabCase

/-! Whether workflows that are filed under their names are read back under those file names. What is read back of
a file name is the name again unless it is empty, and it is empty where kebab case leaves nothing of the name. -/

namespace WorkflowCompiler.Build

/-- A workflow that is made under a text, and no file name, is filed under the text in kebab case. -/
theorem run_makeWorkflow (name : String) (workspace : Workspace) :
    (makeWorkflow (.text name) .null).run workspace =
      if name = "" then (.error (.ofCause .namelessWorkflow), workspace)
      else (.ok workspace.store.workflows.length, { workspace with store :=
        { workspace.store with workflows := workspace.store.workflows ++
          [{ name := .text name, fileName := .text (Text.kebab name) }] } }) := by
  by_cases empty : name = ""
  · subst empty
    rfl
  · have truth : Value.truth (.text name) = .ok true := by simp [Value.truth, empty]
    rw [makeWorkflow, truth, if_neg empty]
    rfl

end WorkflowCompiler.Build

namespace WorkflowCompiler.Publish
open Disk

/-- A workflow that was made under a name and no file name, and that still has both names as they were then. -/
structure MadeAs (store : Store) (name : String) (workflow : Value) : Prop where
  made : ∃ identity before after, workflow = .workflow identity ∧
    (Build.makeWorkflow (.text name) .null).run before = (.ok identity, after) ∧
    (store.workflow identity).name = (after.store.workflow identity).name ∧
    (store.workflow identity).fileName = (after.store.workflow identity).fileName

/-- The name that a file is read under. -/
def keyOf (name : String) : String := if name = "" then fileExtension else name

/-- What is read of a file that was written. -/
structure ReadBack (file found : String × Tree) : Prop where
  key : found.1 = keyOf file.1
  tree : readText (fileText file.2) = .ok found.2

section

variable {disk after : Disk} {current place : Place} {root : Path} {name text : String} {files : List (String × Tree)}
  {actual : List (String × Tree)}

theorem keyOf_eq_self : keyOf name = name ↔ name ≠ "" := by
  rw [keyOf]
  split
  next empty =>
    subst empty
    decide
  next filled => exact iff_of_true rfl filled

theorem keyOf_inj {other : String} (apart : name ≠ fileExtension) (otherApart : other ≠ fileExtension) (same : keyOf name = keyOf other) :
    name = other := by
  rw [keyOf, keyOf] at same
  split at same
  next empty =>
    split at same
    next otherEmpty => rw [empty, otherEmpty]
    next => exact absurd same.symm otherApart
  next =>
    split at same
    next => exact absurd same apart
    next => exact same

/-- Writing files keeps a disk sound, and its directories. -/
theorem writeFiles_sound (current : Place) {files : List (Path × String)} (sound : disk.Sound)
    (flat : ∀ file ∈ files, ∃ name, '/' ∉ name.toList ∧ file.1 = filePath root name) :
    (writeFiles current disk files).1.Sound ∧
      ∀ place, disk.find place = some .directory → (writeFiles current disk files).1.find place = some .directory := by
  induction files generalizing disk with
  | nil => exact ⟨sound, fun place => id⟩
  | cons file files ih =>
    obtain ⟨⟨name, plain, path⟩, later⟩ := List.forall_mem_cons.mp flat
    rw [writeFiles]
    split
    next changed wrote =>
      rw [path] at wrote
      obtain ⟨-, directory, free, rfl⟩ := write_flat plain wrote
      obtain ⟨stays, kept⟩ := ih (sound.put directory free) later
      refine ⟨stays, fun place there => kept place ?_⟩
      rw [find_put_of_ne, there]
      rintro rfl
      exact free there
    next => exact ih sound later

/-- Files that could all be written are in the directory, and what else there was. -/
theorem holds_of_flat {listing : List (Path × String)} (lists : listing.Perm (files.map fun file => (filePath root file.1, fileText file.2)))
    (sound : disk.Sound) (flat : ∀ file ∈ files, '/' ∉ file.1.toList) (distinct : (files.map Prod.fst).Nodup)
    (located : disk.locate current root = .ok place) (directory : disk.find place = some .directory)
    (all : ∀ result ∈ (writeFiles current disk listing).2, result.2 = .ok ()) :
    Holds disk (writeFiles current disk listing).1 place files ∧ (writeFiles current disk listing).1.locate current root = .ok place := by
  obtain rfl := locate_climb located
  have placed : ∀ file ∈ files, placeOf current (filePath root file.1) = target (placeOf current root) file.1 :=
    fun file member => placeOf_target (flat file member) current root
  have ours : ∀ writing ∈ listing, ∃ file ∈ files, writing = (filePath root file.1, fileText file.2) := by
    intro writing member
    obtain ⟨file, inside, same⟩ := List.mem_map.mp (lists.mem_iff.mp member)
    exact ⟨file, inside, same.symm⟩
  have places : (listing.map fun writing => placeOf current writing.1).Nodup := by
    refine (lists.map _).nodup_iff.mpr ?_
    have targets : (files.map fun file => (filePath root file.1, fileText file.2)).map (fun writing => placeOf current writing.1) =
        (files.map Prod.fst).map (target (placeOf current root)) := by
      rw [List.map_map, List.map_map]
      exact List.map_congr_left placed
    rw [targets]
    exact distinct.map fun first second same => target_inj.mp same
  have direct : ∀ writing ∈ listing, ∃ name, '/' ∉ name.toList ∧ writing.1 = filePath root name := by
    intro writing member
    obtain ⟨file, inside, rfl⟩ := ours writing member
    exact ⟨file.1, flat file inside, rfl⟩
  obtain ⟨stays, kept⟩ := writeFiles_sound current sound direct
  have reached : (writeFiles current disk listing).1.locate current root = .ok (placeOf current root) := by
    have short := short_of_locate located
    rw [locate_of_short _ current short] at located ⊢
    exact follow_mono kept located
  refine ⟨⟨stays, kept _ directory, ?_, ?_⟩, reached⟩
  · intro file member
    have listed : (filePath root file.1, fileText file.2) ∈ listing := lists.mem_iff.mpr (List.mem_map.mpr ⟨file, member, rfl⟩)
    have found := writeFiles_written places listed (ok_mem_writeFiles all listed)
    rwa [placed file member] at found
  · intro other apart
    refine writeFiles_kept fun writing member same => ?_
    obtain ⟨file, inside, rfl⟩ := ours writing member
    rw [placed file inside] at same
    exact apart file inside (by simpa [target] using same)

/-- A directory that holds the given files and no others is read as those files, if they can be read. -/
theorem Holds.readBack {before : Disk} (holds : Holds before after place files) (noNul : holdsNul root = false)
    (located : after.locate current root = .ok place) (apart : ∀ file ∈ files, file.1 ≠ fileExtension)
    (alone : ¬ HoldsOther after place files) (read : Publish.readFiles after current root = .ok actual) :
    (actual.map Prod.fst).Nodup ∧ ∀ found, found ∈ actual ↔ ∃ file ∈ files, ReadBack file found := by
  have whole := readFiles_readFrom holds.sound noNul located holds.directory read
  have ours : ∀ found ∈ actual, ∃ file ∈ files, ReadBack file found := by
    intro found member
    obtain ⟨fileName, text, there, stem, tree⟩ := whole.sound found member
    by_contra other
    refine alone ⟨fileName, .text text, there, isWorkflowFile_of_stem stem, ?_⟩
    rintro file inside rfl
    have written := holds.written file inside
    rw [target, there] at written
    cases written
    rw [stem?_fileName] at stem
    exact other ⟨file, inside, (Option.some.inj stem).symm, tree⟩
  refine ⟨whole.distinct, fun found => ⟨ours found, ?_⟩⟩
  rintro ⟨file, inside, key, tree⟩
  obtain ⟨-, listed⟩ := whole.complete _ _ _ (holds.written file inside) (stem?_fileName file.1)
  obtain ⟨⟨other, held⟩, member, same⟩ := List.mem_map.mp listed
  obtain ⟨own, ownInside, ownKey, ownTree⟩ := ours _ member
  have sameKey : keyOf own.1 = keyOf file.1 := ownKey.symm.trans same
  have sameName := keyOf_inj (apart own ownInside) (apart file inside) sameKey
  have first := holds.written own ownInside
  rw [sameName, holds.written file inside] at first
  have texts : fileText file.2 = fileText own.2 := by simpa using first
  rw [texts, ownTree] at tree
  cases tree
  obtain ⟨foundKey, foundTree⟩ := found
  cases key
  cases same
  exact member

/-- The files of such a directory can be read if each of them can. -/
theorem Holds.readable {before : Disk} (holds : Holds before after place files) (noNul : holdsNul root = false)
    (located : after.locate current root = .ok place) (alone : ¬ HoldsOther after place files) :
    (∃ actual, Publish.readFiles after current root = .ok actual) ↔
      ShortFiles after current root ∧ ∀ file ∈ files, ∃ tree, Yaml.load (fileText file.2) = .ok tree := by
  constructor
  · rintro ⟨actual, read⟩
    refine ⟨shortFiles_of_readFiles holds.sound noNul located holds.directory read, fun file member => ?_⟩
    have whole := readFiles_readFrom holds.sound noNul located holds.directory read
    obtain ⟨⟨tree, content⟩, -⟩ := whole.complete _ _ _ (holds.written file member) (stem?_fileName file.1)
    obtain ⟨text, same, textRead⟩ := readContent_ok.mp content
    cases same
    obtain ⟨loaded, found, -⟩ := readText_ok.mp textRead
    exact ⟨loaded, found⟩
  · rintro ⟨shortFiles, loads⟩
    refine readFiles_of_fileAt holds.sound (short_of_locate located) (fits_of_locate located) shortFiles ?_
    rintro fileName content ⟨-, other, reached, there, stem, stands⟩
    rw [located] at reached
    cases reached
    by_contra broken
    refine alone ⟨fileName, content, there, isWorkflowFile_of_stem (stem?_eq_some.mpr stands), ?_⟩
    rintro file member rfl
    have written := holds.written file member
    rw [target, there] at written
    cases written
    obtain ⟨tree, loaded⟩ := loads file member
    exact broken ⟨_, tree, rfl, loaded⟩

end

section

variable {order : Order} {store : Store} {current : Place} {disk : Disk} {workflows : List Value} {names : List String} {root : Path}
  {cleanup : Bool}

theorem MadeAs.known {name : String} {workflow : Value} (made : MadeAs store name workflow) :
    ∃ identity, workflow = .workflow identity ∧ (store.workflow identity).name = .text name ∧
      (store.workflow identity).fileName = .text (Text.kebab name) := by
  obtain ⟨identity, before, after, rfl, ran, named, filed⟩ := made.made
  rw [Build.run_makeWorkflow] at ran
  split at ran
  · cases ran
  · cases ran
    refine ⟨_, rfl, ?_, ?_⟩
    · rw [named]
      simp [Store.workflow]
    · rw [filed]
      simp [Store.workflow]

theorem named_of_made (made : List.Forall₂ (MadeAs store) names workflows) :
    ∀ workflow ∈ workflows, Named (fun fileName => ∃ name, fileName = Text.kebab name) store workflow := by
  induction made with
  | nil => simp
  | cons first _ ih =>
    obtain ⟨identity, rfl, named, filed⟩ := first.known
    exact List.forall_mem_cons.mpr ⟨⟨identity, _, _, rfl, named, filed, _, rfl⟩, ih⟩

theorem files_of_made {files : List (String × Tree)} (renders : Renders store workflows files)
    (made : List.Forall₂ (MadeAs store) names workflows) : files.map Prod.fst = names.map Text.kebab := by
  induction made generalizing files with
  | nil =>
    cases renders
    rfl
  | cons first _ ih =>
    obtain ⟨identity, rfl, -, filed⟩ := first.known
    cases renders with
    | cons named rendered whole more =>
      rw [filed] at named
      cases named
      rw [List.map_cons, List.map_cons, ih more]

theorem kebab_flat (name : String) : '/' ∉ (Text.kebab name).toList := by
  intro member
  have simple := Text.mem_kebab member
  revert simple
  decide

theorem kebab_ne_extension (name : String) : Text.kebab name ≠ fileExtension := by
  intro same
  have dot : '.' ∈ (Text.kebab name).toList := by
    rw [same]
    decide
  have simple := Text.mem_kebab dot
  revert simple
  decide

/-- A file is found under its own name unless that is empty. -/
theorem mem_keys {files actual : List (String × Tree)}
    (found : ∀ found, found ∈ actual ↔ ∃ file ∈ files, ReadBack file found)
    (loads : ∀ file ∈ files, ∃ tree, Yaml.load (fileText file.2) = .ok tree) {file : String × Tree} (member : file ∈ files) :
    file.1 ∈ actual.map Prod.fst ↔ file.1 ≠ "" := by
  constructor
  · intro listed empty
    obtain ⟨other, inside, same⟩ := List.mem_map.mp listed
    obtain ⟨own, there, key, -⟩ := (found other).mp inside
    rw [key, empty, keyOf] at same
    split at same
    · exact absurd same (by decide)
    next filled => exact filled same
  · intro named
    obtain ⟨tree, loaded⟩ := loads file member
    refine List.mem_map.mpr ⟨(file.1, mappingOf tree), (found _).mpr ⟨file, member, ?_, readText_ok.mpr ⟨tree, loaded, rfl⟩⟩, rfl⟩
    exact (keyOf_eq_self.mpr named).symm

/-- Where a run without failures leaves its files, if the directory held no workflow files: they are in the directory
with no others, or there are none. -/
theorem held_of_made (shuffles : ∀ files, (order files).Perm files) (sound : disk.Sound)
    (here : disk.find current = some .directory) (made : List.Forall₂ (MadeAs store) names workflows)
    (bare : cleanup = false → ¬ HoldsOther disk (placeOf current root) [])
    (succeeded : (generateIn order store current disk workflows root cleanup).result = .ok ()) :
    let after := (generateIn order store current disk workflows root cleanup).disk
    ∃ files, Renders store workflows files ∧ holdsNul root = false ∧
      ((∃ prepared, Holds prepared after (placeOf current root) files ∧ after.locate current root = .ok (placeOf current root) ∧
        ¬ HoldsOther after (placeOf current root) files) ∨
        files = [] ∧ readFiles after current root = .ok [] ∧ ShortFiles after current root) := by
  intro after
  obtain ⟨files, prepared, run⟩ := generateIn_succeeded (named_of_made made) succeeded
  obtain ⟨results, wrote, all⟩ := run.wrote
  have ready := prepare_ready sound here run.ready
  have flat : ∀ file ∈ files, '/' ∉ file.1.toList := by
    intro file member
    obtain ⟨name, same⟩ := run.renders.names (named_of_made made) file member
    rw [same]
    exact kebab_flat name
  refine ⟨files, run.renders, ready.noNul, ?_⟩
  by_cases there : prepared.locate current root = .ok (placeOf current root) ∧ prepared.find (placeOf current root) = some .directory
  · obtain ⟨located, directory⟩ := there
    have done := holds_of_flat (shuffles _) ready.sound flat run.distinct located directory (by rwa [wrote])
    rw [wrote] at done
    obtain ⟨holds, reached⟩ := done
    refine .inl ⟨prepared, holds, reached, ?_⟩
    rw [holds.other]
    rintro ⟨name, content, found, isFile, -⟩
    cases cleanup with
    | true =>
      rw [ready.empty rfl _ located _ ⟨List.prefix_append _ _, by simp⟩] at found
      cases found
    | false =>
      have before := (prepare_file disk current root false (placeOf current root ++ [name]) content).1
      rw [run.ready] at before
      exact bare rfl ⟨name, content, before found, isFile, by simp⟩
  · -- Nothing was written, or the first file would have been refused.
    have none : files = [] := by
      by_contra filled
      exact there (located_of_writeFiles shuffles flat filled (by rwa [wrote]))
    subst none
    have same : after = prepared := by
      rw [List.map_nil, (shuffles []).eq_nil, writeFiles] at wrote
      exact (congrArg Prod.fst wrote).symm
    have elsewhere : ∀ place, prepared.locate current root = .ok place → prepared.find place ≠ some .directory := by
      intro place located directory
      obtain rfl := locate_climb located
      exact there ⟨located, directory⟩
    rw [same]
    refine .inr ⟨rfl, readFiles_elsewhere ready.short ready.fits elsewhere, fun place located name found => ?_⟩
    exact absurd (ready.sound.housed place name found) (elsewhere place located)

/-- Workflows without file names of their own, written into a directory that holds no workflow files. They can
be read back if all of the files can be loaded, and if nothing that has the name of one and was left there has
too long a path, each under its own file name if there is a letter or a digit in
the name that it was made under. A name without any leaves an empty file name, and the file is read under its
extension instead. -/
theorem default_names_read_back (shuffles : ∀ files, (order files).Perm files) (store : Store) {current : Place} {disk : Disk}
    (sound : disk.Sound) (here : disk.find current = some .directory) {names : List String} {workflows : List Value}
    (made : List.Forall₂ (MadeAs store) names workflows) (root : Path) (cleanup : Bool)
    (bare : cleanup = false → ¬ HoldsOther disk (placeOf current root) [])
    (succeeded : (generateIn order store current disk workflows root cleanup).result = .ok ()) :
    let after := (generateIn order store current disk workflows root cleanup).disk
    ∃ files, Renders store workflows files ∧ files.map Prod.fst = names.map Text.kebab ∧
      ((∃ actual, readFiles after current root = .ok actual) ↔
        ShortFiles after current root ∧ ∀ file ∈ files, ∃ tree, Yaml.load (fileText file.2) = .ok tree) ∧
      ∀ actual, readFiles after current root = .ok actual →
        (actual.map Prod.fst).Nodup ∧ (∀ found, found ∈ actual ↔ ∃ file ∈ files, ReadBack file found) ∧
        ∀ name ∈ names, Text.kebab name ∈ actual.map Prod.fst ↔ ∃ c ∈ name.toList, c.isAlphanum = true := by
  intro after
  obtain ⟨files, renders, noNul, held⟩ := held_of_made shuffles sound here made bare succeeded
  have keys := files_of_made renders made
  refine ⟨files, renders, keys, ?_⟩
  rcases held with ⟨prepared, holds, located, alone⟩ | ⟨rfl, nothing, short⟩
  · have apart : ∀ file ∈ files, file.1 ≠ fileExtension := by
      intro file member
      obtain ⟨name, same⟩ := renders.names (named_of_made made) file member
      rw [same]
      exact kebab_ne_extension name
    have readable := holds.readable noNul located alone
    refine ⟨readable, fun actual read => ?_⟩
    obtain ⟨distinct, found⟩ := holds.readBack noNul located apart alone read
    refine ⟨distinct, found, fun name member => ?_⟩
    obtain ⟨file, inside, same⟩ := List.mem_map.mp (keys ▸ List.mem_map_of_mem member)
    rw [← same, mem_keys found (readable.mp ⟨actual, read⟩).2 inside, same, Ne, Text.kebab_eq_empty]
    simp
  · obtain rfl : names = [] := List.map_eq_nil_iff.mp keys.symm
    refine ⟨⟨fun _ => ⟨short, by simp⟩, fun _ => ⟨[], nothing⟩⟩, fun actual read => ?_⟩
    obtain rfl : [] = actual := Except.ok.inj (nothing.symm.trans read)
    simp

end

/-- Files that are written in the order in which they are listed. -/
theorem id_shuffles (files : List (Path × String)) : (id files).Perm files := .refl files

/-- A workflow that was made under a name, with no more to it. -/
def madeUnder (name : String) : Store :=
  { workflows := [{ name := .text name, fileName := .text (Text.kebab name) }] }

theorem made_madeUnder {name : String} (filled : name ≠ "") : List.Forall₂ (MadeAs (madeUnder name)) [name] [.workflow 0] := by
  have ran := Build.run_makeWorkflow name {}
  rw [if_neg filled] at ran
  exact .cons ⟨0, _, _, rfl, ran, rfl, rfl⟩ .nil

theorem renders_madeUnder {name : String} {files : List (String × Tree)} (renders : Renders (madeUnder name) [.workflow 0] files) :
    files = [(Text.kebab name, Tree.record [("name", .text name)])] := by
  cases renders with
  | cons named rendered whole more =>
    cases more
    cases named
    cases rendered
    cases whole
    rfl

/-- On an empty disk no workflow files are in the way. -/
theorem bare_empty : ¬ HoldsOther {} (placeOf [] ⟨.relative, ["out"]⟩) [] := by
  rintro ⟨name, text, found, -⟩
  cases found

/-- A run for one workflow in a directory that is made for its file. -/
def madeRun (name : String) : Outcome := generate (madeUnder name) [] {} [.workflow 0] ⟨.relative, ["out"]⟩ false

/-- Such a run leaves nothing with a long path beside its file. -/
theorem shortFiles_madeRun {name file : String} (places : (madeRun name).disk.entries.map Prod.fst = [["out"], ["out", file]])
    (short : Short (Path.child ⟨.relative, ["out"]⟩ file)) : ShortFiles (madeRun name).disk [] ⟨.relative, ["out"]⟩ := by
  rintro place located other found -
  obtain rfl : place = ["out"] := locate_climb located
  have listed : ["out"] ++ [other] ∈ (madeRun name).disk.entries.map Prod.fst := mem_of_find (by simp) found
  rw [places] at listed
  obtain rfl : other = file := by simpa using listed
  exact short

theorem madeRun_ci : (madeRun "CI").result.isOk = true ∧ (madeRun "CI").disk.entries.map Prod.fst = [["out"], ["out", "ci.yml"]] := by
  decide +kernel

/-- A name with letters. -/
theorem default_names_read_back_ci : ∃ actual, readFiles (madeRun "CI").disk [] ⟨.relative, ["out"]⟩ = .ok actual ∧
    Text.kebab "CI" ∈ actual.map Prod.fst := by
  obtain ⟨done, succeeded⟩ := exists_ok madeRun_ci.1
  obtain ⟨files, renders, -, readable, found⟩ := default_names_read_back id_shuffles (madeUnder "CI") sound_empty rfl
    (made_madeUnder (by decide)) ⟨.relative, ["out"]⟩ false (fun _ => bare_empty) succeeded
  have loads : ∀ file ∈ files, ∃ tree, Yaml.load (fileText file.2) = .ok tree := by
    intro file member
    rw [renders_madeUnder renders, List.mem_singleton] at member
    rw [member]
    exact ⟨_, load_ci⟩
  obtain ⟨actual, read⟩ := readable.mpr ⟨shortFiles_madeRun madeRun_ci.2 (by decide), loads⟩
  obtain ⟨-, -, names⟩ := found actual read
  exact ⟨actual, read, (names "CI" (by simp)).mpr ⟨'C', by decide, by decide⟩⟩

theorem load_unlettered : Yaml.load (fileText (Tree.record [("name", .text "???")])) = .ok (Tree.record [("name", .text "???")]) :=
  load_nameOnly (by decide)

theorem madeRun_unlettered :
    (madeRun "???").result.isOk = true ∧ (madeRun "???").disk.entries.map Prod.fst = [["out"], ["out", ".yml"]] := by
  decide +kernel

/-- A name with no letter and no digit: the file is written, and it is not read under the file name. -/
theorem unlettered_name_lost : ((madeUnder "???").workflow 0).fileName = .text "" ∧ (madeRun "???").result = .ok () ∧
    ∃ actual, readFiles (madeRun "???").disk [] ⟨.relative, ["out"]⟩ = .ok actual ∧ "" ∉ actual.map Prod.fst ∧
      (fileExtension, Tree.record [("name", .text "???")]) ∈ actual := by
  have empty : Text.kebab "???" = "" := Text.kebab_eq_empty.mpr (by simp)
  obtain ⟨done, succeeded⟩ := exists_ok madeRun_unlettered.1
  obtain ⟨files, renders, noNul, held⟩ := held_of_made id_shuffles sound_empty rfl
    (made_madeUnder (by decide)) (fun _ => bare_empty) succeeded
  obtain rfl : files = [("", Tree.record [("name", .text "???")])] := by rw [renders_madeUnder renders, empty]
  refine ⟨congrArg Value.text empty, succeeded, ?_⟩
  rcases held with ⟨prepared, holds, located, alone⟩ | ⟨none, -⟩
  · have loads : ∀ file ∈ [("", Tree.record [("name", .text "???")])], ∃ tree, Yaml.load (fileText file.2) = .ok tree := by
      simp [load_unlettered]
    obtain ⟨actual, read⟩ := (holds.readable noNul located alone).mpr
      ⟨shortFiles_madeRun madeRun_unlettered.2 (by decide), loads⟩
    obtain ⟨-, found⟩ := holds.readBack noNul located (by simp [fileExtension]) alone read
    refine ⟨actual, read, ?_, (found _).mpr ⟨_, List.mem_cons_self, rfl, readText_ok.mpr ⟨_, load_unlettered, rfl⟩⟩⟩
    intro member
    exact (mem_keys found loads List.mem_cons_self).mp member rfl
  · cases none

end WorkflowCompiler.Publish
