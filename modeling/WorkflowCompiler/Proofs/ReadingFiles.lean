import WorkflowCompiler.Proofs.NamedEntries
import WorkflowCompiler.Proofs.ReachingRoot
import WorkflowCompiler.Proofs.RenderedFiles
import WorkflowCompiler.Proofs.WrittenFiles

/-! What is read from a directory: every workflow file in it that is a regular one, under its name
without the extension. -/

namespace WorkflowCompiler.Text

theorem plainBreaks_plainBreaks (text : List Char) : plainBreaks (plainBreaks text) = plainBreaks text := by
  fun_induction plainBreaks text with
  | case1 => rfl
  | case2 rest ih => rw [plainBreaks, ih] <;> simp
  | case3 rest _ ih => rw [plainBreaks, ih] <;> simp
  | case4 c rest _ other ih =>
    rw [plainBreaks, ih]
    · rintro more rfl
      exact (other rfl).elim
    · rintro rfl
      exact (other rfl).elim

end WorkflowCompiler.Text

namespace WorkflowCompiler.Publish
open Disk

/-- A reader of YAML takes line breaks of every kind for line feeds. -/
theorem load_plainBreaks (text : String) :
    Yaml.load (String.ofList (Text.plainBreaks text.toList)) = Yaml.load text := by
  have same : Yaml.tokens? (String.ofList (Text.plainBreaks text.toList)) = Yaml.tokens? text := by
    rw [Yaml.tokens?, Yaml.tokens?, String.toList_ofList, Text.plainBreaks_plainBreaks]
  rw [Yaml.load, Yaml.load, same]

theorem readText_ok {text : String} {tree : Tree} :
    readText text = .ok tree ↔ ∃ loaded, Yaml.load text = .ok loaded ∧ mappingOf loaded = tree := by
  rw [readText, load_plainBreaks]
  cases Yaml.load text with
  | error fault => simp
  | ok loaded => simp

theorem readContent_ok {content : Content} {tree : Tree} :
    readContent content = .ok tree ↔ ∃ text, content = .text text ∧ readText text = .ok tree := by
  cases content with
  | text text => simp [readContent]
  | bytes values noText => simp [readContent]

theorem isWorkflowFile_iff {name : String} : isWorkflowFile name = true ↔ ∃ stem, name = stem ++ fileExtension := by
  rw [isWorkflowFile, List.isSuffixOf_iff_suffix]
  constructor
  · rintro ⟨stem, whole⟩
    refine ⟨String.ofList stem, ?_⟩
    rw [← String.toList_inj, String.toList_append, String.toList_ofList, whole]
  · rintro ⟨stem, rfl⟩
    exact ⟨stem.toList, (String.toList_append).symm⟩

theorem stem?_fileName (stem : String) : stem? (stem ++ fileExtension) = some (if stem = "" then fileExtension else stem) := by
  have file : isWorkflowFile (stem ++ fileExtension) = true := isWorkflowFile_iff.mpr ⟨stem, rfl⟩
  rw [stem?, file]
  by_cases empty : stem = ""
  · subst empty
    decide
  · have named : (stem ++ fileExtension == fileExtension) = false := by
      rw [beq_eq_false_iff_ne]
      intro same
      apply empty
      have length := congrArg String.length same
      rw [String.length_append] at length
      rw [← String.length_eq_zero_iff]
      omega
    rw [if_neg empty]
    simp only [Bool.not_true, Bool.false_eq_true, if_false, named, String.length_append, Nat.add_sub_cancel,
      String.toList_append]
    rw [← String.length_toList, List.take_left, String.ofList_toList]

/-- The names that a file in a directory stands for: its own without the extension, if that is one. -/
def StandsFor (fileName name : String) : Prop :=
  name ≠ "" ∧ fileName = name ++ ".yml" ∨ name = ".yml" ∧ fileName = ".yml"

theorem stem?_eq_some {fileName name : String} : stem? fileName = some name ↔ StandsFor fileName name := by
  constructor
  · intro found
    cases file : isWorkflowFile fileName with
    | false => simp [stem?, file] at found
    | true =>
      obtain ⟨front, rfl⟩ := isWorkflowFile_iff.mp file
      rw [stem?_fileName] at found
      cases found
      split
      next empty => exact .inr ⟨rfl, by rw [empty]; rfl⟩
      next named => exact .inl ⟨named, rfl⟩
  · rintro (⟨named, rfl⟩ | ⟨rfl, rfl⟩)
    · show stem? (name ++ fileExtension) = _
      rw [stem?_fileName, if_neg named]
    · decide

theorem isWorkflowFile_of_stem {name fileName : String} (stem : stem? fileName = some name) :
    isWorkflowFile fileName = true := by
  by_contra never
  simp [stem?, never] at stem

section byName

variable {name : String} {value : Tree} {found files : List (String × Tree)}

/-- What files are by name: each name once, with what one of the files of that name holds. -/
structure ByName (files named : List (String × Tree)) : Prop where
  distinct : (named.map Prod.fst).Nodup
  sound : ∀ file ∈ named, file ∈ files
  complete : ∀ file ∈ files, file.1 ∈ named.map Prod.fst

theorem ByName.putNamed (named : ByName files found) : ByName (files ++ [(name, value)]) (Workflow.putNamed name value found) where
  distinct := Workflow.nodup_putNamed named.distinct
  sound := by
    intro file member
    rcases Workflow.mem_putNamed member with rfl | old
    · simp
    · exact List.mem_append_left _ (named.sound file old)
  complete := by
    intro file member
    rw [Workflow.putNamed_keys]
    rcases List.mem_append.mp member with old | new
    · have there := named.complete file old
      split
      · exact there
      · exact List.mem_append_left _ there
    · rw [List.mem_singleton.mp new]
      split
      · next there => exact there
      · simp

theorem byName_byName (files : List (String × Tree)) : ByName files (byName files) := by
  rw [byName]
  induction files using List.reverseRecOn with
  | nil => exact ⟨List.nodup_nil, by simp, by simp⟩
  | append_singleton files file ih =>
    rw [List.foldl_append]
    exact ih.putNamed

end byName

theorem filterMapM_ok {items : List α} {results : List β} {read : α → Except Failure (Option β)}
    (done : items.filterMapM read = .ok results) :
    (∀ item ∈ items, ∃ result, read item = .ok result) ∧
      ∀ result, result ∈ results ↔ ∃ item ∈ items, read item = .ok (some result) := by
  induction items generalizing results with
  | nil =>
    cases done
    simp
  | cons item items ih =>
    rw [List.filterMapM_cons] at done
    obtain ⟨first, one, done⟩ := ok_of_bind done
    cases first with
    | none =>
      obtain ⟨all, members⟩ := ih done
      refine ⟨?_, fun result => ?_⟩
      · simpa using ⟨⟨none, one⟩, all⟩
      · simp [members, one]
    | some first =>
      obtain ⟨more, others, same⟩ := ok_of_bind done
      cases same
      obtain ⟨all, members⟩ := ih others
      refine ⟨?_, fun result => ?_⟩
      · simpa using ⟨⟨some first, one⟩, all⟩
      · simp [members, one, eq_comm]

theorem filterMapM_of_all_ok {items : List α} {read : α → Except Failure (Option β)}
    (all : ∀ item ∈ items, ∃ result, read item = .ok result) : ∃ results, items.filterMapM read = .ok results := by
  induction items with
  | nil => exact ⟨[], rfl⟩
  | cons item items ih =>
    obtain ⟨result, one⟩ := all item List.mem_cons_self
    obtain ⟨results, others⟩ := ih fun item member => all item (List.mem_cons_of_mem _ member)
    rw [List.filterMapM_cons, one]
    cases result with
    | none => exact ⟨results, others⟩
    | some result => exact ⟨result :: results, by rw [others]; rfl⟩

/-- What is read from a directory: the workflow files in it, each under its name without the
extension. -/
structure ReadFrom (disk : Disk) (place : Place) (actual : List (String × Tree)) : Prop where
  distinct : (actual.map Prod.fst).Nodup
  sound : ∀ file ∈ actual, ∃ name text, disk.find (place ++ [name]) = some (.file (.text text)) ∧
    stem? name = some file.1 ∧ readText text = .ok file.2
  complete : ∀ name content stem, disk.find (place ++ [name]) = some (.file content) → stem? name = some stem →
    (∃ tree, readContent content = .ok tree) ∧ stem ∈ actual.map Prod.fst

/-- A regular workflow file directly in the directory that a path leads to. -/
def FileAt (disk : Disk) (current : Place) (root : Path) (name : String) (content : Content) : Prop :=
  holdsNul root = false ∧ ∃ place, disk.locate current root = .ok place ∧
    disk.find (place ++ [name]) = some (.file content) ∧ ∃ stem, StandsFor name stem

/-- Whatever has the name of a workflow file in the directory that a path leads to has a short path. -/
def ShortFiles (disk : Disk) (current : Place) (root : Path) : Prop :=
  ∀ place, disk.locate current root = .ok place →
    ∀ name, disk.find (place ++ [name]) ≠ none → (∃ stem, StandsFor name stem) → Short (root.child name)

section

variable {disk : Disk} {current place : Place} {root : Path} {actual : List (String × Tree)}

theorem readEntry_eq_some {name : String} {entry : Entry} {file : String × Tree} :
    readEntry root (name, entry) = .ok (some file) ↔ Short (root.child name) ∧
      ∃ text, entry = .file (.text text) ∧ stem? name = some file.1 ∧ readText text = .ok file.2 := by
  cases stem : stem? name with
  | none => simp [readEntry, stem]
  | some front =>
    simp only [readEntry, stem]
    by_cases short : Short (root.child name)
    · rw [if_neg (Nat.not_lt.mpr short)]
      cases entry with
      | directory => simp
      | file content =>
        cases content with
        | bytes values noText => simp [readContent]
        | text text =>
          cases whole : readText text with
          | error failure => simp [readContent, whole]
          | ok tree => simp [readContent, short, whole, Prod.ext_iff]
    · rw [if_pos (not_short.mp short)]
      simp [short]

theorem readFiles_eq (noNul : holdsNul root = false) (located : disk.locate current root = .ok place)
    (directory : disk.find place = some .directory) :
    readFiles disk current root = byName <$> ((disk.within place).mergeSort byFileName).filterMapM (readEntry root) := by
  simp only [readFiles, noNul, Bool.false_eq_true, if_false, isAt, status_of_locate located directory, isDirectory, located]
  rfl

theorem readFiles_readFrom (sound : disk.Sound) (noNul : holdsNul root = false)
    (located : disk.locate current root = .ok place) (directory : disk.find place = some .directory)
    (read : readFiles disk current root = .ok actual) : ReadFrom disk place actual := by
  rw [readFiles_eq noNul located directory] at read
  obtain ⟨files, done, rfl⟩ := ok_of_map read
  obtain ⟨all, members⟩ := filterMapM_ok done
  have named := byName_byName files
  refine ⟨named.distinct, ?_, ?_⟩
  · intro file member
    obtain ⟨⟨name, entry⟩, inside, entryRead⟩ := (members file).mp (named.sound file member)
    obtain ⟨-, text, rfl, stem, whole⟩ := readEntry_eq_some.mp entryRead
    exact ⟨name, text, (mem_within sound).mp (List.mem_mergeSort.mp inside), stem, whole⟩
  · intro name content stem there stemmed
    have found : (name, .file content) ∈ (disk.within place).mergeSort byFileName :=
      List.mem_mergeSort.mpr ((mem_within sound).mpr there)
    obtain ⟨result, entryRead⟩ := all _ found
    simp only [readEntry, stemmed] at entryRead
    split at entryRead
    · cases entryRead
    next short =>
      obtain ⟨tree, whole, -⟩ := ok_of_bind entryRead
      obtain ⟨text, rfl, textRead⟩ := readContent_ok.mp whole
      refine ⟨⟨tree, whole⟩, named.complete (stem, tree) ?_⟩
      exact (members _).mpr ⟨_, found, readEntry_eq_some.mpr ⟨Nat.not_lt.mp short, text, rfl, stemmed, textRead⟩⟩

/-- A directory is not read if something with the name of a workflow file in it has too long a path. -/
theorem shortFiles_of_readFiles (sound : disk.Sound) (noNul : holdsNul root = false)
    (located : disk.locate current root = .ok place) (directory : disk.find place = some .directory)
    (read : readFiles disk current root = .ok actual) : ShortFiles disk current root := by
  rw [readFiles_eq noNul located directory] at read
  obtain ⟨files, done, -⟩ := ok_of_map read
  obtain ⟨all, -⟩ := filterMapM_ok done
  rintro other reached name found ⟨stem, stands⟩
  rw [located] at reached
  cases reached
  obtain ⟨entry, there⟩ := Option.ne_none_iff_exists'.mp found
  obtain ⟨result, entryRead⟩ := all _ (List.mem_mergeSort.mpr ((mem_within sound).mpr there))
  simp only [readEntry, stem?_eq_some.mpr stands] at entryRead
  split at entryRead
  · cases entryRead
  next short => exact Nat.not_lt.mp short

/-- There is nothing to read where there is no directory, if that can be told. -/
theorem readFiles_absent (asked : ∃ there, disk.isAt current root isDirectory = .ok there)
    (elsewhere : ∀ place, disk.locate current root = .ok place → disk.find place ≠ some .directory) :
    readFiles disk current root = .ok [] := by
  cases noNul : holdsNul root with
  | true => simp only [readFiles, noNul]; rfl
  | false =>
    obtain ⟨there, known⟩ := asked
    cases there with
    | false => simp only [readFiles, noNul, known]; rfl
    | true =>
      obtain ⟨place, entry, located, found, directory⟩ := isAt_true known
      cases entry with
      | file content => cases directory
      | directory => exact absurd found (elsewhere place located)

theorem readFiles_elsewhere (short : Short root) (fits : Fits root.parts)
    (elsewhere : ∀ place, disk.locate current root = .ok place → disk.find place ≠ some .directory) :
    readFiles disk current root = .ok [] :=
  readFiles_absent (isAt_fits short fits isDirectory) elsewhere

theorem FileAt.directory (sound : disk.Sound) {name : String} {content : Content} (file : FileAt disk current root name content) :
    holdsNul root = false ∧ ∃ place, disk.locate current root = .ok place ∧ disk.find place = some .directory := by
  obtain ⟨noNul, place, located, found, -⟩ := file
  exact ⟨noNul, place, located, sound.housed place name (by simp [found])⟩

/-- Only a directory holds what is read. -/
theorem directory_of_readFiles (sound : disk.Sound) (read : readFiles disk current root = .ok actual) :
    actual = [] ∧ (∀ name content, ¬ FileAt disk current root name content) ∨
      holdsNul root = false ∧ ∃ place, disk.locate current root = .ok place ∧ disk.find place = some .directory := by
  by_cases there : holdsNul root = false ∧ ∃ place, disk.locate current root = .ok place ∧ disk.find place = some .directory
  · exact .inr there
  · refine .inl ⟨?_, fun name content file => there (file.directory sound)⟩
    cases noNul : holdsNul root with
    | true =>
      simp only [readFiles, noNul] at read
      exact (Except.ok.inj read).symm
    | false =>
      simp only [readFiles, noNul, Bool.false_eq_true, if_false] at read
      obtain ⟨found, known, read⟩ := ok_of_bind read
      cases found with
      | false => exact (Except.ok.inj read).symm
      | true =>
        obtain ⟨place, entry, located, found, directory⟩ := isAt_true known
        cases entry with
        | file content => cases directory
        | directory => exact absurd ⟨noNul, place, located, found⟩ there

/-- What is read of a directory is what its workflow files say, and all that they say. -/
structure Reads (disk : Disk) (current : Place) (root : Path) (actual : List (String × Tree)) : Prop where
  distinct : (actual.map Prod.fst).Nodup
  sound : ∀ file ∈ actual, ∃ name text loaded, FileAt disk current root name (.text text) ∧ StandsFor name file.1 ∧
    Yaml.load text = .ok loaded ∧ file.2 = mappingOf loaded
  complete : ∀ name content, FileAt disk current root name content → ∃ stem ∈ actual.map Prod.fst, StandsFor name stem

theorem readFiles_reads (sound : disk.Sound) (read : readFiles disk current root = .ok actual) :
    Reads disk current root actual := by
  rcases directory_of_readFiles sound read with ⟨rfl, none⟩ | ⟨noNul, place, located, directory⟩
  · exact ⟨List.nodup_nil, by simp, fun name content file => absurd file (none name content)⟩
  · have whole := readFiles_readFrom sound noNul located directory read
    refine ⟨whole.distinct, ?_, ?_⟩
    · intro file member
      obtain ⟨name, text, there, stem, tree⟩ := whole.sound file member
      obtain ⟨loaded, parsed, same⟩ := readText_ok.mp tree
      have stands := stem?_eq_some.mp stem
      exact ⟨name, text, loaded, ⟨noNul, place, located, there, _, stands⟩, stands, parsed, same.symm⟩
    · rintro name content ⟨-, other, reached, there, stem, stands⟩
      rw [located] at reached
      cases reached
      exact ⟨stem, (whole.complete name content stem there (stem?_eq_some.mpr stands)).2, stands⟩

/-- The files of a directory can be read if each of them can. -/
theorem readFiles_of_fileAt (sound : disk.Sound) (short : Short root) (fits : Fits root.parts)
    (shortFiles : ShortFiles disk current root)
    (parses : ∀ name content, FileAt disk current root name content →
      ∃ text tree, content = .text text ∧ Yaml.load text = .ok tree) :
    ∃ actual, readFiles disk current root = .ok actual := by
  by_cases there : ∃ place, disk.locate current root = .ok place ∧ disk.find place = some .directory
  · obtain ⟨place, located, directory⟩ := there
    cases noNul : holdsNul root with
    | true => exact ⟨[], by simp only [readFiles, noNul]; rfl⟩
    | false =>
      have all : ∀ item ∈ (disk.within place).mergeSort byFileName, ∃ result, readEntry root item = .ok result := by
        rintro ⟨name, entry⟩ member
        have found := (mem_within sound).mp (List.mem_mergeSort.mp member)
        cases stem : stem? name with
        | none => exact ⟨none, by simp [readEntry, stem]⟩
        | some front =>
          have stands := stem?_eq_some.mp stem
          have child := shortFiles place located name (by simp [found]) ⟨front, stands⟩
          cases entry with
          | directory => exact ⟨none, by simp only [readEntry, stem]; exact if_neg (Nat.not_lt.mpr child)⟩
          | file content =>
            obtain ⟨text, tree, rfl, loaded⟩ := parses name content ⟨noNul, place, located, found, front, stands⟩
            exact ⟨some (front, mappingOf tree),
              readEntry_eq_some.mpr ⟨child, text, rfl, stem, readText_ok.mpr ⟨tree, loaded, rfl⟩⟩⟩
      obtain ⟨results, done⟩ := filterMapM_of_all_ok all
      exact ⟨byName results, by rw [readFiles_eq noNul located directory, done]; rfl⟩
  · exact ⟨[], readFiles_elsewhere short fits fun place located directory => there ⟨place, located, directory⟩⟩

end

/-- The file of a workflow that has nothing but a name is read back. -/
theorem load_nameOnly {name : String} (kept : Yaml.keptEntries 0 [(.text "name", .text name)] = true) :
    Yaml.load (fileText (Tree.record [("name", .text name)])) = .ok (Tree.record [("name", .text name)]) := by
  obtain ⟨line, lines, silent, written⟩ := header_lines
  have plain : Yaml.Plain (Tree.record [("name", .text name)]) := by
    simp [Tree.record, Yaml.Plain, Yaml.PlainEntries, Yaml.PlainEntry]
  refine Yaml.load_commented silent ?_ plain kept
  rw [fileText, String.toList_append, written]
  rfl

theorem load_ci : Yaml.load (fileText (Tree.record [("name", .text "CI")])) = .ok (Tree.record [("name", .text "CI")]) :=
  load_nameOnly (by decide)

end WorkflowCompiler.Publish
