import WorkflowCompiler.Proofs.ReadingFiles

/-! What the workflow files of a directory are loaded as, file by file. They are loaded in the order of their names, and the first
one that cannot be read ends the reading with its failure. -/

namespace WorkflowCompiler

/-- What a file is loaded as. -/
def Content.loaded : Content → Except Failure Tree
  | text value => (Yaml.load value).mapError fun fault => .ofCause (.unloadable fault)
  | bytes _ _ => .error (.ofCause .undecodable)

namespace Publish
open Disk

/-- What comes of an entry that has the name of a workflow file: a regular file is loaded, and where the path is too long there
is only a refusal, whatever the entry is. -/
inductive LoadsAs (disk : Disk) (current : Place) (root : Path) : String → Except Failure Tree → Prop
  | file {name : String} {content : Content} (file : FileAt disk current root name content) (short : Short (root.child name)) :
      LoadsAs disk current root name content.loaded
  | refused {place : Place} {name stem : String} (noNul : holdsNul root = false) (located : disk.locate current root = .ok place)
      (found : disk.find (place ++ [name]) ≠ none) (stands : StandsFor name stem) (long : ¬ Short (root.child name)) :
      LoadsAs disk current root name (.error (refusal .nameTooLong (root.child name)))

/-- Every workflow file with a name before that one is loaded. -/
def LoadedBefore (disk : Disk) (current : Place) (root : Path) (name : String) : Prop :=
  ∀ earlier outcome, LoadsAs disk current root earlier outcome → earlier < name → ∃ tree, outcome = .ok tree

section

variable {disk : Disk} {current place : Place} {root : Path} {failure : Failure}

/-- What an entry of a directory is loaded as; nothing for what is no workflow file. -/
def loaded (root : Path) : String × Entry → Option (String × Except Failure Tree)
  | (name, entry) =>
    if (stem? name).isNone then none
    else if Short (root.child name) then
      match entry with
      | .directory => none
      | .file content => some (name, content.loaded)
    else some (name, .error (refusal .nameTooLong (root.child name)))

def readLoaded : String × Except Failure Tree → Except Failure (String × Tree)
  | (name, outcome) => do return ((stem? name).getD "", mappingOf (← outcome))

theorem readContent_eq (content : Content) : readContent content = mappingOf <$> content.loaded := by
  cases content with
  | bytes => rfl
  | text text =>
    rw [readContent, readText, load_plainBreaks, Content.loaded]
    cases Yaml.load text <;> rfl

theorem readEntry_eq (entry : String × Entry) :
    readEntry root entry = match loaded root entry with
      | some file => some <$> readLoaded file
      | none => .ok none := by
  obtain ⟨name, held⟩ := entry
  cases stem : stem? name with
  | none => simp [readEntry, loaded, stem]
  | some front =>
    simp only [readEntry, loaded, stem, Option.isNone_some, Bool.false_eq_true, if_false]
    by_cases short : Short (root.child name)
    · rw [if_neg (Nat.not_lt.mpr short), if_pos short]
      cases held with
      | directory => rfl
      | file content =>
        simp only [readContent_eq, readLoaded, stem, Option.getD_some]
        cases content.loaded <;> rfl
    · rw [if_pos (not_short.mp short), if_neg short]
      rfl

theorem filterMapM_readEntry (entries : List (String × Entry)) :
    entries.filterMapM (readEntry root) = (entries.filterMap (loaded root)).mapM readLoaded := by
  induction entries with
  | nil => rfl
  | cons entry rest ih =>
    rw [List.filterMapM_cons, readEntry_eq]
    rcases found : loaded root entry with _ | file
    · rw [List.filterMap_cons_none found, ← ih]
      rfl
    · rw [List.filterMap_cons_some found, List.mapM_cons, ← ih]
      dsimp only
      cases readLoaded file <;> rfl

theorem loaded_name {entry : String × Entry} {file : String × Except Failure Tree} (found : loaded root entry = some file) :
    file.1 = entry.1 := by
  obtain ⟨name, held⟩ := entry
  simp only [loaded] at found
  split at found
  · cases found
  · split at found
    · split at found
      · cases found
      · cases found
        rfl
    · cases found
      rfl

/-- The entries that are loaded are those with the name of a workflow file. -/
theorem loaded_iff (sound : disk.Sound) (noNul : holdsNul root = false) (located : disk.locate current root = .ok place)
    {name : String} {outcome : Except Failure Tree} :
    (∃ entry ∈ disk.within place, loaded root entry = some (name, outcome)) ↔ LoadsAs disk current root name outcome := by
  constructor
  · rintro ⟨⟨other, held⟩, member, found⟩
    cases loaded_name found
    have there := (mem_within sound).mp member
    cases stem : stem? name with
    | none => simp [loaded, stem] at found
    | some front =>
      have stands := stem?_eq_some.mp stem
      simp only [loaded, stem, Option.isNone_some, Bool.false_eq_true, if_false] at found
      by_cases short : Short (root.child name)
      · rw [if_pos short] at found
        cases held with
        | directory => cases found
        | file content =>
          cases found
          exact .file ⟨noNul, place, located, there, front, stands⟩ short
      · rw [if_neg short] at found
        cases found
        exact .refused noNul located (by simp [there]) stands short
  · rintro (⟨⟨-, other, reached, there, front, stands⟩, short⟩ | ⟨-, reached, there, stands, long⟩)
    · rw [located] at reached
      cases reached
      refine ⟨_, (mem_within sound).mpr there, ?_⟩
      simp [loaded, stem?_eq_some.mpr stands, short]
    · rw [located] at reached
      cases reached
      obtain ⟨entry, found⟩ := Option.ne_none_iff_exists'.mp there
      refine ⟨_, (mem_within sound).mpr found, ?_⟩
      simp [loaded, stem?_eq_some.mpr stands, long]

/-- No two entries of a directory have one name. -/
theorem within_pairwise (sound : disk.Sound) (place : Place) : (disk.within place).Pairwise (·.1 ≠ ·.1) := by
  rw [within, List.pairwise_filterMap]
  refine (List.pairwise_map.mp sound.distinct).imp fun {first second} apart one found two there same => apart ?_
  -- Either entry is the only one of a disk that has just this entry.
  have placed := @of_mem_within ⟨[first]⟩ place one (List.mem_filterMap.mpr ⟨first, List.mem_singleton_self _, found⟩)
  have placed' := @of_mem_within ⟨[second]⟩ place two (List.mem_filterMap.mpr ⟨second, List.mem_singleton_self _, there⟩)
  rw [← List.mem_singleton.mp placed, ← List.mem_singleton.mp placed', same]

/-- Workflow files as they are loaded, by name. -/
structure Loads (disk : Disk) (current : Place) (root : Path) (files : List (String × Except Failure Tree)) : Prop where
  sorted : files.Pairwise (·.1 < ·.1)
  members : ∀ name outcome, (name, outcome) ∈ files ↔ LoadsAs disk current root name outcome

theorem loads_within (sound : disk.Sound) (noNul : holdsNul root = false) (located : disk.locate current root = .ok place) :
    Loads disk current root (((disk.within place).mergeSort byFileName).filterMap (loaded root)) where
  sorted := by
    have ordered : ((disk.within place).mergeSort byFileName).Pairwise fun first second => first.1 ≤ second.1 := by
      have sorted : ((disk.within place).mergeSort byFileName).Pairwise fun first second => byFileName first second = true := by
        refine List.pairwise_mergeSort ?_ ?_ _
        · intro first second third early late
          exact decide_eq_true (String.le_trans (of_decide_eq_true early) (of_decide_eq_true late))
        · intro first second
          simpa [byFileName] using String.le_total first.1 second.1
      exact sorted.imp fun before => of_decide_eq_true before
    have apart : ((disk.within place).mergeSort byFileName).Pairwise fun first second => first.1 ≠ second.1 :=
      ((List.mergeSort_perm (disk.within place) byFileName).pairwise_iff fun differ => Ne.symm differ).mpr (within_pairwise sound place)
    rw [List.pairwise_filterMap]
    refine (ordered.and apart).imp fun {first second} before one found two there => ?_
    rw [loaded_name found, loaded_name there]
    exact lt_of_le_of_ne before.1 before.2
  members := by
    intro name outcome
    rw [List.mem_filterMap, ← loaded_iff sound noNul located]
    simp only [List.mem_mergeSort]

theorem isAt_asked (asked : disk.status current root ≠ .error .nameTooLong) (wanted : Entry → Bool) :
    ∃ there, disk.isAt current root wanted = .ok there := by
  rw [isAt]
  cases seen : disk.status current root with
  | ok entry => exact ⟨wanted entry, rfl⟩
  | error fault =>
    rw [seen] at asked
    cases located : disk.locate current root with
    | ok place =>
      cases found : disk.find place with
      | some entry => simp [status_of_locate located found] at seen
      | none =>
        rw [status_of_missing located found] at seen
        cases seen
        exact ⟨false, rfl⟩
    | error other =>
      rw [status_of_refused located] at seen
      cases seen
      rcases locate_error located with rfl | rfl | rfl
      · exact ⟨false, rfl⟩
      · exact ⟨false, rfl⟩
      · exact absurd rfl asked

theorem LoadsAs.found {name : String} {outcome : Except Failure Tree} (loads : LoadsAs disk current root name outcome) :
    holdsNul root = false ∧ ∃ place, disk.locate current root = .ok place ∧ disk.find (place ++ [name]) ≠ none := by
  cases loads with
  | file file =>
    obtain ⟨noNul, place, located, there, -⟩ := file
    exact ⟨noNul, place, located, by simp [there]⟩
  | refused noNul located there => exact ⟨noNul, _, located, there⟩

theorem LoadsAs.directory (sound : disk.Sound) {name : String} {outcome : Except Failure Tree}
    (loads : LoadsAs disk current root name outcome) :
    holdsNul root = false ∧ ∃ place, disk.locate current root = .ok place ∧ disk.find place = some .directory := by
  obtain ⟨noNul, place, located, there⟩ := loads.found
  exact ⟨noNul, place, located, sound.housed place name there⟩

/-- The files of a directory are read from what they are loaded as, unless the path to it is
refused. -/
theorem readFiles_loads (sound : disk.Sound) (noNul : holdsNul root = false)
    (asked : disk.status current root ≠ .error .nameTooLong) :
    ∃ files, Loads disk current root files ∧ readFiles disk current root = byName <$> files.mapM readLoaded := by
  by_cases there : ∃ place, disk.locate current root = .ok place ∧ disk.find place = some .directory
  · obtain ⟨place, located, directory⟩ := there
    exact ⟨_, loads_within sound noNul located, by rw [readFiles_eq noNul located directory, filterMapM_readEntry]⟩
  · have elsewhere : ∀ place, disk.locate current root = .ok place → disk.find place ≠ some .directory :=
      fun place located directory => there ⟨place, located, directory⟩
    refine ⟨[], ⟨.nil, fun name outcome => iff_of_false (by simp) ?_⟩, readFiles_absent (isAt_asked asked isDirectory) elsewhere⟩
    exact fun loads => there (loads.directory sound).2

/-- Files are loaded up to the first one that cannot be. -/
theorem mapM_readLoaded_error {files : List (String × Except Failure Tree)} (sorted : files.Pairwise (·.1 < ·.1)) :
    files.mapM readLoaded = .error failure ↔ ∃ name, (name, .error failure) ∈ files ∧
      ∀ earlier outcome, (earlier, outcome) ∈ files → earlier < name → ∃ tree, outcome = .ok tree := by
  induction files with
  | nil => exact iff_of_false (fun failed => nomatch failed) fun ⟨_, member, _⟩ => nomatch member
  | cons file files ih =>
    obtain ⟨first, outcome⟩ := file
    obtain ⟨later, rest⟩ := List.pairwise_cons.mp sorted
    rw [List.mapM_cons]
    cases outcome with
    | error fault =>
      constructor
      · intro failed
        cases failed
        refine ⟨first, List.mem_cons_self, fun earlier outcome member before => ?_⟩
        rcases List.mem_cons.mp member with same | member
        · cases same
          exact absurd before (String.lt_irrefl _)
        · exact absurd (String.lt_trans (later _ member) before) (String.lt_irrefl _)
      · rintro ⟨name, member, before⟩
        rcases List.mem_cons.mp member with same | member
        · cases same
          rfl
        · obtain ⟨tree, done⟩ := before first _ List.mem_cons_self (later _ member)
          cases done
    | ok tree =>
      have step : (do let file ← readLoaded (first, .ok tree); let others ← files.mapM readLoaded; pure (file :: others)) = .error failure ↔
          files.mapM readLoaded = .error failure := by
        cases files.mapM readLoaded with
        | ok others => exact iff_of_false (fun failed => by cases failed) (fun failed => by cases failed)
        | error fault => exact Iff.rfl
      rw [step, ih rest]
      refine exists_congr fun name => ?_
      simp only [List.mem_cons, Prod.mk.injEq, reduceCtorEq, and_false, false_or]
      refine and_congr_right fun _ => ⟨fun before earlier outcome member => ?_, fun before earlier outcome member => before _ _ (.inr member)⟩
      rcases member with ⟨rfl, rfl⟩ | member
      · exact fun _ => ⟨tree, rfl⟩
      · exact before earlier outcome member

/-- Reading a directory fails for a path that is too long, or for the first workflow file that cannot be read. -/
theorem readFiles_error_iff (sound : disk.Sound) : readFiles disk current root = .error failure ↔
    (holdsNul root = false ∧ disk.status current root = .error .nameTooLong ∧ failure = refusal .nameTooLong root) ∨
      ∃ name, LoadsAs disk current root name (.error failure) ∧ LoadedBefore disk current root name := by
  cases noNul : holdsNul root with
  | true =>
    refine iff_of_false ?_ ?_
    · simp only [readFiles, noNul]
      intro failed
      cases failed
    · rintro (⟨absurd, -⟩ | ⟨name, loads, -⟩)
      · cases absurd
      · rw [(loads.directory sound).1] at noNul
        cases noNul
  | false =>
    by_cases refused : disk.status current root = .error .nameTooLong
    · have failed : readFiles disk current root = .error (refusal .nameTooLong root) := by
        simp only [readFiles, noNul, Bool.false_eq_true, if_false, isAt, refused]
        rfl
      rw [failed]
      constructor
      · intro same
        cases same
        exact .inl ⟨rfl, refused, rfl⟩
      · rintro (⟨-, -, rfl⟩ | ⟨name, loads, -⟩)
        · rfl
        · obtain ⟨-, place, located, directory⟩ := loads.directory sound
          rw [status_of_locate located directory] at refused
          cases refused
    · obtain ⟨files, loads, read⟩ := readFiles_loads sound noNul refused
      have same : readFiles disk current root = .error failure ↔ files.mapM readLoaded = .error failure := by
        rw [read]
        cases files.mapM readLoaded with
        | ok others => exact iff_of_false (fun failed => by cases failed) (fun failed => by cases failed)
        | error fault => exact Iff.rfl
      simp only [same, mapM_readLoaded_error loads.sorted, loads.members, refused, false_and, and_false, false_or]
      rfl

end

end Publish

end WorkflowCompiler
