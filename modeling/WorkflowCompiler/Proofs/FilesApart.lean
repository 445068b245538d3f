import WorkflowCompiler.Proofs.UpToDate

/-! Which files a run of `generate` writes. A file name is a path: one with a slash can lead out of the
root, and two that are spelled differently can lead to the same file. Where each name leads to a file
of its own directly in the root, each file ends up with its own text, in whatever order the files are
written, and nothing else is written. -/

namespace WorkflowCompiler.Publish
open Disk

/-- The path of a file as it is joined to its root. -/
def relativePath (name : String) : Path := Path.ofText (name ++ fileExtension)

/-- The last component of the path of a file. -/
def filePart (name : String) : String := (relativePath name).parts.getLastD ""

/-- Each name leads to a file of its own, directly in the root. -/
structure Apart (names : List String) : Prop where
  direct : ∀ name ∈ names, relativePath name = ⟨.relative, [filePart name]⟩
  distinct : (names.map filePart).Nodup

/-- The texts that the file names of records are written as. -/
def spellings (store : Store) (entries : List (Value × WorkflowRecord)) : List String :=
  entries.filterMap fun entry => (store.wording entry.1).toOption

/-- The record of a workflow, under its file name. -/
def Rendered (store : Store) (workflow : Value) (entry : Value × WorkflowRecord) : Prop :=
  ∃ identity, workflow = .workflow identity ∧ entry.1 = (store.workflow identity).fileName ∧
    store.renderWorkflow identity = .ok entry.2

/-- A workflow with a file name that is a text without slashes. -/
def Flat (store : Store) (workflow : Value) : Prop :=
  ∃ identity name, workflow = .workflow identity ∧ (store.workflow identity).fileName = .text name ∧ '/' ∉ name.toList

/-- The name and the text of the file that a record goes to. -/
structure FileOf (store : Store) (entry : Value × WorkflowRecord) (name text : String) : Prop where
  spelled : store.wording entry.1 = .ok name
  whole : ∃ tree, entry.2.tree = .ok tree ∧ text = fileText tree

theorem FileOf.unique {store : Store} {entry : Value × WorkflowRecord} {name other text different : String}
    (first : FileOf store entry name text) (second : FileOf store entry other different) : name = other ∧ text = different := by
  obtain ⟨spelled, tree, whole, rfl⟩ := first
  obtain ⟨again, found, same, rfl⟩ := second
  rw [spelled] at again
  rw [whole] at same
  cases again
  cases same
  exact ⟨rfl, rfl⟩

/-- Every workflow has a file to itself directly in the root, and no other file is written. -/
structure OwnFiles (store : Store) (current : Place) (before : Disk) (root : Path) (entries : List (Value × WorkflowRecord))
    (outcome : Outcome) : Prop where
  inside : ∀ other content, outcome.disk.find other = some (.file content) → before.find other = some (.file content) ∨
    ∃ entry ∈ entries, ∃ name text, FileOf store entry name text ∧ content = .text text ∧
      other = placeOf current root ++ [filePart name]
  outside : ∀ other content, ¬ Below (placeOf current root) other →
    (outcome.disk.find other = some (.file content) ↔ before.find other = some (.file content))
  written : ∀ entry ∈ entries, ∀ name text, FileOf store entry name text → .wrote (filePath root name) ∈ outcome.notes →
    outcome.disk.find (placeOf current root ++ [filePart name]) = some (.file text)
  succeeded : outcome.result = .ok () → ∀ entry ∈ entries, ∃ name text, FileOf store entry name text ∧
    outcome.disk.find (placeOf current root ++ [filePart name]) = some (.file text)

section paths

variable {current : Place} {root : Path} {name : String}

theorem filePath_relativePath (root : Path) (name : String) : filePath root name = root.join (relativePath name) := rfl

/-- Whatever stands in front of the last slash, the last component has the extension. -/
theorem relativePath_parts (name : String) : ∃ front stem, (relativePath name).parts = front ++ [stem ++ fileExtension] := by
  by_cases flat : '/' ∈ name.toList
  · obtain ⟨last, rest, reversed, single⟩ := List.eq_append_cons_of_mem (List.mem_reverse.mpr flat)
    have chars : (name ++ fileExtension).toList = rest.reverse ++ '/' :: (String.ofList last.reverse ++ fileExtension).toList := by
      rw [String.toList_append, String.toList_append, String.toList_ofList, ← List.reverse_reverse name.toList, reversed]
      simp
    have whole : ((((String.ofList last.reverse ++ fileExtension).toList).splitOn '/').map String.ofList).filter Path.isPart =
        [String.ofList last.reverse ++ fileExtension] := congrArg Path.parts (ofText_fileName (by simpa using single))
    refine ⟨((rest.reverse.splitOn '/').map String.ofList).filter Path.isPart, String.ofList last.reverse, ?_⟩
    rw [relativePath, Path.ofText, chars, List.splitOn_append_cons_self, List.map_append, List.filter_append, whole]
  · exact ⟨[], name, by rw [relativePath, ofText_fileName flat]; rfl⟩

theorem isUp_filePart (name : String) : isUp (filePart name) = false := by
  obtain ⟨front, stem, parts⟩ := relativePath_parts name
  rw [filePart, parts, List.getLastD_concat]
  exact isUp_fileName stem

theorem filePath_direct (direct : relativePath name = ⟨.relative, [filePart name]⟩) (root : Path) :
    filePath root name = { root with parts := root.parts ++ [filePart name] } := by
  rw [filePath_relativePath, direct]
  rfl

theorem placeOf_filePath (direct : relativePath name = ⟨.relative, [filePart name]⟩) (current : Place) (root : Path) :
    placeOf current (filePath root name) = placeOf current root ++ [filePart name] := by
  have straight : filePart name ≠ ".." := by simpa [isUp] using isUp_filePart name
  rw [filePath_direct direct, placeOf, placeOf, Path.climb_append, Path.climb]
  · rfl
  · exact straight

theorem parent_filePath (direct : relativePath name = ⟨.relative, [filePart name]⟩) (root : Path) :
    (filePath root name).parent = root := by
  rw [filePath_direct direct, Path.parent, List.dropLast_concat]

/-- A file directly in a relative root has a path of one component. -/
theorem direct_of_parent (inside : (filePath ⟨.relative, ["out"]⟩ name).parent = ⟨.relative, ["out"]⟩) :
    relativePath name = ⟨.relative, [filePart name]⟩ := by
  obtain ⟨front, stem, parts⟩ := relativePath_parts name
  cases path : relativePath name with
  | mk kind found =>
    rw [path] at parts
    subst parts
    have last : filePart name = stem ++ fileExtension := by rw [filePart, path, List.getLastD_concat]
    rw [filePath_relativePath, path] at inside
    cases kind with
    | relative =>
      have joined : (["out"] ++ (front ++ [stem ++ fileExtension])).dropLast = ["out"] := congrArg Path.parts inside
      rw [← List.append_assoc, List.dropLast_concat] at joined
      have front : front = [] := by simpa using joined
      rw [front, last, List.nil_append]
    | single => cases inside
    | double => cases inside

theorem apart_iff {names : List String} :
    Apart names ↔ ∀ root, (∀ name ∈ names, (filePath root name).parent = root) ∧ (names.map (filePath root)).Nodup := by
  constructor
  · intro apart root
    refine ⟨fun name member => parent_filePath (apart.direct name member) root, ?_⟩
    refine List.Nodup.of_map (fun path => path.parts.getLastD "") ?_
    have parts : (names.map (filePath root)).map (fun path => path.parts.getLastD "") = names.map filePart := by
      rw [List.map_map]
      refine List.map_congr_left fun name member => ?_
      rw [Function.comp, filePath_direct (apart.direct name member), List.getLastD_concat]
    rw [parts]
    exact apart.distinct
  · intro inside
    obtain ⟨direct, distinct⟩ := inside ⟨.relative, ["out"]⟩
    have direct : ∀ name ∈ names, relativePath name = ⟨.relative, [filePart name]⟩ :=
      fun name member => direct_of_parent (direct name member)
    refine ⟨direct, List.Nodup.of_map (fun part => (⟨.relative, ["out", part]⟩ : Path)) ?_⟩
    have paths : (names.map filePart).map (fun part => (⟨.relative, ["out", part]⟩ : Path)) = names.map (filePath ⟨.relative, ["out"]⟩) := by
      rw [List.map_map]
      exact List.map_congr_left fun name member => (filePath_direct (direct name member) ⟨.relative, ["out"]⟩).symm
    rw [paths]
    exact distinct

end paths

section writing

variable {disk after : Disk} {current other : Place} {root path : Path} {text : String} {content : Content}
  {files : List (Path × String)}

/-- Wherever a file is written, it is at the one place that its path can lead to. -/
theorem write_put (wrote : disk.write current path text = .ok after) :
    placeOf current path ≠ [] ∧ after = disk.put (placeOf current path) (.file text) := by
  rw [write] at wrote
  split at wrote
  · cases wrote
  · split at wrote
    · cases wrote
    next place located =>
      obtain rfl := locate_climb located
      split at wrote
      · cases wrote
      next free =>
        refine ⟨fun top => free ?_, (Except.ok.inj wrote).symm⟩
        rw [top]
        exact find_nil disk

theorem writeFiles_paths (current : Place) (disk : Disk) (files : List (Path × String)) :
    (writeFiles current disk files).2.map Prod.fst = files.map Prod.fst := by
  induction files generalizing disk with
  | nil => rfl
  | cons file files ih =>
    rw [writeFiles]
    split
    · exact congrArg (file.1 :: ·) (ih _)
    · exact congrArg (file.1 :: ·) (ih _)

/-- Without a failure each file has a result of its own. -/
theorem ok_mem_writeFiles (all : ∀ result ∈ (writeFiles current disk files).2, result.2 = .ok ()) {file : Path × String}
    (member : file ∈ files) : (file.1, .ok ()) ∈ (writeFiles current disk files).2 := by
  have listed := List.mem_map_of_mem (f := Prod.fst) member
  rw [← writeFiles_paths current disk] at listed
  obtain ⟨⟨path, ended⟩, there, same⟩ := List.mem_map.mp listed
  obtain rfl : ended = .ok () := all _ there
  subst same
  exact there

/-- A place that no path leads to stays as it is. -/
theorem writeFiles_kept (apart : ∀ file ∈ files, other ≠ placeOf current file.1) :
    (writeFiles current disk files).1.find other = disk.find other := by
  induction files generalizing disk with
  | nil => rfl
  | cons file files ih =>
    obtain ⟨here, later⟩ := List.forall_mem_cons.mp apart
    rw [writeFiles]
    split
    next wrote =>
      obtain ⟨-, rfl⟩ := write_put wrote
      exact (ih later).trans (find_put_of_ne here _)
    next => exact ih later

theorem writeFiles_found (found : (writeFiles current disk files).1.find other = some (.file content)) :
    disk.find other = some (.file content) ∨ ∃ file ∈ files, other = placeOf current file.1 ∧ content = .text file.2 := by
  induction files generalizing disk with
  | nil => exact .inl found
  | cons file files ih =>
    have widen : (∃ file ∈ files, other = placeOf current file.1 ∧ content = .text file.2) →
        ∃ each ∈ file :: files, other = placeOf current each.1 ∧ content = .text each.2 :=
      fun ⟨each, member, same⟩ => ⟨each, List.mem_cons_of_mem _ member, same⟩
    rw [writeFiles] at found
    split at found
    next wrote =>
      obtain ⟨named, rfl⟩ := write_put wrote
      rcases ih found with before | later
      · by_cases same : other = placeOf current file.1
        · rw [same, find_put named] at before
          cases before
          exact .inr ⟨file, List.mem_cons_self, same, rfl⟩
        · rw [find_put_of_ne same] at before
          exact .inl before
      · exact .inr (widen later)
    next => exact (ih found).imp_right widen

/-- What was written stays, for no later path leads to the same place. -/
theorem writeFiles_written (distinct : (files.map fun file => placeOf current file.1).Nodup) {file : Path × String}
    (member : file ∈ files) (done : (file.1, .ok ()) ∈ (writeFiles current disk files).2) :
    (writeFiles current disk files).1.find (placeOf current file.1) = some (.file file.2) := by
  induction files generalizing disk with
  | nil => cases member
  | cons first files ih =>
    obtain ⟨alone, distinct⟩ := List.nodup_cons.mp distinct
    have apart : ∀ each ∈ files, placeOf current first.1 ≠ placeOf current each.1 :=
      fun each inside same => alone (List.mem_map.mpr ⟨each, inside, same.symm⟩)
    have later : ∀ {disk : Disk} {ended : Except Failure Unit}, (first.1, ended) ∈ (writeFiles current disk files).2 → False := by
      intro disk ended inside
      have listed := List.mem_map_of_mem (f := Prod.fst) inside
      rw [writeFiles_paths] at listed
      obtain ⟨each, there, same⟩ := List.mem_map.mp listed
      exact apart each there (congrArg (placeOf current) same.symm)
    rw [writeFiles] at done ⊢
    split at done
    next changed wrote =>
      obtain ⟨named, rfl⟩ := write_put wrote
      rcases List.mem_cons.mp member with rfl | inside
      · exact (writeFiles_kept apart).trans (find_put named _)
      · rcases List.mem_cons.mp done with same | done
        · exact absurd (congrArg (fun result => placeOf current result.1) same).symm (apart file inside)
        · exact ih distinct inside done
    next failure _ =>
      have listed : (file.1, .ok ()) ∈ (writeFiles current disk files).2 := by
        rcases List.mem_cons.mp done with failed | listed
        · exact absurd (congrArg Prod.snd failed) (by simp)
        · exact listed
      rcases List.mem_cons.mp member with same | inside
      · exact (later (same ▸ listed)).elim
      · exact ih distinct inside listed

theorem makeDirectory_file (made : disk.makeDirectory current path = .ok after) :
    after.find other = some (.file content) ↔ disk.find other = some (.file content) := by
  rw [makeDirectory] at made
  cases located : disk.locate current path with
  | error fault => simp [located, bind, Except.bind] at made
  | ok place =>
    simp only [located, bind, Except.bind] at made
    split at made
    · cases made
    next missing =>
      cases made
      by_cases same : other = place
      · have named : place ≠ [] := by
          rintro rfl
          cases missing
        rw [same, find_put named, missing]
        simp
      · rw [find_put_of_ne same]

/-- Directories are made where there is nothing, and never in place of a file. -/
theorem makeDirectories_file (disk : Disk) (current : Place) (lenient : Bool) (path : Path) (depth : Nat) :
    (disk.makeDirectories current lenient path depth).1.find other = some (.file content) ↔ disk.find other = some (.file content) := by
  induction depth generalizing disk lenient path with
  | zero => rfl
  | succ depth ih =>
    rw [makeDirectories]
    split
    next made => exact makeDirectory_file made
    next =>
      split
      · rfl
      · have above := ih disk true path.parent
        split
        next parents =>
          rw [parents] at above
          exact above
        next parents =>
          rw [parents] at above
          split
          next made => exact (makeDirectory_file made).trans above
          next => exact above
    next => rfl

theorem makePath_file (disk : Disk) (current : Place) (lenient : Bool) (path : Path) :
    (disk.makePath current lenient path).1.find other = some (.file content) ↔ disk.find other = some (.file content) := by
  rw [makePath]
  split
  · rfl
  · exact makeDirectories_file disk current lenient path _

/-- Preparing the root touches no file but those below it, and those it can only remove. -/
theorem prepare_file (disk : Disk) (current : Place) (root : Path) (cleanup : Bool) (other : Place) (content : Content) :
    ((prepare disk current root cleanup).1.find other = some (.file content) → disk.find other = some (.file content)) ∧
      (¬ Below (placeOf current root) other → disk.find other = some (.file content) →
        (prepare disk current root cleanup).1.find other = some (.file content)) := by
  have made : ∀ lenient, ((disk.makePath current lenient root).1.find other = some (.file content) → disk.find other = some (.file content)) ∧
      (¬ Below (placeOf current root) other → disk.find other = some (.file content) →
        (disk.makePath current lenient root).1.find other = some (.file content)) :=
    fun lenient => ⟨(makePath_file disk current lenient root).mp, fun _ => (makePath_file disk current lenient root).mpr⟩
  rw [prepare]
  split
  · exact made true
  split
  · exact made false
  split
  · exact ⟨id, fun _ => id⟩
  · exact made false
  split
  · exact ⟨id, fun _ => id⟩
  next place located =>
    split
    · exact ⟨id, fun _ => id⟩
    · obtain rfl := locate_climb located
      exact ⟨removeAll_found, fun outside found => (removeAll_kept outside).trans found⟩

end writing

section records

variable {store : Store} {root : Path} {owners : Owners} {workflows : List Value} {entries : List (Value × WorkflowRecord)}

theorem lookup?_append {key other owner : Value} (free : Value.lookup? key (owners ++ [(other, owner)]) = none) :
    Value.lookup? key owners = none ∧ Value.equals key other = false := by
  simpa [Value.lookup?, List.find?_append, Option.or_eq_none_iff] using free

/-- Without a fault each workflow has a record, and no two records are filed under one name. -/
theorem collectRecords_accepted (collected : collectRecords store owners workflows = .ok (entries, [])) :
    List.Forall₂ (Rendered store) workflows entries ∧ (∀ entry ∈ entries, Value.lookup? entry.1 owners = none) ∧
      entries.Pairwise fun first second => Value.equals second.1 first.1 = false := by
  induction workflows generalizing owners entries with
  | nil =>
    cases collected
    exact ⟨.nil, by simp, .nil⟩
  | cons workflow workflows ih =>
    cases workflow
    case workflow identity =>
      rw [collectRecords] at collected
      split at collected
      · cases collected
      simp only at collected
      split at collected
      · obtain ⟨first, -, collected⟩ := ok_of_bind collected
        obtain ⟨second, -, collected⟩ := ok_of_bind collected
        obtain ⟨third, -, collected⟩ := ok_of_bind collected
        obtain ⟨rest, -, faulty⟩ := ok_of_bind collected
        cases faulty
      next free =>
        split at collected
        next record rendered =>
          obtain ⟨⟨more, faults⟩, later, same⟩ := ok_of_bind collected
          cases same
          obtain ⟨filed, apart, pairwise⟩ := ih later
          refine ⟨.cons ⟨identity, rfl, rfl, rendered⟩ filed, ?_, List.pairwise_cons.mpr ⟨?_, pairwise⟩⟩
          · exact List.forall_mem_cons.mpr ⟨free, fun entry member => (lookup?_append (apart entry member)).1⟩
          · exact fun entry member => (lookup?_append (apart entry member)).2
        · split at collected
          · cases collected
          · obtain ⟨rest, -, faulty⟩ := ok_of_bind collected
            cases faulty
    all_goals cases collected

theorem filePart_flat {name : String} (flat : '/' ∉ name.toList) : filePart name = name ++ fileExtension := by
  rw [filePart, relativePath, ofText_fileName flat]
  rfl

/-- A file with a flat name goes directly into its root. -/
theorem placeOf_target {name : String} (flat : '/' ∉ name.toList) (current : Place) (root : Path) :
    placeOf current (filePath root name) = target (placeOf current root) name := by
  have last := filePart_flat flat
  rw [placeOf_filePath _ current root, last, target]
  rw [last]
  exact ofText_fileName flat

theorem mem_spellings {entry : Value × WorkflowRecord} {name : String} (member : entry ∈ entries)
    (spelled : store.wording entry.1 = .ok name) : name ∈ spellings store entries :=
  List.mem_filterMap.mpr ⟨entry, member, by rw [spelled]; rfl⟩

theorem spellings_cons {entry : Value × WorkflowRecord} {name : String} (spelled : store.wording entry.1 = .ok name) :
    spellings store (entry :: entries) = name :: spellings store entries := by
  simp [spellings, spelled, Except.toOption]

/-- Texts are spelled as they are. -/
theorem spellings_texts (texts : ∀ entry ∈ entries, ∃ name, entry.1 = .text name) :
    entries.map Prod.fst = (spellings store entries).map Value.text := by
  induction entries with
  | nil => rfl
  | cons entry entries ih =>
    obtain ⟨⟨text, same⟩, texts⟩ := List.forall_mem_cons.mp texts
    have spelled : store.wording entry.1 = .ok text := by
      rw [same]
      rfl
    rw [spellings_cons spelled, List.map_cons, List.map_cons, same, ih texts]

/-- Accepted names without a slash lead to files of their own. -/
theorem apart_of_flat (rendered : List.Forall₂ (Rendered store) workflows entries)
    (apart : entries.Pairwise fun first second => Value.equals second.1 first.1 = false)
    (flat : ∀ workflow ∈ workflows, Flat store workflow) : Apart (spellings store entries) := by
  have flat : ∀ entry ∈ entries, ∃ name, entry.1 = .text name ∧ '/' ∉ name.toList := by
    clear apart
    induction rendered with
    | nil => simp
    | cons first _ ih =>
      obtain ⟨here, later⟩ := List.forall_mem_cons.mp flat
      refine List.forall_mem_cons.mpr ⟨?_, ih later⟩
      obtain ⟨identity, rfl, named, -⟩ := first
      obtain ⟨other, name, same, text, flat⟩ := here
      cases same
      exact ⟨name, named.trans text, flat⟩
  have same : _ = (spellings store entries).map Value.text :=
    spellings_texts fun entry member => (flat entry member).imp fun name both => both.1
  have parts : ∀ name ∈ spellings store entries, '/' ∉ name.toList := by
    intro name member
    have listed : Value.text name ∈ entries.map Prod.fst := same ▸ List.mem_map_of_mem member
    obtain ⟨entry, inside, named⟩ := List.mem_map.mp listed
    obtain ⟨other, written, flat⟩ := flat entry inside
    rw [named] at written
    cases written
    exact flat
  have distinct : (spellings store entries).Nodup := by
    have pairwise : (entries.map Prod.fst).Pairwise fun first second => Value.equals second first = false :=
      List.pairwise_map.mpr apart
    rw [same, List.pairwise_map] at pairwise
    refine pairwise.imp fun differs again => ?_
    rw [again, equals_text] at differs
    simp at differs
  refine ⟨fun name member => ?_, ?_⟩
  · rw [filePart_flat (parts name member)]
    exact ofText_fileName (parts name member)
  · rw [List.map_congr_left fun name member => filePart_flat (parts name member)]
    exact distinct.map fun name other same => by simpa using same

theorem texts_paths (store : Store) (root : Path) (entries : List (Value × WorkflowRecord)) :
    ((texts store root entries).1.map Prod.fst).Sublist ((spellings store entries).map (filePath root)) := by
  induction entries with
  | nil => exact List.nil_sublist _
  | cons entry entries ih =>
    rw [texts]
    split
    next name tree same whole =>
      rw [spellings_cons same]
      exact ih.cons_cons _
    · exact List.nil_sublist _
    · exact List.nil_sublist _

theorem mem_texts {file : Path × String} (member : file ∈ (texts store root entries).1) :
    ∃ entry ∈ entries, ∃ name, FileOf store entry name file.2 ∧ file.1 = filePath root name := by
  induction entries with
  | nil => cases member
  | cons entry entries ih =>
    rw [texts] at member
    split at member
    next name tree spelled whole =>
      rcases List.mem_cons.mp member with rfl | later
      · exact ⟨entry, List.mem_cons_self, name, ⟨spelled, tree, whole, rfl⟩, rfl⟩
      · obtain ⟨other, inside, found⟩ := ih later
        exact ⟨other, List.mem_cons_of_mem _ inside, found⟩
    · cases member
    · cases member

theorem texts_complete (done : (texts store root entries).2 = .ok ()) :
    ∀ entry ∈ entries, ∃ name text, FileOf store entry name text ∧ (filePath root name, text) ∈ (texts store root entries).1 := by
  induction entries with
  | nil => simp
  | cons entry entries ih =>
    rw [texts] at done ⊢
    split at done
    next name tree spelled whole =>
      refine List.forall_mem_cons.mpr ⟨⟨name, _, ⟨spelled, tree, whole, rfl⟩, List.mem_cons_self⟩, ?_⟩
      intro other member
      obtain ⟨name, text, file, listed⟩ := ih done other member
      exact ⟨name, text, file, List.mem_cons_of_mem _ listed⟩
    · cases done
    · cases done

end records

section runs

variable {order : Order} {store : Store} {current : Place} {disk : Disk} {workflows : List Value}
  {entries : List (Value × WorkflowRecord)} {root : Path}

/-- The places of files that are apart, in whatever order they are written. -/
theorem places_distinct (shuffles : ∀ files, (order files).Perm files) (apart : Apart (spellings store entries))
    (current : Place) (root : Path) :
    ((order (texts store root entries).1).map fun file => placeOf current file.1).Nodup := by
  have places : ((spellings store entries).map (filePath root)).map (placeOf current) =
      ((spellings store entries).map filePart).map fun part => placeOf current root ++ [part] := by
    rw [List.map_map, List.map_map]
    exact List.map_congr_left fun name member => placeOf_filePath (apart.direct name member) current root
  have all : (((spellings store entries).map (filePath root)).map (placeOf current)).Nodup := by
    rw [places]
    exact apart.distinct.map fun part other same => by simpa using same
  have listed := ((texts_paths store root entries).map (placeOf current)).nodup all
  rw [List.map_map] at listed
  exact ((shuffles _).map _).nodup_iff.mpr listed

/-- A run that could not prepare its directory writes nothing. -/
theorem ownFiles_unprepared {prepared : Disk} {failure : Failure} {cleanup : Bool}
    (unmade : prepare disk current root cleanup = (prepared, .error failure)) :
    OwnFiles store current disk root entries ⟨prepared, if cleanup then [.emptying root] else [], .error failure⟩ where
  inside := fun other content found => .inl ((prepare_file disk current root cleanup other content).1 (by rwa [unmade]))
  outside := by
    intro other content outside
    have kept := prepare_file disk current root cleanup other content
    rw [unmade] at kept
    exact ⟨kept.1, kept.2 outside⟩
  written := by
    intro entry member name text file noted
    cases cleanup <;> simp at noted
  succeeded := by
    intro done
    cases done

theorem mem_written {results : List (Path × Except Failure Unit)} {path : Path} (noted : .wrote path ∈ written results) :
    (path, .ok ()) ∈ results := by
  obtain ⟨⟨other, ended⟩, member, made⟩ := List.mem_filterMap.mp noted
  cases ended with
  | error failure => cases made
  | ok done =>
    cases made
    exact member

/-- Once the directory is there, every file that is written is one of the workflows' own. -/
theorem ownFiles_ran (shuffles : ∀ files, (order files).Perm files) (apart : Apart (spellings store entries))
    {prepared : Disk} {cleanup : Bool} (made : prepare disk current root cleanup = (prepared, .ok ())) {notes : List Note}
    {result : Except Failure Unit}
    (noted : ∀ path, .wrote path ∈ notes → (texts store root entries).2 = .ok () ∧
      (path, .ok ()) ∈ (writeFiles current prepared (order (texts store root entries).1)).2)
    (done : result = .ok () → (texts store root entries).2 = .ok () ∧
      ∀ ended ∈ (writeFiles current prepared (order (texts store root entries).1)).2, ended.2 = .ok ()) :
    OwnFiles store current disk root entries
      ⟨(writeFiles current prepared (order (texts store root entries).1)).1, notes, result⟩ := by
  have place : ∀ entry ∈ entries, ∀ name text, FileOf store entry name text →
      placeOf current (filePath root name) = placeOf current root ++ [filePart name] :=
    fun entry member name text file => placeOf_filePath (apart.direct name (mem_spellings member file.spelled)) current root
  have ours : ∀ file ∈ order (texts store root entries).1, ∃ entry ∈ entries, ∃ name, FileOf store entry name file.2 ∧
      placeOf current file.1 = placeOf current root ++ [filePart name] := by
    intro file member
    obtain ⟨entry, inside, name, own, path⟩ := mem_texts ((shuffles _).mem_iff.mp member)
    exact ⟨entry, inside, name, own, by rw [path, place entry inside name _ own]⟩
  have distinct := places_distinct shuffles apart current root
  have found : ∀ entry ∈ entries, ∀ name text, FileOf store entry name text → (texts store root entries).2 = .ok () →
      (filePath root name, .ok ()) ∈ (writeFiles current prepared (order (texts store root entries).1)).2 →
      (writeFiles current prepared (order (texts store root entries).1)).1.find (placeOf current root ++ [filePart name]) =
        some (.file text) := by
    intro entry member name text own all listed
    obtain ⟨other, again, same, inside⟩ := texts_complete all entry member
    obtain ⟨rfl, rfl⟩ := own.unique same
    have inside := (shuffles _).mem_iff.mpr inside
    have written := writeFiles_written distinct inside listed
    rwa [place entry member name text own] at written
  refine ⟨?_, ?_, ?_, ?_⟩
  · intro other content there
    rcases writeFiles_found there with before | ⟨file, member, rfl, rfl⟩
    · have kept := (prepare_file disk current root cleanup other content).1
      rw [made] at kept
      exact .inl (kept before)
    · obtain ⟨entry, inside, name, own, path⟩ := ours file member
      exact .inr ⟨entry, inside, name, file.2, own, rfl, path⟩
  · intro other content outside
    have kept := prepare_file disk current root cleanup other content
    rw [made] at kept
    have untouched : (writeFiles current prepared (order (texts store root entries).1)).1.find other = prepared.find other := by
      refine writeFiles_kept fun file member same => outside ?_
      obtain ⟨entry, -, name, -, path⟩ := ours file member
      rw [same, path]
      exact ⟨List.prefix_append _ _, by simp⟩
    rw [untouched]
    exact ⟨kept.1, kept.2 outside⟩
  · intro entry member name text own wrote
    obtain ⟨all, listed⟩ := noted _ wrote
    exact found entry member name text own all listed
  · intro succeeded entry member
    obtain ⟨all, ended⟩ := done succeeded
    obtain ⟨name, text, own, inside⟩ := texts_complete all entry member
    refine ⟨name, text, own, found entry member name text own all ?_⟩
    have listed := List.mem_map_of_mem (f := Prod.fst) ((shuffles _).mem_iff.mpr inside)
    rw [← writeFiles_paths current prepared] at listed
    obtain ⟨⟨path, result⟩, there, same⟩ := List.mem_map.mp listed
    have fine := ended _ there
    subst same
    rwa [← show result = .ok () from fine]

theorem generateIn_ownFiles (shuffles : ∀ files, (order files).Perm files) (accepted : records store workflows = .ok entries)
    (apart : Apart (spellings store entries)) (current : Place) (disk : Disk) (root : Path) (cleanup : Bool) :
    OwnFiles store current disk root entries (generateIn order store current disk workflows root cleanup) := by
  have unnoted : ∀ {path : Path}, .wrote path ∉ (if cleanup then [Note.emptying root] else []) := by
    intro path
    cases cleanup <;> simp
  cases ready : prepare disk current root cleanup with
  | mk prepared ended =>
    rw [generateIn, accepted]
    simp only [ready]
    cases ended with
    | error failure => exact ownFiles_unprepared ready
    | ok done =>
      cases rendered : (texts store root entries).2 with
      | error failure =>
        refine ownFiles_ran shuffles apart ready (fun path noted => absurd noted unnoted) ?_
        intro done
        cases done
      | ok done =>
        refine ownFiles_ran shuffles apart ready ?_ fun done => ⟨rendered, results_of_summary done⟩
        intro path noted
        exact ⟨rendered, mem_written ((List.mem_append.mp noted).resolve_left unnoted)⟩

/-- Accepted workflows under names without slashes each have a file to themselves directly in the root,
and in general they do just if their paths say so: a run then writes no other file, and no file is
written over by another, in whatever order they are written. -/
theorem files_stand_apart (shuffles : ∀ files, (order files).Perm files) (accepted : records store workflows = .ok entries) :
    List.Forall₂ (Rendered store) workflows entries ∧
      ((∀ workflow ∈ workflows, Flat store workflow) → Apart (spellings store entries)) ∧
      (Apart (spellings store entries) ↔ ∀ root, (∀ name ∈ spellings store entries, (filePath root name).parent = root) ∧
        ((spellings store entries).map (filePath root)).Nodup) ∧
      (Apart (spellings store entries) → ∀ current disk root cleanup,
        OwnFiles store current disk root entries (generateIn order store current disk workflows root cleanup)) := by
  obtain ⟨⟨found, faults⟩, collected, kept⟩ := ok_of_bind accepted
  cases faults with
  | cons fault faults => cases kept
  | nil =>
    cases kept
    obtain ⟨rendered, -, pairwise⟩ := collectRecords_accepted collected
    refine ⟨rendered, apart_of_flat rendered pairwise, apart_iff, ?_⟩
    intro apart current disk root cleanup
    exact generateIn_ownFiles shuffles accepted apart current disk root cleanup

end runs

/-- The store of two workflows with names and file names and no more. -/
def namePair (first second : String) : Store :=
  { workflows := [{ name := .text "CI", fileName := .text first }, { name := .text "Release", fileName := .text second }] }

def entryPair (first second : String) : List (Value × WorkflowRecord) :=
  [(.text first, { name := .text "CI", sections := [] }), (.text second, { name := .text "Release", sections := [] })]

/-- What is found at a place after a run for two workflows. -/
def foundAfter (first second : String) (place : Place) : Option Entry :=
  (generate (namePair first second) [] {} [.workflow 0, .workflow 1] ⟨.relative, ["out"]⟩ false).disk.find place

theorem collectRecords_more {store : Store} {identity : Nat} {record : WorkflowRecord} {owners : Owners} {workflows : List Value}
    {entries : List (Value × WorkflowRecord)} (isKey : (store.workflow identity).fileName.isKey = true)
    (free : Value.lookup? (store.workflow identity).fileName owners = none) (rendered : store.renderWorkflow identity = .ok record)
    (later : collectRecords store (owners ++ [((store.workflow identity).fileName, (store.workflow identity).name)]) workflows =
      .ok (entries, [])) :
    collectRecords store owners (.workflow identity :: workflows) =
      .ok (((store.workflow identity).fileName, record) :: entries, []) := by
  rw [collectRecords]
  simp only [isKey, free, rendered, later]
  rfl

theorem records_namePair {first second : String} (differ : second ≠ first) :
    records (namePair first second) [.workflow 0, .workflow 1] = .ok (entryPair first second) := by
  have free : Value.lookup? (.text second) ([(.text first, .text "CI")] : Owners) = none := by
    simp [Value.lookup?, equals_text, differ]
  have last : collectRecords (namePair first second) [(.text first, .text "CI")] [.workflow 1] = _ :=
    collectRecords_more rfl free rfl rfl
  have both : collectRecords (namePair first second) [] [.workflow 0, .workflow 1] = _ := collectRecords_more rfl rfl rfl last
  rw [records, both]
  rfl

theorem files_stand_apart_namePair : Apart ["ci", "release"] ∧
    OwnFiles (namePair "ci" "release") [] {} ⟨.relative, ["out"]⟩ (entryPair "ci" "release")
      (generateIn List.reverse (namePair "ci" "release") [] {} [.workflow 0, .workflow 1] ⟨.relative, ["out"]⟩ true) := by
  have flat : ∀ workflow ∈ [Value.workflow 0, Value.workflow 1], Flat (namePair "ci" "release") workflow := by
    intro workflow member
    rcases List.mem_cons.mp member with rfl | member
    · exact ⟨0, "ci", rfl, rfl, by decide⟩
    · rw [List.mem_singleton.mp member]
      exact ⟨1, "release", rfl, rfl, by decide⟩
  have accepted : records (namePair "ci" "release") _ = _ := records_namePair (by decide)
  obtain ⟨-, apart, -, own⟩ := files_stand_apart List.reverse_perm accepted
  exact ⟨apart flat, own (apart flat) [] {} ⟨.relative, ["out"]⟩ true⟩

/-- Accepted names can lead to one file, which then holds the later workflow only, and out of the root. -/
theorem files_coincide : (∀ root, filePath root "./ci" = filePath root "ci") ∧
    records (namePair "ci" "./ci") [.workflow 0, .workflow 1] = .ok (entryPair "ci" "./ci") ∧
      foundAfter "ci" "./ci" ["out", "ci.yml"] = some (.file (fileText (Tree.record [("name", .text "Release")]))) ∧
    records (namePair "ci" "../ci") [.workflow 0, .workflow 1] = .ok (entryPair "ci" "../ci") ∧
      foundAfter "ci" "../ci" ["ci.yml"] = some (.file (fileText (Tree.record [("name", .text "Release")]))) := by
  refine ⟨?_, records_namePair (by decide), ?_, records_namePair (by decide), ?_⟩
  · intro root
    rfl
  · decide +kernel
  · decide +kernel

end WorkflowCompiler.Publish
