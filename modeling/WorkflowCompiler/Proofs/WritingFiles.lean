import WorkflowCompiler.Proofs.PreparingRoot

/-! Writing files into a directory. Each file has a place of its own, so that the order in which
they are written does not show, and a file that is refused leaves everything as it was. -/

namespace WorkflowCompiler.Publish
open Disk

/-- A name that a file can be written under. -/
structure PlainName (name : String) : Prop where
  named : name ≠ ""
  flat : '/' ∉ name.toList
  noNul : '\x00' ∉ name.toList

def target (place : Place) (name : String) : Place := place ++ [name ++ fileExtension]

theorem target_inj {place : Place} {name other : String} : target place name = target place other ↔ name = other := by
  simp [target]

theorem target_ne_nil (place : Place) (name : String) : target place name ≠ [] := by simp [target]

/-- The file of a name is too long for the disk: its own name is, or its path. -/
def TooLong (root : Path) (name : String) : Prop :=
  longestName < (name ++ fileExtension).utf8ByteSize ∨ ¬ Short (filePath root name)

instance (root : Path) (name : String) : Decidable (TooLong root name) := inferInstanceAs (Decidable (_ ∨ _))

/-- Why the file of a name cannot be written into the directory `place`, which `root` leads to. -/
def fault? (disk : Disk) (place : Place) (root : Path) (name : String) : Option DiskFault :=
  if TooLong root name then some .nameTooLong
  else if disk.find (target place name) = some .directory then some .isDirectory
  else none

theorem fault?_eq_none {disk : Disk} {place : Place} {root : Path} {name : String} :
    fault? disk place root name = none ↔ ¬ TooLong root name ∧ disk.find (target place name) ≠ some .directory := by
  unfold fault?
  split
  · next long => exact ⟨by simp, fun accepted => absurd long accepted.1⟩
  · next short =>
    split
    · next taken => exact ⟨by simp, fun accepted => absurd taken accepted.2⟩
    · next free => exact ⟨fun _ => ⟨short, free⟩, fun _ => rfl⟩

def verdict (disk : Disk) (place : Place) (root : Path) (name : String) : Except Failure Unit :=
  match fault? disk place root name with
  | some fault => .error (refusal fault (filePath root name))
  | none => .ok ()

section

variable {disk : Disk} {current base : Place} {root : Path} {down : List String} {name : String}

private theorem fileName_chars (name : String) : (name ++ fileExtension).toList = name.toList ++ ['.', 'y', 'm', 'l'] := by
  simp [fileExtension]

private theorem fileName_ne (name other : String) (short : other.length < 4) : name ++ fileExtension ≠ other := by
  rintro rfl
  rw [← String.length_toList, fileName_chars, List.length_append] at short
  simp only [List.length_cons, List.length_nil] at short
  omega

theorem rootOf_flat {text : List Char} (flat : '/' ∉ text) : Path.rootOf text = .relative := by
  cases text with
  | nil => rfl
  | cons first rest =>
    have differs : first ≠ '/' := fun same => flat (by simp [same])
    unfold Path.rootOf
    split <;> simp_all

/-- A name without slashes is one component of a path. -/
theorem ofText_fileName {name : String} (flat : '/' ∉ name.toList) :
    Path.ofText (name ++ fileExtension) = ⟨.relative, [name ++ fileExtension]⟩ := by
  have flat : '/' ∉ (name ++ fileExtension).toList := by
    rw [fileName_chars]
    simpa using flat
  have part : Path.isPart (name ++ fileExtension) = true := by
    have notEmpty := fileName_ne name "" (by decide)
    have notDot := fileName_ne name "." (by decide)
    simp [Path.isPart, notEmpty, notDot]
  rw [Path.ofText, rootOf_flat flat, List.splitOn_eq_singleton flat, List.map_singleton, String.ofList_toList, List.filter_cons_of_pos part]
  rfl

theorem filePath_eq (root : Path) (plain : PlainName name) :
    filePath root name = root.child (name ++ fileExtension) := by
  rw [filePath, ofText_fileName plain.flat]
  rfl

theorem isUp_fileName (name : String) : isUp (name ++ fileExtension) = false := by
  have differs := fileName_ne name ".." (by decide)
  simpa [isUp] using differs

theorem holdsNul_filePath (noNul : holdsNul root = false) (plain : PlainName name) :
    holdsNul (filePath root name) = false := by
  have clean : '\x00' ∉ (name ++ fileExtension).toList := by
    rw [fileName_chars]
    simpa using plain.noNul
  rw [filePath_eq root plain]
  simp only [holdsNul, Path.child, List.any_append, List.any_cons, List.any_nil, Bool.or_false, Bool.or_eq_false_iff]
  exact ⟨noNul, by simpa using clean⟩

theorem locate_filePath (sound : disk.Sound) (leads : disk.Leads current root base down) (fits : Fits down)
    (directory : disk.find (base ++ down) = some .directory) (plain : PlainName name) :
    disk.locate current (filePath root name) =
      if TooLong root name then .error .nameTooLong else .ok (target (base ++ down) name) := by
  have straight := isUp_fileName name
  by_cases short : Short (filePath root name)
  · have named : TooLong root name ↔ longestName < (name ++ fileExtension).utf8ByteSize := by simp [TooLong, short]
    rw [filePath_eq root plain] at short ⊢
    rw [(leads.child straight).locate short, follow_append, follow_found sound leads.straight fits (by simp [directory])]
    simp only [named]
    exact follow_part directory straight
  · rw [locate_of_long disk current short, if_pos (.inr short)]

theorem write_filePath (sound : disk.Sound) (leads : disk.Leads current root base down) (fits : Fits down)
    (noNul : holdsNul root = false) (directory : disk.find (base ++ down) = some .directory) (plain : PlainName name)
    (text : String) :
    disk.write current (filePath root name) text =
      match fault? disk (base ++ down) root name with
      | some fault => .error (refusal fault (filePath root name))
      | none => .ok (disk.put (target (base ++ down) name) (.file text)) := by
  rw [write, holdsNul_filePath noNul plain, locate_filePath sound leads fits directory plain, fault?]
  by_cases long : TooLong root name
  · simp only [if_pos long]
    rfl
  · simp only [if_neg long]
    by_cases taken : disk.find (target (base ++ down) name) = some .directory
    · simp only [taken]
      rfl
    · simp only [if_neg taken]
      cases found : disk.find (target (base ++ down) name) with
      | none => rfl
      | some entry =>
        cases entry with
        | file content => rfl
        | directory => exact absurd found taken

/-- How files with the given names and texts are written into a directory. -/
structure Wrote (before after : Disk) (place : Place) (root : Path) (files : List (String × String)) : Prop where
  sound : after.Sound
  written : ∀ file ∈ files, fault? before place root file.1 = none → after.find (target place file.1) = some (.file file.2)
  kept : ∀ other, (∀ file ∈ files, fault? before place root file.1 = none → other ≠ target place file.1) →
    after.find other = before.find other

theorem fault?_put_of_ne {place : Place} {other : String} (differs : other ≠ name) (entry : Entry) :
    fault? (disk.put (target place name) entry) place root other = fault? disk place root other := by
  rw [fault?, fault?, find_put_of_ne (mt target_inj.mp differs)]

section
variable {after : Disk} {place : Place} {files : List (String × String)} {file : String × String}

/-- A file that is refused changes nothing for the others. -/
theorem Wrote.refused {fault : DiskFault} (found : fault? disk place root file.1 = some fault) (more : Wrote disk after place root files) :
    Wrote disk after place root (file :: files) where
  sound := more.sound
  written := by
    intro other member free
    rcases List.mem_cons.mp member with rfl | later
    · rw [found] at free
      cases free
    · exact more.written other later free
  kept := fun other differs => more.kept other fun file member => differs file (List.mem_cons_of_mem _ member)

/-- A file that is written stays, since the others have other names. -/
theorem Wrote.accepted (found : fault? disk place root file.1 = none) (apart : ∀ other ∈ files, other.1 ≠ file.1)
    (more : Wrote (disk.put (target place file.1) (.file file.2)) after place root files) : Wrote disk after place root (file :: files) := by
  have same : ∀ other ∈ files, fault? (disk.put (target place file.1) (.file file.2)) place root other.1 = fault? disk place root other.1 :=
    fun other member => fault?_put_of_ne (apart other member) _
  refine ⟨more.sound, ?_, ?_⟩
  · intro other member accepted
    rcases List.mem_cons.mp member with rfl | later
    · rw [more.kept]
      · exact find_put (target_ne_nil _ _) _
      · intro another member _ clash
        exact apart another member (target_inj.mp clash).symm
    · exact more.written other later (by rw [same other later, accepted])
  · intro other differs
    rw [more.kept other]
    · exact find_put_of_ne (differs file List.mem_cons_self found) _
    · intro another member accepted
      exact differs another (List.mem_cons_of_mem _ member) (by rw [← same another member, accepted])

end

theorem writeFiles_wrote (sound : disk.Sound) (leads : disk.Leads current root base down) (fits : Fits down)
    (noNul : holdsNul root = false) (directory : disk.find (base ++ down) = some .directory)
    (files : List (String × String)) (plain : ∀ file ∈ files, PlainName file.1)
    (distinct : (files.map Prod.fst).Nodup) :
    ∃ after, writeFiles current disk (files.map fun file => (filePath root file.1, file.2)) =
        (after, files.map fun file => (filePath root file.1, verdict disk (base ++ down) root file.1)) ∧
      Wrote disk after (base ++ down) root files := by
  induction files generalizing disk with
  | nil => exact ⟨disk, rfl, sound, by simp, fun _ _ => rfl⟩
  | cons file files ih =>
    obtain ⟨name, text⟩ := file
    rw [List.map_cons, List.nodup_cons] at distinct
    have plainMore : ∀ file ∈ files, PlainName file.1 := fun file member => plain file (List.mem_cons_of_mem _ member)
    have wrote := write_filePath sound leads fits noNul directory (plain (name, text) List.mem_cons_self) text
    cases found : fault? disk (base ++ down) root name with
    | some fault =>
      obtain ⟨after, results, more⟩ := ih sound leads directory plainMore distinct.2
      refine ⟨after, ?_, more.refused found⟩
      rw [found] at wrote
      simp only [List.map_cons, writeFiles, wrote, results, verdict, found]
    | none =>
      have free : disk.find (target (base ++ down) name) ≠ some .directory :=
        (fault?_eq_none.mp found).2
      have keeps : ∀ place, disk.find place = some .directory →
          (disk.put (target (base ++ down) name) (.file text)).find place = some .directory := by
        intro place there
        rw [find_put_of_ne]
        · exact there
        · rintro rfl
          exact free there
      have apart : ∀ file ∈ files, file.1 ≠ name := by
        intro file member same
        exact distinct.1 (List.mem_map.mpr ⟨file, member, same⟩)
      have soundNow : (disk.put (target (base ++ down) name) (.file text)).Sound := sound.put directory free
      obtain ⟨after, results, more⟩ := ih soundNow (leads.mono keeps) (keeps _ directory) plainMore distinct.2
      refine ⟨after, ?_, more.accepted found apart⟩
      have verdicts : files.map (fun file => (filePath root file.1,
            verdict (disk.put (target (base ++ down) name) (.file text)) (base ++ down) root file.1)) =
          files.map fun file => (filePath root file.1, verdict disk (base ++ down) root file.1) := by
        apply List.map_congr_left
        intro file member
        rw [verdict, verdict, fault?_put_of_ne (apart file member)]
      rw [found] at wrote
      simp only [List.map_cons, writeFiles, wrote, results, verdicts]
      rw [verdict, found]

theorem Wrote.perm {before after : Disk} {place : Place} {files others : List (String × String)}
    (wrote : Wrote before after place root files) (perm : files.Perm others) : Wrote before after place root others where
  sound := wrote.sound
  written := fun file member => wrote.written file (perm.mem_iff.mpr member)
  kept := fun other apart => wrote.kept other fun file member => apart file (perm.mem_iff.mp member)

theorem exists_perm_of_map {items : List α} {results : List β} {make : α → β} (same : results.Perm (items.map make)) :
    ∃ shuffled : List α, shuffled.Perm items ∧ results = shuffled.map make := by
  have both : Relation.Comp (fun results shuffled => results = List.map make shuffled) List.Perm results items := by
    rw [List.eq_map_comp_perm]
    exact same
  obtain ⟨shuffled, made, perm⟩ := both
  exact ⟨shuffled, perm, made⟩

/-- The same is written in every order, and each file fares the same. -/
theorem writeFiles_in_order {order : Order} (shuffles : ∀ files, (order files).Perm files) (sound : disk.Sound)
    (leads : disk.Leads current root base down) (fits : Fits down) (noNul : holdsNul root = false)
    (directory : disk.find (base ++ down) = some .directory) (files : List (String × String))
    (plain : ∀ file ∈ files, PlainName file.1) (distinct : (files.map Prod.fst).Nodup) :
    ∃ (after : Disk) (names : List String), names.Perm (files.map Prod.fst) ∧
      writeFiles current disk (order (files.map fun file => (filePath root file.1, file.2))) =
        (after, names.map fun name => (filePath root name, verdict disk (base ++ down) root name)) ∧
      Wrote disk after (base ++ down) root files := by
  obtain ⟨shuffled, perm, ordered⟩ := exists_perm_of_map (shuffles (files.map fun file => (filePath root file.1, file.2)))
  have names := perm.map Prod.fst
  obtain ⟨after, run, wrote⟩ := writeFiles_wrote sound leads fits noNul directory shuffled
    (fun file member => plain file (perm.mem_iff.mp member)) (names.nodup_iff.mpr distinct)
  refine ⟨after, shuffled.map Prod.fst, names, ?_, wrote.perm perm⟩
  rw [ordered, run, List.map_map]
  rfl

/-- The files of workflows are written with their texts. -/
theorem writeTrees_in_order {order : Order} (shuffles : ∀ files, (order files).Perm files) (sound : disk.Sound)
    (leads : disk.Leads current root base down) (fits : Fits down) (noNul : holdsNul root = false)
    (directory : disk.find (base ++ down) = some .directory) (files : List (String × Tree))
    (plain : ∀ file ∈ files, PlainName file.1) (distinct : (files.map Prod.fst).Nodup) :
    ∃ (after : Disk) (names : List String), names.Perm (files.map Prod.fst) ∧
      writeFiles current disk (order (files.map fun file => (filePath root file.1, fileText file.2))) =
        (after, names.map fun name => (filePath root name, verdict disk (base ++ down) root name)) ∧
      Wrote disk after (base ++ down) root (files.map fun file => (file.1, fileText file.2)) := by
  have named : (files.map fun file => (file.1, fileText file.2)).map Prod.fst = files.map Prod.fst := by simp
  obtain ⟨after, names, perm, run, wrote⟩ := writeFiles_in_order shuffles sound leads fits noNul directory
    (files.map fun file => (file.1, fileText file.2)) (List.forall_mem_map.mpr plain) (by rwa [named])
  rw [named] at perm
  rw [List.map_map] at run
  exact ⟨after, names, perm, run, wrote⟩

end

end WorkflowCompiler.Publish
