import WorkflowCompiler.Proofs.RenderedFiles

/-! What a run of `generate` leaves on the disk, and how it ends. Either nothing changes, or every
file that nothing stands in the way of is there, whatever the order in which they were written. -/

namespace WorkflowCompiler.Publish
open Disk

/-- The file of a name cannot be written: it is too long for the disk, or a directory that is not
cleaned up is in its place. -/
def Refused (before : Disk) (place : Place) (root : Path) (cleanup : Bool) (name : String) : Prop :=
  TooLong root name ∨ cleanup = false ∧ before.find (target place name) = some .directory

instance (before : Disk) (place : Place) (root : Path) (cleanup : Bool) (name : String) :
    Decidable (Refused before place root cleanup name) := inferInstanceAs (Decidable (_ ∨ _))

/-- The files that cannot be written. -/
def refused (before : Disk) (place : Place) (root : Path) (cleanup : Bool) (files : List (String × Tree)) :
    List (String × Tree) := files.filter fun file => Refused before place root cleanup file.1

def refusalOf (root : Path) (name : String) : Failure :=
  refusal (if TooLong root name then .nameTooLong else .isDirectory) (filePath root name)

/-- What is left of a run that could prepare its directory. -/
structure Published (before : Disk) (place : Place) (root : Path) (cleanup : Bool) (files : List (String × Tree))
    (outcome : Outcome) : Prop where
  sound : outcome.disk.Sound
  directory : outcome.disk.find place = some .directory
  written : ∀ file ∈ files, ¬ Refused before place root cleanup file.1 →
    outcome.disk.find (target place file.1) = some (.file (fileText file.2))
  emptied : cleanup = true → ∀ other, Below place other →
    (∀ file ∈ files, ¬ Refused before place root cleanup file.1 → other ≠ target place file.1) →
    outcome.disk.find other = none
  /-- Only directories that lead to the place are new. -/
  kept : ∀ other, (cleanup = true → ¬ Below place other) →
    (∀ file ∈ files, ¬ Refused before place root cleanup file.1 → other ≠ target place file.1) →
    ¬ (other <+: place ∧ before.find other = none) → outcome.disk.find other = before.find other
  succeeded : outcome.result = .ok () ↔ refused before place root cleanup files = []
  failed : refused before place root cleanup files ≠ [] → ∃ children,
    outcome.result =
        .error (.mk (.notWritten (refused before place root cleanup files).length files.length root.text) children) ∧
      children.Perm ((refused before place root cleanup files).map fun file => refusalOf root file.1)

/-- A path that the disk can have a directory at. With `cleanup` it leads there still when the
directory is empty, and the path of nothing in the directory is too long to be removed. -/
structure Usable (disk : Disk) (current : Place) (root : Path) (cleanup : Bool) (base : Place)
    (down : List String) : Prop where
  leads : disk.Leads current root base down
  stays : cleanup = true → (disk.clear (base ++ down)).Leads current root base down
  children : cleanup = true → ShortWithin disk root (base ++ down)
  short : Short root
  fits : Fits down
  noNul : holdsNul root = false

section

variable {disk prepared : Disk} {place base : Place} {root : Path} {down : List String} {cleanup : Bool}

theorem fault?_prepared (ready : Prepared disk prepared base down cleanup) (name : String) :
    fault? prepared (base ++ down) root name =
      if Refused disk (base ++ down) root cleanup name then some (if TooLong root name then .nameTooLong else .isDirectory)
      else none := by
  have below : Below (base ++ down) (target (base ++ down) name) := ⟨List.prefix_append _ _, by simp [target]⟩
  have apart : ∀ front, front <+: down → target (base ++ down) name ≠ base ++ front := by
    intro front leads same
    have short := leads.length_le
    have long := congrArg List.length same
    simp only [target, List.length_append, List.length_singleton] at long
    omega
  rw [fault?]
  by_cases long : TooLong root name
  · rw [if_pos long, if_pos (.inl long), if_pos long]
  · rw [if_neg long, if_neg long]
    cases cleanup with
    | true =>
      rw [ready.emptied rfl _ below, if_neg (by simp), if_neg]
      rintro (tooLong | ⟨never, -⟩)
      · exact long tooLong
      · cases never
    | false =>
      rw [ready.kept _ (by simp) apart]
      have same : Refused disk (base ++ down) root false name ↔ disk.find (target (base ++ down) name) = some .directory := by
        rw [Refused]
        exact ⟨fun refused => (refused.resolve_left long).2, fun taken => .inr ⟨rfl, taken⟩⟩
      simp only [same]

theorem fault?_prepared_eq_none (ready : Prepared disk prepared base down cleanup) (name : String) :
    fault? prepared (base ++ down) root name = none ↔ ¬ Refused disk (base ++ down) root cleanup name := by
  rw [fault?_prepared ready]
  split
  · next refused => simp [refused]
  · next accepted => simp [accepted]

/-- A root without `..` after another component leads where it leads whatever is cleaned up. -/
theorem usable_of_straight {current : Place} (sound : disk.Sound) (here : disk.find current = some .directory)
    (straight : Straight (root.parts.dropWhile isUp)) (short : Short root) (fits : Fits (root.parts.dropWhile isUp))
    (noNul : holdsNul root = false) {cleanup : Bool}
    (children : cleanup = true → ShortWithin disk root (start current root ++ root.parts.dropWhile isUp)) :
    Usable disk current root cleanup (start current root) (root.parts.dropWhile isUp) where
  leads := leads_start (find_start sound here root) straight
  stays := by
    intro _
    refine leads_start ?_ straight
    rw [find_clear, if_neg]
    · exact find_start sound here root
    · rintro ⟨leads, differs⟩
      exact differs (leads.eq_of_length_le (by simp)).symm
  children := children
  short := short
  fits := fits
  noNul := noNul

/-- The failures of the files that could not be written, in the order in which they were tried. -/
theorem summary_verdicts (root : Path) (disk : Disk) (place : Place) (names : List String) :
    let failures := names.filterMap fun name => (fault? disk place root name).map (refusal · (filePath root name))
    summary root (names.map fun name => (filePath root name, verdict disk place root name)) =
      if failures.isEmpty then .ok ()
      else .error (.mk (.notWritten failures.length names.length root.text) (failures.mergeSort byReport)) := by
  intro failures
  have collected : (names.map fun name => (filePath root name, verdict disk place root name)).filterMap
      failureOf = failures := by
    rw [List.filterMap_map]
    apply List.filterMap_congr
    intro name _
    simp only [Function.comp, verdict]
    cases fault? disk place root name <;> rfl
  have disks : failures.find? (!isDiskFault ·) = none := by
    rw [List.find?_eq_none]
    intro failure member
    obtain ⟨name, -, made⟩ := List.mem_filterMap.mp member
    obtain ⟨fault, -, rfl⟩ := Option.map_eq_some_iff.mp made
    simp [isDiskFault, refusal, Failure.category, Failure.ofCause, Failure.cause, Cause.category]
  rw [summary, collected]
  simp only [disks, List.length_map]

/-- The failures, by the names of the files, are those of the files that cannot be written. -/
theorem failures_prepared (ready : Prepared disk prepared base down cleanup) (files : List (String × Tree)) :
    (files.map Prod.fst).filterMap (fun name =>
        (fault? prepared (base ++ down) root name).map (refusal · (filePath root name))) =
      (refused disk (base ++ down) root cleanup files).map fun file => refusalOf root file.1 := by
  rw [refused, List.filterMap_map, ← List.filterMap_eq_map, List.filterMap_filter]
  apply List.filterMap_congr
  intro file _
  simp only [Function.comp, fault?_prepared ready]
  by_cases stands : Refused disk (base ++ down) root cleanup file.1
  · simp [stands, refusalOf]
  · simp [stands]

/-- Once the directory is there, what can be written is, and the rest is summed up. -/
theorem publishes {order : Order} (shuffles : ∀ files, (order files).Perm files) {current : Place}
    {files : List (String × Tree)} (plain : ∀ file ∈ files, PlainName file.1) (distinct : (files.map Prod.fst).Nodup)
    (free : ¬ Blocked disk base down) (ready : Prepared disk prepared base down cleanup)
    (leads : prepared.Leads current root base down) (fits : Fits down) (noNul : holdsNul root = false)
    (notes : List Note) :
    let results := writeFiles current prepared (order (files.map fun file => (filePath root file.1, fileText file.2)))
    Published disk (base ++ down) root cleanup files
      ⟨results.1, notes ++ written results.2, summary root results.2⟩ := by
  have directory : prepared.find (base ++ down) = some .directory := ready.made down List.prefix_rfl
  obtain ⟨after, names, perm, run, wrote⟩ :=
    writeTrees_in_order shuffles ready.sound leads fits noNul directory files plain distinct
  have accepted : ∀ name, fault? prepared (base ++ down) root name = none ↔ ¬ Refused disk (base ++ down) root cleanup name :=
    fault?_prepared_eq_none ready
  have untouched : ∀ other, (∀ file ∈ files, ¬ Refused disk (base ++ down) root cleanup file.1 →
      other ≠ target (base ++ down) file.1) → after.find other = prepared.find other := by
    intro other apart
    refine wrote.kept other fun writing member free => ?_
    obtain ⟨file, inside, rfl⟩ := List.mem_map.mp member
    exact apart file inside ((accepted _).mp free)
  have failures := perm.filterMap fun name => (fault? prepared (base ++ down) root name).map (refusal · (filePath root name))
  rw [failures_prepared ready] at failures
  have verdicts := summary_verdicts root prepared (base ++ down) names
  simp only [failures.length_eq, perm.length_eq, List.length_map, ← List.length_eq_zero_iff, List.isEmpty_iff] at verdicts
  intro results
  have ran : results = (after, names.map fun name => (filePath root name, verdict prepared (base ++ down) root name)) :=
    run
  rw [ran]
  refine ⟨wrote.sound, ?_, ?_, ?_, ?_, ?_, ?_⟩
  · show after.find (base ++ down) = _
    rw [untouched, directory]
    intro file _ _ clash
    have long := congrArg List.length clash
    simp [target] at long
  · intro file member free
    exact wrote.written _ (List.mem_map_of_mem member) ((accepted _).mpr free)
  · intro wanted other below apart
    show after.find other = _
    rw [untouched other apart, ready.emptied wanted other below]
  · intro other outside apart old
    show after.find other = _
    rw [untouched other apart]
    by_cases onTheWay : ∃ front, front <+: down ∧ other = base ++ front
    · obtain ⟨front, leads, rfl⟩ := onTheWay
      rw [ready.made front leads]
      cases found : disk.find (base ++ front) with
      | none => exact absurd ⟨List.prefix_append_right_inj base |>.mpr leads, found⟩ old
      | some entry =>
        cases entry with
        | file content => exact absurd ⟨front, leads, content, found⟩ free
        | directory => rfl
    · exact ready.kept other outside fun front leads same => onTheWay ⟨front, leads, same⟩
  · show summary root _ = _ ↔ _
    rw [verdicts]
    split
    · next none => simpa using List.length_eq_zero_iff.mp none
    · next some => simpa using fun none => some (by rw [none]; rfl)
  · intro some
    refine ⟨_, ?_, (List.mergeSort_perm _ byReport).trans failures⟩
    show summary root _ = _
    rw [verdicts, if_neg (mt List.length_eq_zero_iff.mp some)]

section runs

variable {order : Order} {store : Store} {current : Place} {workflows : List Value}
  {entries : List (Value × WorkflowRecord)}

theorem generateIn_unprepared {failure : Failure} (order : Order) (rendered : records store workflows = .ok entries)
    (unmade : prepare disk current root cleanup = (prepared, .error failure)) :
    (generateIn order store current disk workflows root cleanup).result = .error failure ∧
      (generateIn order store current disk workflows root cleanup).disk = prepared := by
  simp only [generateIn, rendered, unmade]
  exact ⟨trivial, trivial⟩

theorem generateIn_blocked (sound : disk.Sound) (rendered : records store workflows = .ok entries)
    (usable : Usable disk current root cleanup base down) (blocked : Blocked disk base down) :
    (∃ fault, (generateIn order store current disk workflows root cleanup).result = .error (refusal fault root)) ∧
      (generateIn order store current disk workflows root cleanup).disk = disk := by
  obtain ⟨fault, refused⟩ := prepare_blocked sound usable.leads usable.short usable.fits usable.noNul blocked cleanup
  obtain ⟨failed, same⟩ := generateIn_unprepared order rendered refused
  exact ⟨⟨fault, failed⟩, same⟩

theorem generateIn_published (shuffles : ∀ files, (order files).Perm files) (sound : disk.Sound)
    (plain : ∀ workflow ∈ workflows, Named PlainName store workflow) (rendered : records store workflows = .ok entries)
    (usable : Usable disk current root cleanup base down) (free : ¬ Blocked disk base down) :
    ∃ files, Renders store workflows files ∧
      Published disk (base ++ down) root cleanup files (generateIn order store current disk workflows root cleanup) := by
  obtain ⟨files, renders, filed, distinct⟩ := records_render plain rendered
  obtain ⟨prepared, made, ready, leads⟩ :=
    prepare_prepared sound usable.leads usable.short usable.fits usable.noNul free usable.stays usable.children
  refine ⟨files, renders, ?_⟩
  have published := publishes shuffles (renders.names plain) distinct free ready leads usable.fits usable.noNul
    (if cleanup then [Note.emptying root] else [])
  simp only [generateIn, rendered, made, texts_filed root filed]
  exact published

end runs

end

/-- Every run of `generate`, in whatever order it writes its files. Workflows that cannot be rendered
and a regular file in the way of the directory leave the disk as it is. -/
theorem generateIn_outcome {order : Order} (shuffles : ∀ files, (order files).Perm files) (store : Store)
    (current : Place) {disk : Disk} (sound : disk.Sound) {workflows : List Value}
    (plain : ∀ workflow ∈ workflows, Named PlainName store workflow) (root : Path) (cleanup : Bool) :
    let outcome := generateIn order store current disk workflows root cleanup
    (∀ failure, records store workflows = .error failure → outcome.result = .error failure ∧ outcome.disk = disk) ∧
      ∀ entries, records store workflows = .ok entries → ∀ base down, Usable disk current root cleanup base down →
        (Blocked disk base down → (∃ fault, outcome.result = .error (refusal fault root)) ∧ outcome.disk = disk) ∧
        (¬ Blocked disk base down → ∃ files, Renders store workflows files ∧
          Published disk (base ++ down) root cleanup files outcome) := by
  intro outcome
  refine ⟨?_, fun entries rendered base down usable => ⟨?_, ?_⟩⟩
  · intro failure failed
    simp only [outcome, generateIn, failed]
    exact ⟨trivial, trivial⟩
  · exact generateIn_blocked sound rendered usable
  · exact generateIn_published shuffles sound plain rendered usable

/-- A directory that holds another one, with a file next to it. -/
def crowded : Disk :=
  ⟨[(["out"], .directory), (["out", "ci.yml"], .directory), (["out", "ci.yml", "a"], .file "a"), (["b"], .file "b")]⟩

theorem crowded_sound : crowded.Sound := sound_of_entries (by decide) (by decide) (by decide)

theorem generateIn_crowded :
    ∃ files, Renders (nameOnly "ci") [.workflow 0] files ∧ Published crowded ["out"] ⟨.relative, ["out"]⟩ true files
      (generateIn List.reverse (nameOnly "ci") [] crowded [.workflow 0] ⟨.relative, ["out"]⟩ true) := by
  have valid : PlainName "ci" := ⟨by decide, by decide, by decide⟩
  have children : ShortWithin crowded ⟨.relative, ["out"]⟩ ["out"] := (shortWithin_iff crowded_sound).mpr (by decide)
  have usable : Usable crowded [] ⟨.relative, ["out"]⟩ true [] ["out"] :=
    usable_of_straight crowded_sound rfl (by decide) (by decide) (by decide) (by decide) fun _ => children
  have free : ¬ Blocked crowded [] ["out"] := by
    rintro ⟨front, leads, content, file⟩
    have ends : front <+: [] ++ ["out"] := leads
    rcases List.prefix_concat_iff.mp ends with rfl | above
    · cases file
    · rw [List.prefix_nil.mp above] at file
      cases file
  exact ((generateIn_outcome List.reverse_perm (nameOnly "ci") [] crowded_sound (nameOnly_named valid)
    ⟨.relative, ["out"]⟩ true).2 _ rfl [] ["out"] usable).2 free

/-- As many letters as two to the power of `times`. -/
def letters : Nat → String
  | 0 => "a"
  | times + 1 => letters times ++ letters times

theorem utf8ByteSize_letters (times : Nat) : (letters times).utf8ByteSize = 2 ^ times := by
  induction times with
  | zero => rfl
  | succ times ih => rw [letters, String.utf8ByteSize_append, ih, ← Nat.two_mul, Nat.pow_succ']

theorem mem_letters {times : Nat} {c : Char} (member : c ∈ (letters times).toList) : c = 'a' := by
  induction times with
  | zero => simpa [letters] using member
  | succ times ih => exact ih (by simpa [letters] using member)

theorem plainName_letters (times : Nat) : PlainName (letters times) where
  named := by
    intro empty
    have size := utf8ByteSize_letters times
    rw [empty] at size
    exact absurd size.symm (Nat.two_pow_pos times).ne'
  flat := fun member => absurd (mem_letters member) (by decide)
  noNul := fun member => absurd (mem_letters member) (by decide)

/-- A path down through so many directories of one letter, one more than `depth`. -/
def burrow (depth : Nat) : Path := ⟨.relative, List.replicate (depth + 1) "a"⟩

theorem utf8ByteSize_text {parts : List String} (filled : 0 < ("/".intercalate parts).utf8ByteSize) :
    (Path.text ⟨.relative, parts⟩).utf8ByteSize = ("/".intercalate parts).utf8ByteSize := by
  have named : (Path.rootText .relative ++ "/".intercalate parts).isEmpty = false := by
    rw [Bool.eq_false_iff]
    intro empty
    have none := congrArg String.utf8ByteSize (String.isEmpty_iff.mp empty)
    rw [String.utf8ByteSize_append] at none
    exact absurd none (Nat.ne_of_gt (Nat.add_pos_right _ filled))
  rw [Path.text, named, if_neg (by simp), String.utf8ByteSize_append]
  exact Nat.zero_add _

theorem utf8ByteSize_burrow (depth : Nat) : (burrow depth).text.utf8ByteSize = 2 * depth + 1 := by
  have written : ("/".intercalate (List.replicate (depth + 1) "a")).utf8ByteSize = 2 * depth + 1 := by
    induction depth with
    | zero => rfl
    | succ depth ih =>
      rw [List.replicate_succ, List.replicate_succ, String.intercalate_cons_cons, ← List.replicate_succ, String.utf8ByteSize_append, ih]
      show 1 + 1 + (2 * depth + 1) = _
      omega
  rw [burrow, utf8ByteSize_text (by omega), written]

theorem holdsNul_burrow (depth : Nat) : holdsNul (burrow depth) = false := by
  rw [holdsNul, List.any_eq_false]
  intro part member
  rw [List.eq_of_mem_replicate member]
  decide

section

variable {root : Path}

/-- A root that the disk takes for too long cannot be made. -/
theorem generate_fails_of_long {name : String} (noNul : holdsNul root = false)
    (located : ∀ disk : Disk, disk = {} → disk.locate [] root = .error .nameTooLong) :
    (generate (nameOnly name) [] {} [.workflow 0] root false).result ≠ .ok () := by
  have refused := located {} rfl
  have unmade : prepare {} [] root false = ({}, .error (refusal .nameTooLong root)) := by
    simp only [prepare, makePath, noNul, makeDirectories, makeDirectory_of_refused refused, settle, isAt,
      status_of_refused refused]
    rfl
  rw [generate, (generateIn_unprepared id (records_nameOnly name) unmade).1]
  simp

end

/-- On an empty disk nothing is in the way of a file, and still a run can fail: a name can be too
long, for a file or for the directory; the path to the directory can be, although each of its names is
short; the path can be none; and a `..` can leave what is not there. -/
theorem generate_fails_on_empty_disk :
    ((∀ workflow ∈ [Value.workflow 0], Named PlainName (nameOnly (letters 8)) workflow) ∧
      (∃ entries, records (nameOnly (letters 8)) [.workflow 0] = .ok entries) ∧
      (generate (nameOnly (letters 8)) [] {} [.workflow 0] ⟨.relative, ["out"]⟩ false).result ≠ .ok ()) ∧
    (∀ workflow ∈ [Value.workflow 0], Named PlainName (nameOnly "ci") workflow) ∧
      (∃ entries, records (nameOnly "ci") [.workflow 0] = .ok entries) ∧
      (generate (nameOnly "ci") [] {} [.workflow 0] ⟨.relative, [letters 8]⟩ false).result ≠ .ok () ∧
      (generate (nameOnly "ci") [] {} [.workflow 0] (burrow 2099) false).result ≠ .ok () ∧
      (generate (nameOnly "ci") [] {} [.workflow 0] ⟨.relative, ["\x00"]⟩ false).result.isOk = false ∧
      (generate (nameOnly "ci") [] {} [.workflow 0] ⟨.relative, ["missing", ".."]⟩ true).result.isOk = false := by
  have valid : PlainName "ci" := ⟨by decide, by decide, by decide⟩
  have long : longestName < (letters 8).utf8ByteSize := by
    rw [utf8ByteSize_letters]
    decide
  refine ⟨⟨nameOnly_named (plainName_letters 8), ⟨_, records_nameOnly _⟩, ?_⟩, nameOnly_named valid,
    ⟨_, records_nameOnly _⟩, ?_, ?_, ?_, ?_⟩
  · have usable : Usable {} [] ⟨.relative, ["out"]⟩ false [] ["out"] :=
      usable_of_straight sound_empty rfl (by decide) (by decide) (by decide) (by decide) (by simp)
    have free : ¬ Blocked {} [] ["out"] := by
      rintro ⟨front, -, content, file⟩
      cases front <;> cases file
    obtain ⟨files, renders, published⟩ := generateIn_published (fun _ => List.Perm.refl _) sound_empty
      (nameOnly_named (plainName_letters 8)) (records_nameOnly _) usable free
    intro done
    have accepted := published.succeeded.mp done
    cases renders with
    | cons named _ _ _ =>
      cases named
      have tooLong : longestName < (letters 8 ++ fileExtension).utf8ByteSize := by
        rw [String.utf8ByteSize_append]
        omega
      exact List.filter_eq_nil_iff.mp accepted _ List.mem_cons_self (decide_eq_true (.inl (.inl tooLong)))
  · have part : isUp (letters 8) = false := by
      rw [isUp, beq_eq_false_iff_ne]
      intro same
      rw [same] at long
      exact absurd long (by decide)
    have noNul : holdsNul ⟨.relative, [letters 8]⟩ = false := by
      simpa [holdsNul] using (plainName_letters 8).noNul
    refine generate_fails_of_long noNul ?_
    rintro disk rfl
    rw [locate]
    split
    · rfl
    · simp [reach, start, part, follow, Path.climb, long]
  · refine generate_fails_of_long (holdsNul_burrow _) fun disk _ => locate_of_long disk [] ?_
    rw [Short, utf8ByteSize_burrow]
    decide
  · decide
  · decide

end WorkflowCompiler.Publish
