import WorkflowCompiler.Proofs.FilesApart

/-! What a run of `generate` has written when it ends. It ends without a failure exactly when it wrote every file and each
file holds its text; what it fails with otherwise is a fault of the workflows, or one of the disk. -/

namespace WorkflowCompiler.Publish
open Disk

/-- The file was written in this run, and holds its text. -/
structure Delivered (outcome : Outcome) (current : Place) (root : Path) (file : String × Tree) : Prop where
  noted : .wrote (filePath root file.1) ∈ outcome.notes
  held : outcome.disk.find (target (placeOf current root) file.1) = some (.file (fileText file.2))

/-- What becomes of all else: it stays, but for what is in a directory that is emptied. -/
structure Spares (before after : Disk) (place : Place) (files : List (String × Tree)) (cleanup : Bool) : Prop where
  emptied : cleanup = true → ∀ other, Below place other → (∀ file ∈ files, other ≠ target place file.1) → after.find other = none
  kept : ∀ other entry, (cleanup = true → ¬ Below place other) → (∀ file ∈ files, other ≠ target place file.1) →
    before.find other = some entry → after.find other = some entry

section

variable {disk prepared after : Disk} {current : Place} {root path : Path} {cleanup : Bool} {failure : Failure}
  {files : List (String × Tree)}

theorem isAt_error {wanted : Entry → Bool} (failed : disk.isAt current path wanted = .error failure) :
    ∃ fault, failure = refusal fault path := by
  rw [isAt] at failed
  split at failed
  · cases failed
  · cases failed
  · cases failed
  next fault _ _ _ =>
    cases failed
    exact ⟨fault, rfl⟩

theorem settle_error {lenient : Bool} {fault : DiskFault} (failed : disk.settle current lenient path fault = .error failure) :
    ∃ fault, failure = refusal fault path := by
  rw [settle] at failed
  rcases error_of_bind failed with asked | ⟨there, -, failed⟩
  · exact isAt_error asked
  · split at failed
    · cases failed
    · cases failed
      exact ⟨fault, rfl⟩

theorem makeDirectories_error {lenient : Bool} {depth : Nat}
    (failed : disk.makeDirectories current lenient path depth = (after, .error failure)) : ∃ fault path, failure = refusal fault path := by
  induction depth generalizing path lenient after with
  | zero =>
    cases failed
    exact ⟨_, _, rfl⟩
  | succ depth ih =>
    rw [makeDirectories] at failed
    split at failed
    · cases failed
    · split at failed
      · cases failed
        exact ⟨_, _, rfl⟩
      split at failed
      next _ above =>
        cases failed
        exact ih above
      next =>
        split at failed
        · cases failed
        next =>
          obtain ⟨fault, same⟩ := settle_error (Prod.mk.inj failed).2
          exact ⟨fault, _, same⟩
    next =>
      obtain ⟨fault, same⟩ := settle_error (Prod.mk.inj failed).2
      exact ⟨fault, _, same⟩

theorem makePath_error {lenient : Bool} (noNul : holdsNul path = false)
    (failed : disk.makePath current lenient path = (after, .error failure)) : ∃ fault path, failure = refusal fault path := by
  rw [makePath, noNul] at failed
  exact makeDirectories_error failed

/-- A directory that cannot be prepared is refused by the disk. -/
theorem prepare_error (noNul : holdsNul root = false) (failed : prepare disk current root cleanup = (after, .error failure)) :
    ∃ fault path, failure = refusal fault path := by
  rw [prepare, noNul] at failed
  cases cleanup with
  | false => exact makePath_error noNul failed
  | true =>
    simp only [Bool.not_true, Bool.false_eq_true, if_false] at failed
    split at failed
    next asked =>
      cases failed
      obtain ⟨fault, same⟩ := isAt_error asked
      exact ⟨fault, _, same⟩
    · exact makePath_error noNul failed
    · split at failed
      · cases failed
        exact ⟨_, _, rfl⟩
      · split at failed
        · cases failed
          exact ⟨_, _, rfl⟩
        · obtain ⟨name, same⟩ := removeAll_error failed
          exact ⟨_, _, same⟩

theorem write_error {text : String} (noNul : holdsNul path = false) (failed : disk.write current path text = .error failure) :
    ∃ fault, failure = refusal fault path := by
  rw [write, noNul] at failed
  simp only [Bool.false_eq_true, if_false] at failed
  split at failed
  next fault _ =>
    cases failed
    exact ⟨fault, rfl⟩
  · split at failed
    · cases failed
      exact ⟨_, rfl⟩
    · cases failed

theorem writeFiles_error {files : List (Path × String)} (noNul : ∀ file ∈ files, holdsNul file.1 = false) :
    ∀ result ∈ (writeFiles current disk files).2, ∀ failure, result.2 = .error failure → isDiskFault failure = true := by
  induction files generalizing disk with
  | nil => simp [writeFiles]
  | cons file files ih =>
    obtain ⟨here, later⟩ := List.forall_mem_cons.mp noNul
    rw [writeFiles]
    split
    next => exact List.forall_mem_cons.mpr ⟨by simp, ih later⟩
    next refused =>
      refine List.forall_mem_cons.mpr ⟨?_, ih later⟩
      intro failure same
      cases same
      obtain ⟨fault, rfl⟩ := write_error here refused
      rfl

/-- Where only the disk refuses files, their failures are summed up. -/
theorem summary_error {results : List (Path × Except Failure Unit)}
    (refused : ∀ result ∈ results, ∀ failure, result.2 = .error failure → isDiskFault failure = true)
    (failed : summary root results = .error failure) : failure.category = .write := by
  have disks : (results.filterMap failureOf).find? (!isDiskFault ·) = none := by
    rw [List.find?_eq_none]
    intro fault member
    obtain ⟨⟨path, ended⟩, inside, made⟩ := List.mem_filterMap.mp member
    cases ended with
    | ok done => cases made
    | error other =>
      cases made
      simp [refused _ inside _ rfl]
  rw [summary] at failed
  simp only [disks] at failed
  split at failed
  · cases failed
  · cases failed
    rfl

/-- Emptying leaves nothing, wherever the path leads now. -/
theorem prepare_emptied (sound : disk.Sound) (here : disk.find current = some .directory)
    (ready : prepare disk current root true = (prepared, .ok ())) {other : Place} (below : Below (placeOf current root) other) :
    prepared.find other = none := by
  have made : disk.makePath current false root = (prepared, .ok ()) → prepared.find other = none := by
    intro made
    obtain ⟨-, place, arrived, empty⟩ := makePath_arrived sound here made
    obtain rfl := locate_climb arrived.located
    exact empty rfl other below
  rw [prepare] at ready
  split at ready
  next never => cases never
  split at ready
  · exact made ready
  split at ready
  · cases ready
  · exact made ready
  split at ready
  · cases ready
  next place located =>
    split at ready
    · cases ready
    · obtain ⟨-, rfl⟩ := (empty_ok sound).mp ready
      obtain rfl := locate_climb located
      rw [find_clear, if_pos below]

/-- Preparing a directory removes nothing but what it is emptied of. -/
theorem prepare_kept (sound : disk.Sound) (here : disk.find current = some .directory)
    (ready : prepare disk current root cleanup = (prepared, .ok ())) {other : Place} {entry : Entry}
    (outside : cleanup = true → ¬ Below (placeOf current root) other) (found : disk.find other = some entry) :
    prepared.find other = some entry := by
  have made : ∀ lenient, disk.makePath current lenient root = (prepared, .ok ()) → prepared.find other = some entry := by
    intro lenient made
    obtain ⟨-, place, arrived, -⟩ := makePath_arrived sound here made
    cases entry with
    | file text => exact (arrived.files other text).mpr found
    | directory => exact arrived.directories other found
  rw [prepare] at ready
  split at ready
  · exact made true ready
  next wanted =>
    have outside := outside (by simpa using wanted)
    split at ready
    · exact made false ready
    split at ready
    · cases ready
    · exact made false ready
    split at ready
    · cases ready
    next place located =>
      split at ready
      · cases ready
      · obtain rfl := locate_climb located
        obtain ⟨-, rfl⟩ := (empty_ok sound).mp ready
        rw [find_clear, if_neg outside, found]

end

section runs

variable {order : Order} {store : Store} {current : Place} {disk prepared : Disk} {workflows : List Value}
  {entries : List (Value × WorkflowRecord)} {root : Path} {cleanup : Bool} {files : List (String × Tree)} {failure : Failure}

/-- What is to be written. -/
def writings (root : Path) (files : List (String × Tree)) : List (Path × String) :=
  files.map fun file => (filePath root file.1, fileText file.2)

/-- A run that could prepare its directory. -/
theorem generateIn_eq (order : Order) (rendered : records store workflows = .ok entries) (filed : List.Forall₂ Filed entries files)
    (ready : prepare disk current root cleanup = (prepared, .ok ())) :
    generateIn order store current disk workflows root cleanup =
      ⟨(writeFiles current prepared (order (writings root files))).1,
        (if cleanup then [.emptying root] else []) ++ written (writeFiles current prepared (order (writings root files))).2,
        summary root (writeFiles current prepared (order (writings root files))).2⟩ := by
  simp only [generateIn, rendered, ready, texts_filed root filed, writings]

theorem wrote_mem_written {path : Path} {results : List (Path × Except Failure Unit)} (member : (path, .ok ()) ∈ results) :
    .wrote path ∈ written results := List.mem_filterMap.mpr ⟨_, member, rfl⟩

theorem not_wrote_emptying (path : Path) : .wrote path ∉ (if cleanup then [Note.emptying root] else []) := by
  cases cleanup <;> simp

theorem filePath_inj {name other : String} (plain : PlainName name) (otherPlain : PlainName other)
    (same : filePath root name = filePath root other) : name = other := by
  rw [filePath_eq root plain, filePath_eq root otherPlain] at same
  simpa [Path.child] using same

/-- A run fails because the workflows cannot be rendered, because the disk refuses the directory, or because it refuses files. -/
theorem generateIn_error (shuffles : ∀ files, (order files).Perm files) (named : ∀ workflow ∈ workflows, Named PlainName store workflow)
    (noNul : holdsNul root = false) (failed : (generateIn order store current disk workflows root cleanup).result = .error failure) :
    records store workflows = .error failure ∨ (∃ fault path, failure = refusal fault path) ∨ failure.category = .write := by
  cases rendered : records store workflows with
  | error fault =>
    simp only [generateIn, rendered] at failed
    cases failed
    exact .inl rfl
  | ok entries =>
    obtain ⟨files, renders, filed, -⟩ := records_render named rendered
    cases ready : prepare disk current root cleanup with
    | mk prepared ended =>
      cases ended with
      | error fault =>
        simp only [generateIn, rendered, ready] at failed
        cases failed
        exact .inr (.inl (prepare_error noNul ready))
      | ok done =>
        rw [generateIn_eq order rendered filed ready] at failed
        refine .inr (.inr (summary_error (writeFiles_error ?_) failed))
        intro file member
        obtain ⟨own, inside, rfl⟩ := List.mem_map.mp ((shuffles _).mem_iff.mp member)
        exact holdsNul_filePath noNul (renders.names named own inside)

/-- After a run without a failure every file is there, written by the run, and all else is spared. -/
theorem generateIn_delivers (shuffles : ∀ files, (order files).Perm files) (sound : disk.Sound)
    (here : disk.find current = some .directory) (named : ∀ workflow ∈ workflows, Named PlainName store workflow)
    (succeeded : (generateIn order store current disk workflows root cleanup).result = .ok ()) :
    ∃ files, Renders store workflows files ∧
      (∀ file ∈ files, Delivered (generateIn order store current disk workflows root cleanup) current root file) ∧
      Spares disk (generateIn order store current disk workflows root cleanup).disk (placeOf current root) files cleanup := by
  obtain ⟨files, prepared, run⟩ := generateIn_succeeded named succeeded
  obtain ⟨entries, rendered, filed⟩ := run.filed
  have whole := generateIn_eq order rendered filed run.ready
  have plain : ∀ file ∈ files, PlainName file.1 := run.renders.names named
  have all : ∀ result ∈ (writeFiles current prepared (order (writings root files))).2, result.2 = .ok () := by
    rw [whole] at succeeded
    exact results_of_summary succeeded
  have noNul := (prepare_ready sound here run.ready).noNul
  have stays : ∀ other, (∀ file ∈ files, other ≠ target (placeOf current root) file.1) →
      (writeFiles current prepared (order (writings root files))).1.find other = prepared.find other := by
    intro other apart
    refine writeFiles_kept fun file member same => ?_
    obtain ⟨own, inside, rfl⟩ := List.mem_map.mp ((shuffles _).mem_iff.mp member)
    exact apart own inside (same.trans (placeOf_target (plain own inside).flat current root))
  rw [whole]
  refine ⟨files, run.renders, fun file member => ⟨?_, ?_⟩, ⟨?_, ?_⟩⟩
  · have listed : (filePath root file.1, fileText file.2) ∈ order (writings root files) :=
      (shuffles _).mem_iff.mpr (List.mem_map_of_mem member)
    exact List.mem_append_right _ (wrote_mem_written (ok_mem_writeFiles all listed))
  · obtain ⟨place, located, directory⟩ := locate_of_results shuffles plain (List.ne_nil_of_mem member) all
    obtain rfl := locate_climb located
    obtain ⟨holds, -⟩ := writeFiles_holds shuffles (prepare_ready sound here run.ready).sound noNul located directory plain run.distinct
      rfl all
    exact holds.written file member
  · rintro rfl other below apart
    exact (stays other apart).trans (prepare_emptied sound here run.ready below)
  · intro other entry outside apart found
    exact (stays other apart).trans (prepare_kept sound here run.ready outside found)

theorem Renders.unique {others : List (String × Tree)} (renders : Renders store workflows files)
    (again : Renders store workflows others) : files = others := by
  induction renders generalizing others with
  | nil =>
    cases again
    rfl
  | cons named rendered whole more ih =>
    cases again with
    | cons otherNamed otherRendered otherWhole otherMore =>
      rw [named] at otherNamed
      rw [rendered] at otherRendered
      cases otherNamed
      cases otherRendered
      rw [whole] at otherWhole
      cases otherWhole
      rw [ih otherMore]

theorem summary_of_results {results : List (Path × Except Failure Unit)} (all : ∀ result ∈ results, result.2 = .ok ()) :
    summary root results = .ok () := by
  have none : results.filterMap failureOf = [] := by
    rw [List.filterMap_eq_nil_iff]
    rintro ⟨path, ended⟩ member
    obtain rfl : ended = .ok () := all _ member
    rfl
  rw [summary, none]
  rfl

/-- A result that is noted is the only one of its file. -/
theorem results_of_written (shuffles : ∀ files, (order files).Perm files) (plain : ∀ file ∈ files, PlainName file.1)
    (distinct : (files.map Prod.fst).Nodup)
    (noted : ∀ file ∈ files, .wrote (filePath root file.1) ∈ written (writeFiles current prepared (order (writings root files))).2) :
    ∀ result ∈ (writeFiles current prepared (order (writings root files))).2, result.2 = .ok () := by
  have paths : ((writeFiles current prepared (order (writings root files))).2.map Prod.fst).Nodup := by
    rw [writeFiles_paths]
    refine ((shuffles _).map _).nodup_iff.mpr ?_
    have names : (writings root files).map Prod.fst = (files.map Prod.fst).map (filePath root) := by simp [writings]
    rw [names]
    refine List.Nodup.map_on ?_ distinct
    intro name member other otherMember same
    obtain ⟨file, inside, rfl⟩ := List.mem_map.mp member
    obtain ⟨own, ownInside, rfl⟩ := List.mem_map.mp otherMember
    exact filePath_inj (plain file inside) (plain own ownInside) same
  rintro ⟨path, ended⟩ member
  have listed := List.mem_map_of_mem (f := Prod.fst) member
  rw [writeFiles_paths] at listed
  obtain ⟨writing, inside, rfl⟩ := List.mem_map.mp listed
  obtain ⟨file, own, rfl⟩ := List.mem_map.mp ((shuffles _).mem_iff.mp inside)
  have done := mem_written (noted file own)
  exact congrArg Prod.snd (List.inj_on_of_nodup_map paths member done rfl)

/-- A run has no failure exactly when it wrote every file and the file holds its text. Where there are no files, it has none
exactly when the directory could be prepared. -/
theorem generateIn_succeeds_iff (shuffles : ∀ files, (order files).Perm files) (sound : disk.Sound)
    (here : disk.find current = some .directory) (named : ∀ workflow ∈ workflows, Named PlainName store workflow) :
    (generateIn order store current disk workflows root cleanup).result = .ok () ↔
      (workflows = [] → (prepare disk current root cleanup).2 = .ok ()) ∧
        ∃ files, Renders store workflows files ∧
          ∀ file ∈ files, Delivered (generateIn order store current disk workflows root cleanup) current root file := by
  constructor
  · intro succeeded
    obtain ⟨files, renders, delivered, -⟩ := generateIn_delivers shuffles sound here named succeeded
    obtain ⟨again, prepared, run⟩ := generateIn_succeeded named succeeded
    exact ⟨fun _ => by rw [run.ready], files, renders, delivered⟩
  · rintro ⟨empty, files, renders, delivered⟩
    -- Notes on what was written are there only behind the rendering and the directory.
    have idle : (∀ path, .wrote path ∉ (generateIn order store current disk workflows root cleanup).notes) → workflows = [] := by
      intro unnoted
      cases renders with
      | nil => rfl
      | cons => exact absurd (delivered _ List.mem_cons_self).noted (unnoted _)
    cases rendered : records store workflows with
    | error failure =>
      have none := idle (by simp [generateIn, rendered])
      subst none
      cases rendered
    | ok entries =>
      obtain ⟨again, whole, filed, distinct⟩ := records_render named rendered
      obtain rfl := renders.unique whole
      cases ready : prepare disk current root cleanup with
      | mk prepared ended =>
        cases ended with
        | error failure =>
          have none := idle (by simp only [generateIn, rendered, ready]; exact not_wrote_emptying)
          have done := empty none
          rw [ready] at done
          cases done
        | ok done =>
          have ran := generateIn_eq order rendered filed ready
          rw [ran] at delivered ⊢
          refine summary_of_results (results_of_written shuffles (renders.names named) distinct fun file member => ?_)
          exact (List.mem_append.mp (delivered file member).noted).resolve_left (not_wrote_emptying _)

end runs

end WorkflowCompiler.Publish
