import WorkflowCompiler.Proofs.PreparingRoot

/-! What preparing a directory comes to for every path, also one that leads up from directories that
are made on the way: the path leads to one place and no other, and no file is touched except by
emptying the place. -/

namespace WorkflowCompiler.Path

theorem climb_append (found first second : List String) : climb found (first ++ second) = climb (climb found first) second := by
  fun_induction climb found first with
  | case1 => rfl
  | case2 found rest ih => rw [List.cons_append, climb, ih]
  | case3 found part rest other ih =>
    rw [List.cons_append, climb, ih]
    exact other

end WorkflowCompiler.Path

namespace WorkflowCompiler.Disk

/-- The place that a path leads to, if it leads anywhere. -/
def placeOf (current : Place) (path : Path) : Place :=
  Path.climb (if path.isAbsolute then [] else current) path.parts

section

variable {disk after : Disk} {current base place : Place} {path : Path}

theorem follow_climb {parts : List String} (followed : disk.follow base parts = .ok place) :
    place = Path.climb base parts := by
  induction parts generalizing base with
  | nil =>
    cases followed
    rfl
  | cons part rest ih =>
    rw [follow] at followed
    split at followed
    · cases followed
    · cases followed
    · split at followed
      · cases followed
      · by_cases up : part = ".."
        · subst up
          rw [Path.climb]
          exact ih followed
        · rw [if_neg (by simpa [isUp] using up)] at followed
          rw [Path.climb]
          · exact ih followed
          · exact up

theorem locate_climb (located : disk.locate current path = .ok place) : place = placeOf current path := by
  have parts := List.takeWhile_append_dropWhile (p := isUp) (l := path.parts)
  rw [locate_of_short disk current (short_of_locate located)] at located
  rw [placeOf, ← parts, Path.climb_append]
  exact follow_climb located

theorem fits_of_follow {parts : List String} (followed : disk.follow base parts = .ok place) : Fits parts := by
  induction parts generalizing base with
  | nil => simp [Fits]
  | cons part rest ih =>
    rw [follow] at followed
    split at followed
    · cases followed
    · cases followed
    · split at followed
      · cases followed
      next short =>
        have rests : Fits rest := by
          split at followed
          · exact ih followed
          · exact ih followed
        intro other member
        rcases List.mem_cons.mp member with rfl | later
        · exact Nat.not_lt.mp short
        · exact rests other later

theorem fits_of_locate (located : disk.locate current path = .ok place) : Fits path.parts := by
  rw [locate_of_short disk current (short_of_locate located)] at located
  have rests := fits_of_follow located
  intro part member
  rw [← List.takeWhile_append_dropWhile (p := isUp) (l := path.parts)] at member
  rcases List.mem_append.mp member with up | down
  · have same : part = ".." := by simpa [isUp] using List.mem_takeWhile_imp up
    rw [same]
    decide
  · exact rests part down

theorem follow_error {parts : List String} {fault : DiskFault} (refused : disk.follow base parts = .error fault) :
    fault = .noEntry ∨ fault = .notDirectory ∨ fault = .nameTooLong := by
  induction parts generalizing base with
  | nil => cases refused
  | cons part rest ih =>
    rw [follow] at refused
    split at refused
    · cases refused
      exact .inl rfl
    · cases refused
      exact .inr (.inl rfl)
    · split at refused
      · cases refused
        exact .inr (.inr rfl)
      · split at refused
        · exact ih refused
        · exact ih refused

theorem locate_error {fault : DiskFault} (refused : disk.locate current path = .error fault) :
    fault = .noEntry ∨ fault = .notDirectory ∨ fault = .nameTooLong := by
  rw [locate] at refused
  split at refused
  · cases refused
    exact .inr (.inr rfl)
  · exact follow_error refused

/-- Names that fit are never too long. -/
theorem follow_fits {parts : List String} (fits : Fits parts) : disk.follow base parts ≠ .error .nameTooLong := by
  induction parts generalizing base with
  | nil => simp [follow]
  | cons part rest ih =>
    have short : ¬ longestName < part.utf8ByteSize := Nat.not_lt.mpr (fits part List.mem_cons_self)
    have rests : Fits rest := fun other member => fits other (List.mem_cons_of_mem _ member)
    rw [follow]
    split
    · simp
    · simp
    · rw [if_neg short]
      split
      · exact ih rests
      · exact ih rests

/-- Whether there is something at a path can be told if it is short and its parts fit. -/
theorem isAt_fits (short : Short path) (fits : Fits path.parts) (wanted : Entry → Bool) :
    ∃ there, disk.isAt current path wanted = .ok there := by
  have rests : Fits (path.parts.dropWhile isUp) := fun part member => fits part (List.dropWhile_subset _ member)
  cases located : disk.locate current path with
  | ok place =>
    cases found : disk.find place with
    | some entry => exact ⟨wanted entry, by rw [isAt, status_of_locate located found]⟩
    | none => exact ⟨false, by rw [isAt, status_of_missing located found]⟩
  | error fault =>
    have refused := status_of_refused located
    rw [locate_of_short disk current short] at located
    rcases follow_error located with rfl | rfl | rfl
    · exact ⟨false, by rw [isAt, refused]⟩
    · exact ⟨false, by rw [isAt, refused]⟩
    · exact absurd located (follow_fits rests)

/-- A path that leads nowhere yet leads to the last of its parts, from a directory. -/
theorem follow_new (sound : disk.Sound) {parts : List String} (directory : disk.find base = some .directory)
    (followed : disk.follow base parts = .ok place) (missing : disk.find place = none) :
    ∃ parent name, place = parent ++ [name] ∧ disk.find parent = some .directory := by
  rcases List.eq_nil_or_concat parts with rfl | ⟨front, last, rfl⟩
  · cases followed
    rw [directory] at missing
    cases missing
  rw [List.concat_eq_append, follow_append] at followed
  cases reached : disk.follow base front with
  | error fault =>
    rw [reached] at followed
    cases followed
  | ok parent =>
    rw [reached] at followed
    simp only [Except.bind, follow] at followed
    cases found : disk.find parent with
    | none => simp [found] at followed
    | some entry =>
      cases entry with
      | file content => simp [found] at followed
      | directory =>
        simp only [found] at followed
        split at followed
        · cases followed
        · split at followed
          · cases followed
            exfalso
            rcases List.eq_nil_or_concat parent with rfl | ⟨upper, name, rfl⟩
            · rw [List.dropLast_nil, find_nil] at missing
              cases missing
            · rw [List.concat_eq_append] at found missing
              rw [List.dropLast_concat, sound.housed upper name (by simp [found])] at missing
              cases missing
          · cases followed
            exact ⟨parent, last, rfl, found⟩

/-- How a directory comes to be there: the path leads to it, and no file has changed. -/
structure Arrived (before after : Disk) (current : Place) (path : Path) (place : Place) : Prop where
  sound : after.Sound
  located : after.locate current path = .ok place
  directory : after.find place = some .directory
  files : ∀ other content, after.find other = some (.file content) ↔ before.find other = some (.file content)
  directories : ∀ other, before.find other = some .directory → after.find other = some .directory

theorem Arrived.trans {first second third : Disk} {parent : Path} {above : Place}
    (early : Arrived first second current parent above) (late : Arrived second third current path place) :
    Arrived first third current path place where
  sound := late.sound
  located := late.located
  directory := late.directory
  files := fun other content => (late.files other content).trans (early.files other content)
  directories := fun other there => late.directories other (early.directories other there)

theorem makeDirectory_arrived (sound : disk.Sound) (here : disk.find current = some .directory)
    (made : disk.makeDirectory current path = .ok after) :
    ∃ place, Arrived disk after current path place ∧ ∀ other, Below place other → after.find other = none := by
  cases located : disk.locate current path with
  | error fault =>
    rw [makeDirectory_of_refused located] at made
    cases made
  | ok place =>
    rw [makeDirectory_of_locate located] at made
    split at made
    · cases made
    next missing =>
      cases made
      have short := short_of_locate located
      have reached := (locate_of_short disk current short).symm.trans located
      obtain ⟨parent, name, rfl, directory⟩ := follow_new sound (find_start sound here path) reached missing
      have keeps : ∀ other, disk.find other = some .directory →
          (disk.put (parent ++ [name]) .directory).find other = some .directory := by
        intro other there
        by_cases same : other = parent ++ [name]
        · rw [same]
          exact find_put (by simp) _
        · rw [find_put_of_ne same]
          exact there
      refine ⟨parent ++ [name], ⟨sound.put directory (by simp [missing]), ?_, find_put (by simp) _, ?_, keeps⟩, ?_⟩
      · rw [locate_of_short _ current short]
        exact follow_mono keeps reached
      · intro other content
        by_cases same : other = parent ++ [name]
        · rw [same, find_put (by simp), missing]
          simp
        · rw [find_put_of_ne same]
      · intro other below
        rw [find_put_of_ne below.2]
        exact find_below_missing sound missing below

theorem isAt_true {wanted : Entry → Bool} (there : disk.isAt current path wanted = .ok true) :
    ∃ place entry, disk.locate current path = .ok place ∧ disk.find place = some entry ∧ wanted entry = true := by
  cases located : disk.locate current path with
  | error fault =>
    rw [isAt, status_of_refused located] at there
    cases fault <;> cases there
  | ok place =>
    cases found : disk.find place with
    | some entry =>
      rw [isAt, status_of_locate located found] at there
      exact ⟨place, entry, rfl, found, Except.ok.inj there⟩
    | none =>
      rw [isAt, status_of_missing located found] at there
      cases there

theorem settle_ok {lenient : Bool} {fault : DiskFault} (settled : disk.settle current lenient path fault = .ok ()) :
    lenient = true ∧ ∃ place, disk.locate current path = .ok place ∧ disk.find place = some .directory := by
  rw [settle] at settled
  cases there : disk.isAt current path isDirectory with
  | error failure =>
    rw [there] at settled
    cases settled
  | ok found =>
    rw [there] at settled
    cases lenient with
    | false => cases settled
    | true =>
      cases found with
      | false => cases settled
      | true =>
        obtain ⟨place, entry, located, present, directory⟩ := isAt_true there
        cases entry with
        | file content => cases directory
        | directory => exact ⟨rfl, place, located, present⟩

theorem arrived_refl (sound : disk.Sound) (located : disk.locate current path = .ok place)
    (directory : disk.find place = some .directory) : Arrived disk disk current path place where
  sound := sound
  located := located
  directory := directory
  files := fun _ _ => Iff.rfl
  directories := fun _ there => there

theorem settle_arrived (sound : disk.Sound) {lenient : Bool} {fault : DiskFault}
    (settled : disk.settle current lenient path fault = .ok ()) :
    ∃ place, Arrived disk disk current path place ∧
      (lenient = false → ∀ other, Below place other → disk.find other = none) := by
  obtain ⟨rfl, place, located, directory⟩ := settle_ok settled
  exact ⟨place, arrived_refl sound located directory, by simp⟩

/-- Where a directory is made, the path leads to it afterwards. One that is new holds nothing. -/
theorem makeDirectories_arrived (sound : disk.Sound) (here : disk.find current = some .directory) {lenient : Bool}
    {depth : Nat} (made : disk.makeDirectories current lenient path depth = (after, .ok ())) :
    ∃ place, Arrived disk after current path place ∧
      (lenient = false → ∀ other, Below place other → after.find other = none) := by
  induction depth generalizing path lenient after with
  | zero => cases made
  | succ depth ih =>
    rw [makeDirectories] at made
    split at made
    next _ direct =>
      cases made
      obtain ⟨place, arrived, empty⟩ := makeDirectory_arrived sound here direct
      exact ⟨place, arrived, fun _ => empty⟩
    next missing =>
      split at made
      · cases made
      split at made
      · cases made
      next middle parents =>
        obtain ⟨above, early, -⟩ := ih parents
        have still := early.directories current here
        split at made
        next _ last =>
          cases made
          obtain ⟨place, late, empty⟩ := makeDirectory_arrived early.sound still last
          exact ⟨place, early.trans late, fun _ => empty⟩
        next fault refused =>
          obtain ⟨rfl, settled⟩ := Prod.mk.inj made
          obtain ⟨place, late, empty⟩ := settle_arrived early.sound settled
          exact ⟨place, early.trans late, empty⟩
    next fault _ refused =>
      obtain ⟨rfl, settled⟩ := Prod.mk.inj made
      exact settle_arrived sound settled

theorem makePath_arrived (sound : disk.Sound) (here : disk.find current = some .directory) {lenient : Bool}
    (made : disk.makePath current lenient path = (after, .ok ())) :
    holdsNul path = false ∧ ∃ place, Arrived disk after current path place ∧
      (lenient = false → ∀ other, Below place other → after.find other = none) := by
  rw [makePath] at made
  split at made
  · cases made
  next noNul => exact ⟨Bool.eq_false_iff.mpr noNul, makeDirectories_arrived sound here made⟩

end

end WorkflowCompiler.Disk

namespace WorkflowCompiler.Publish
open Disk

/-- A directory that was prepared to hold files. If it was emptied, the path may lead nowhere now,
but not to anything but the empty place. -/
structure Ready (before after : Disk) (current : Place) (root : Path) (cleanup : Bool) : Prop where
  sound : after.Sound
  noNul : holdsNul root = false
  fits : Fits root.parts
  short : Short root
  there : cleanup = false → ∃ place, Arrived before after current root place
  empty : cleanup = true → ∀ place, after.locate current root = .ok place →
    ∀ other, Below place other → after.find other = none

theorem prepare_ready {disk after : Disk} {current : Place} {root : Path} {cleanup : Bool} (sound : disk.Sound)
    (here : disk.find current = some .directory) (prepared : prepare disk current root cleanup = (after, .ok ())) :
    Ready disk after current root cleanup := by
  rw [prepare] at prepared
  cases cleanup with
  | false =>
    obtain ⟨noNul, place, arrived, -⟩ := makePath_arrived sound here prepared
    exact ⟨arrived.sound, noNul, fits_of_locate arrived.located, short_of_locate arrived.located, fun _ => ⟨place, arrived⟩, by simp⟩
  | true =>
    have made : ∀ {disk : Disk}, disk.makePath current false root = (after, .ok ()) → disk.Sound →
        disk.find current = some .directory → Ready disk after current root true := by
      intro disk made sound here
      obtain ⟨noNul, place, arrived, empty⟩ := makePath_arrived sound here made
      refine ⟨arrived.sound, noNul, fits_of_locate arrived.located, short_of_locate arrived.located, by simp, fun _ other located => ?_⟩
      rw [arrived.located] at located
      cases located
      exact empty rfl
    split at prepared
    · next never => cases never
    split at prepared
    · exact made prepared sound here
    next noNul =>
      split at prepared
      · cases prepared
      · exact made prepared sound here
      · split at prepared
        · cases prepared
        next place located =>
          split at prepared
          · cases prepared
          · obtain ⟨-, rfl⟩ := (empty_ok sound).mp prepared
            refine ⟨sound.clear place, Bool.eq_false_iff.mpr noNul, fits_of_locate located, short_of_locate located, by simp,
              fun _ other reached => ?_⟩
            have same : other = place := (locate_climb reached).trans (locate_climb located).symm
            subst same
            intro inner below
            rw [find_clear, if_pos below]

end WorkflowCompiler.Publish
