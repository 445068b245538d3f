import WorkflowCompiler.Proofs.EmptyingDirectories
import WorkflowCompiler.Proofs.MakingDirectories
import WorkflowCompiler.Publish.Writing

/-! Preparing the directory for workflow files: it is there afterwards, empty if that is wanted,
and nothing outside it has changed but for the parents that it lacked. -/

namespace WorkflowCompiler.Publish
open Disk

/-- How the directory `base ++ down` is prepared. -/
structure Prepared (before after : Disk) (base : Place) (down : List String) (cleanup : Bool) : Prop where
  sound : after.Sound
  made : ∀ front, front <+: down → after.find (base ++ front) = some .directory
  emptied : cleanup = true → ∀ place, Below (base ++ down) place → after.find place = none
  kept : ∀ place, (cleanup = true → ¬ Below (base ++ down) place) →
    (∀ front, front <+: down → place ≠ base ++ front) → after.find place = before.find place

section

variable {disk : Disk} {current base : Place} {root : Path} {down : List String}

theorem makePath_extends (sound : disk.Sound) (leads : disk.Leads current root base down) (short : Short root) (fits : Fits down)
    (noNul : holdsNul root = false) (free : ¬ Blocked disk base down) (lenient : Bool)
    (wanted : lenient = false → disk.find (base ++ down) = none) :
    ∃ after, disk.makePath current lenient root = (after, .ok ()) ∧ Extended disk after base down := by
  obtain ⟨lead, shape, -⟩ := leads.reached
  have enough : down.length < root.parts.length + 1 := by
    rw [shape, List.length_append]
    omega
  obtain ⟨after, made, extended⟩ := makeDirectories_extends sound leads short fits free wanted enough
  exact ⟨after, by simp [makePath, noNul, made], extended⟩

theorem makePath_blocked (sound : disk.Sound) (leads : disk.Leads current root base down) (short : Short root) (fits : Fits down)
    (noNul : holdsNul root = false) (blocked : Blocked disk base down) (lenient : Bool) :
    ∃ fault, disk.makePath current lenient root = (disk, .error (refusal fault root)) := by
  obtain ⟨fault, refused⟩ := makeDirectories_blocked sound leads short fits blocked lenient root.parts.length
  exact ⟨fault, by simp [makePath, noNul, refused]⟩

/-- Nothing is found at a path that ends where nothing is. -/
theorem isAt_missing (sound : disk.Sound) (leads : disk.Leads current root base down) (short : Short root) (fits : Fits down)
    (free : ¬ Blocked disk base down) (missing : disk.find (base ++ down) = none) (wanted : Entry → Bool) :
    disk.isAt current root wanted = .ok false := by
  rcases List.eq_nil_or_concat down with rfl | ⟨front, last, rfl⟩
  · rw [List.append_nil, leads.directory] at missing
    cases missing
  rw [List.concat_eq_append] at *
  have refused : disk.status current root = .error .noEntry := by
    cases above : disk.find (base ++ front) with
    | none => exact status_of_refused (leads.locate_missing short sound fits (mt Blocked.longer free) above)
    | some entry =>
      cases entry with
      | file content => exact absurd ⟨front, List.prefix_append _ _, content, above⟩ free
      | directory =>
        rw [← List.append_assoc] at missing
        exact status_of_missing (leads.locate_below short sound fits above) missing
  rw [isAt, refused]

theorem isAt_found (sound : disk.Sound) (leads : disk.Leads current root base down) (short : Short root) (fits : Fits down)
    {entry : Entry} (found : disk.find (base ++ down) = some entry) (wanted : Entry → Bool) :
    disk.isAt current root wanted = .ok (wanted entry) := by
  rw [isAt, status_of_locate (leads.locate_found short sound fits (by simp [found])) found]

theorem prepared_of_extended {after : Disk} (extended : Extended disk after base down) (cleanup : Bool)
    (empty : cleanup = true → ∀ place, Below (base ++ down) place → disk.find place = none) :
    Prepared disk after base down cleanup where
  sound := extended.sound
  made := extended.made
  emptied := by
    intro wanted place below
    rw [extended.kept, empty wanted place below]
    rintro front leads rfl
    have long := below.1.length_le
    have same := leads.eq_of_length_le (by simpa using long)
    exact below.2 (by rw [same])
  kept := fun place _ apart => extended.kept place apart

theorem prepared_clear (sound : disk.Sound) (directory : disk.find (base ++ down) = some .directory) :
    Prepared disk (disk.clear (base ++ down)) base down true where
  sound := sound.clear _
  made := by
    intro front leads
    have outside : ¬ Below (base ++ down) (base ++ front) := by
      rintro ⟨longer, differs⟩
      have same := leads.eq_of_length_le (by simpa using longer.length_le)
      exact differs (by rw [same])
    rw [find_clear, if_neg outside]
    exact (extended_refl sound directory).made front leads
  emptied := by
    intro _ place below
    rw [find_clear, if_pos below]
  kept := by
    intro place outside _
    rw [find_clear, if_neg (outside rfl)]

/-- A directory that nothing stands in the way of is prepared. -/
theorem prepare_prepared (sound : disk.Sound) (leads : disk.Leads current root base down) (short : Short root) (fits : Fits down)
    (noNul : holdsNul root = false) (free : ¬ Blocked disk base down) {cleanup : Bool}
    (stays : cleanup = true → (disk.clear (base ++ down)).Leads current root base down)
    (children : cleanup = true → ShortWithin disk root (base ++ down)) :
    ∃ after, prepare disk current root cleanup = (after, .ok ()) ∧ Prepared disk after base down cleanup ∧
      after.Leads current root base down := by
  cases cleanup with
  | false =>
    obtain ⟨after, made, extended⟩ := makePath_extends sound leads short fits noNul free true (by simp)
    refine ⟨after, ?_, prepared_of_extended extended false (by simp), leads.mono fun _ => extended.keeps_directory⟩
    simp [prepare, made]
  | true =>
    cases found : disk.find (base ++ down) with
    | none =>
      obtain ⟨after, made, extended⟩ := makePath_extends sound leads short fits noNul free false fun _ => found
      refine ⟨after, ?_, prepared_of_extended extended true fun _ _ => find_below_missing sound found,
        leads.mono fun _ => extended.keeps_directory⟩
      simp [prepare, noNul, isAt_missing sound leads short fits free found, made]
    | some entry =>
      cases entry with
      | file content => exact absurd ⟨down, List.prefix_rfl, content, found⟩ free
      | directory =>
        refine ⟨_, ?_, prepared_clear sound found, stays rfl⟩
        simp [prepare, noNul, isAt_found sound leads short fits found, leads.locate_found short sound fits, found,
          (empty_ok sound).mpr ⟨children rfl, rfl⟩]

/-- A regular file in the way is found before anything changes. -/
theorem prepare_blocked (sound : disk.Sound) (leads : disk.Leads current root base down) (short : Short root) (fits : Fits down)
    (noNul : holdsNul root = false) (blocked : Blocked disk base down) (cleanup : Bool) :
    ∃ fault, prepare disk current root cleanup = (disk, .error (refusal fault root)) := by
  cases cleanup with
  | false =>
    obtain ⟨fault, refused⟩ := makePath_blocked sound leads short fits noNul blocked true
    exact ⟨fault, by simp [prepare, refused]⟩
  | true =>
    obtain ⟨fault, refused⟩ := makePath_blocked sound leads short fits noNul blocked false
    obtain ⟨front, above, content, file⟩ := blocked
    by_cases whole : front = down
    · subst whole
      refine ⟨.notDirectory, ?_⟩
      simp [prepare, noNul, isAt_found sound leads short fits file, leads.locate_found short sound fits, file]
    · have located := leads.locate_below_file short sound fits above whole file
      refine ⟨fault, ?_⟩
      simp [prepare, noNul, isAt, status_of_refused located, refused]

end

end WorkflowCompiler.Publish
