import WorkflowCompiler.Proofs.DiskPaths

/-! Making a directory with its parents. Either nothing stands in the way, and the directories on
the way down are all that is new, or a regular file does, and then nothing is made at all. -/

namespace WorkflowCompiler.Disk

/-- Directories lead all the way down, and nothing else has changed. -/
structure Extended (before after : Disk) (base : Place) (down : List String) : Prop where
  sound : after.Sound
  made : ∀ front, front <+: down → after.find (base ++ front) = some .directory
  kept : ∀ place, (∀ front, front <+: down → place ≠ base ++ front) → after.find place = before.find place

section

variable {disk after : Disk} {current base : Place} {path : Path} {front down : List String} {last : String}

theorem Extended.keeps_directory (extended : Extended disk after base down) {place : Place}
    (directory : disk.find place = some .directory) : after.find place = some .directory := by
  by_cases onTheWay : ∃ front, front <+: down ∧ place = base ++ front
  · obtain ⟨front, leads, rfl⟩ := onTheWay
    exact extended.made front leads
  · rw [extended.kept place]
    · exact directory
    · intro front leads same
      exact onTheWay ⟨front, leads, same⟩

/-- There is nothing to make where there is a directory. -/
theorem extended_refl (sound : disk.Sound) (directory : disk.find (base ++ down) = some .directory) :
    Extended disk disk base down where
  sound := sound
  made := by
    intro front leads
    obtain ⟨more, rfl⟩ := leads
    by_cases whole : more = []
    · simpa [whole] using directory
    · rw [← List.append_assoc] at directory
      exact sound.directory_above (by rw [directory]; simp) whole
  kept := fun _ _ => rfl

/-- What is below the last directory is as it was. -/
theorem Extended.below (extended : Extended disk after base front) (last : String) :
    after.find (base ++ front ++ [last]) = disk.find (base ++ front ++ [last]) := by
  refine extended.kept _ fun first leads same => ?_
  have less := leads.length_le
  have long := congrArg List.length same
  simp at long
  omega

theorem Extended.put (extended : Extended disk after base front)
    (missing : after.find (base ++ front ++ [last]) = none) :
    Extended disk (after.put (base ++ front ++ [last]) .directory) base (front ++ [last]) where
  sound := extended.sound.put (extended.made front List.prefix_rfl) (by rw [missing]; simp)
  made := by
    intro first leads
    rcases List.prefix_concat_iff.mp leads with rfl | above
    · rw [← List.append_assoc]
      exact find_put (by simp) _
    · rw [find_put_of_ne]
      · exact extended.made first above
      · intro same
        rw [← same, extended.made first above] at missing
        cases missing
  kept := by
    intro place apart
    rw [find_put_of_ne]
    · exact extended.kept place fun first leads => apart first (leads.trans (List.prefix_append _ _))
    · rw [List.append_assoc]
      exact apart (front ++ [last]) List.prefix_rfl

theorem makeDirectory_of_locate {place : Place} (located : disk.locate current path = .ok place) :
    disk.makeDirectory current path =
      match disk.find place with
      | some _ => .error .alreadyExists
      | none => .ok (disk.put place .directory) := by
  rw [makeDirectory, located]
  rfl

theorem makeDirectory_of_refused {fault : DiskFault} (located : disk.locate current path = .error fault) :
    disk.makeDirectory current path = .error fault := by
  rw [makeDirectory, located]
  rfl

theorem status_of_locate {place : Place} {entry : Entry} (located : disk.locate current path = .ok place)
    (found : disk.find place = some entry) : disk.status current path = .ok entry := by
  rw [status, located]
  show (match disk.find place with | some entry => Except.ok entry | none => _) = _
  rw [found]

theorem status_of_missing {place : Place} (located : disk.locate current path = .ok place)
    (missing : disk.find place = none) : disk.status current path = .error .noEntry := by
  rw [status, located]
  show (match disk.find place with | some entry => Except.ok entry | none => Except.error DiskFault.noEntry) = _
  rw [missing]

theorem status_of_refused {fault : DiskFault} (located : disk.locate current path = .error fault) :
    disk.status current path = .error fault := by
  rw [status, located]
  rfl

theorem settle_directory {place : Place} (located : disk.locate current path = .ok place)
    (directory : disk.find place = some .directory) (fault : DiskFault) :
    disk.settle current true path fault = .ok () := by
  simp [settle, isAt, status_of_locate located directory, isDirectory]
  rfl

theorem Leads.locate_found (leads : disk.Leads current path base down) (short : Short path) (sound : disk.Sound)
    (fits : Fits down) (found : disk.find (base ++ down) ≠ none) : disk.locate current path = .ok (base ++ down) := by
  rw [leads.locate short, follow_found sound leads.straight fits found]

theorem Leads.locate_below (leads : disk.Leads current path base (front ++ [last])) (short : Short path) (sound : disk.Sound)
    (fits : Fits (front ++ [last])) (directory : disk.find (base ++ front) = some .directory) :
    disk.locate current path = .ok (base ++ front ++ [last]) := by
  have reached : disk.follow base front = .ok (base ++ front) :=
    follow_found sound (fun part member => leads.straight part (List.mem_append_left _ member))
      (fun part member => fits part (List.mem_append_left _ member)) (by simp [directory])
  have named : ¬ longestName < last.utf8ByteSize := Nat.not_lt.mpr (fits last (by simp))
  rw [leads.locate short, follow_append, reached]
  show disk.follow (base ++ front) [last] = _
  rw [follow_part directory (leads.straight last (by simp)), if_neg named]

theorem Leads.locate_missing (leads : disk.Leads current path base (front ++ [last])) (short : Short path) (sound : disk.Sound)
    (fits : Fits (front ++ [last])) (free : ¬ Blocked disk base front) (missing : disk.find (base ++ front) = none) :
    disk.locate current path = .error .noEntry := by
  rw [leads.locate short]
  exact follow_missing sound (fun part member => leads.straight part (List.mem_append_left _ member))
    (fun part member => fits part (List.mem_append_left _ member)) leads.directory free missing last

theorem Leads.locate_below_file (leads : disk.Leads current path base down) (short : Short path) (sound : disk.Sound)
    (fits : Fits down) (above : front <+: down) (deeper : front ≠ down) {content : Content}
    (file : disk.find (base ++ front) = some (.file content)) : disk.locate current path = .error .notDirectory := by
  obtain ⟨more, rfl⟩ := above
  rw [leads.locate short]
  cases more with
  | nil => simp at deeper
  | cons last more =>
    exact follow_below_file sound (fun part member => leads.straight part (List.mem_append_left _ member))
      (fun part member => fits part (List.mem_append_left _ member)) file more

/-- Directories are made from the first missing one on. -/
theorem makeDirectories_extends (sound : disk.Sound) (leads : disk.Leads current path base down) (short : Short path)
    (fits : Fits down) (free : ¬ Blocked disk base down) {lenient : Bool} (wanted : lenient = false → disk.find (base ++ down) = none)
    {depth : Nat} (enough : down.length < depth) :
    ∃ after, disk.makeDirectories current lenient path depth = (after, .ok ()) ∧ Extended disk after base down := by
  induction depth generalizing path down lenient with
  | zero => omega
  | succ depth ih =>
    cases found : disk.find (base ++ down) with
    | some entry =>
      have located := leads.locate_found short sound fits (by simp [found])
      cases entry with
      | file content => exact absurd ⟨down, List.prefix_rfl, content, found⟩ free
      | directory =>
        cases lenient with
        | false => simp [found] at wanted
        | true =>
          refine ⟨disk, ?_, extended_refl sound found⟩
          rw [makeDirectories, makeDirectory_of_locate located, found]
          dsimp only
          rw [settle_directory located found]
    | none =>
      rcases List.eq_nil_or_concat down with rfl | ⟨front, last, rfl⟩
      · rw [List.append_nil, leads.directory] at found
        cases found
      rw [List.concat_eq_append] at *
      have freeFront : ¬ Blocked disk base front := mt Blocked.longer free
      have fitsFront : Fits front := fun part member => fits part (List.mem_append_left _ member)
      rw [← List.append_assoc] at found
      cases above : disk.find (base ++ front) with
      | some entry =>
        cases entry with
        | file content => exact absurd ⟨front, List.prefix_rfl, content, above⟩ freeFront
        | directory =>
          have located := leads.locate_below short sound fits above
          refine ⟨_, ?_, (extended_refl sound above).put found⟩
          rw [makeDirectories, makeDirectory_of_locate located, found]
      | none =>
        have located := leads.locate_missing short sound fits freeFront above
        have shorter : front.length < depth := by simpa using enough
        obtain ⟨after, made, extended⟩ := @ih path.parent front leads.parent short.parent fitsFront freeFront true (by simp) shorter
        have still := leads.mono fun _ => extended.keeps_directory
        have located' := still.locate_below short extended.sound fits (extended.made front List.prefix_rfl)
        have missing : after.find (base ++ front ++ [last]) = none := by
          rw [extended.below, found]
        refine ⟨_, ?_, extended.put missing⟩
        have some : path.parts.isEmpty = false := by
          obtain ⟨lead, shape, -⟩ := leads.reached
          simp [shape]
        rw [makeDirectories, makeDirectory_of_refused located]
        dsimp only
        rw [some, made]
        dsimp only
        rw [makeDirectory_of_locate located', missing]
        rfl

/-- A regular file in the way is found before anything is made. -/
theorem makeDirectories_blocked (sound : disk.Sound) (leads : disk.Leads current path base down) (short : Short path)
    (fits : Fits down) (blocked : Blocked disk base down) (lenient : Bool) (depth : Nat) :
    ∃ fault, disk.makeDirectories current lenient path (depth + 1) = (disk, .error (refusal fault path)) := by
  obtain ⟨front, above, content, file⟩ := blocked
  by_cases whole : front = down
  · subst whole
    have located := leads.locate_found short sound fits (by simp [file])
    refine ⟨.alreadyExists, ?_⟩
    rw [makeDirectories, makeDirectory_of_locate located, file]
    dsimp only
    rw [settle, isAt, status_of_locate located file]
    cases lenient <;> rfl
  · have located := leads.locate_below_file short sound fits above whole file
    refine ⟨.notDirectory, ?_⟩
    rw [makeDirectories, makeDirectory_of_refused located]
    dsimp only
    rw [settle, isAt, status_of_refused located]
    cases lenient <;> rfl

end

end WorkflowCompiler.Disk
