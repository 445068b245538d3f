import WorkflowCompiler.Proofs.DiskPlaces

/-! Where paths lead. A path is followed through directories that are there as far as its last `..`,
and from there straight down: only the last part can name what is not there yet. A path whose text is
too long leads nowhere. -/

namespace WorkflowCompiler.Disk

def Straight (parts : List String) : Prop := ∀ part ∈ parts, isUp part = false

def Fits (parts : List String) : Prop := ∀ part ∈ parts, part.utf8ByteSize ≤ longestName

instance (parts : List String) : Decidable (Straight parts) := inferInstanceAs (Decidable (∀ _ ∈ _, _))

instance (parts : List String) : Decidable (Fits parts) := inferInstanceAs (Decidable (∀ _ ∈ _, _))

/-- A path whose text is no longer than a disk takes it. -/
def Short (path : Path) : Prop := path.text.utf8ByteSize ≤ longestPath

instance (path : Path) : Decidable (Short path) := inferInstanceAs (Decidable (_ ≤ _))

theorem not_short {path : Path} : ¬ Short path ↔ longestPath < path.text.utf8ByteSize := Nat.not_le

theorem locate_of_short (disk : Disk) (current : Place) {path : Path} (short : Short path) :
    disk.locate current path = disk.reach current path := if_neg (Nat.not_lt.mpr short)

theorem locate_of_long (disk : Disk) (current : Place) {path : Path} (long : ¬ Short path) :
    disk.locate current path = .error .nameTooLong := if_pos (not_short.mp long)

theorem short_of_locate {disk : Disk} {current place : Place} {path : Path} (located : disk.locate current path = .ok place) :
    Short path := by
  by_contra long
  rw [locate_of_long disk current long] at located
  cases located

theorem utf8ByteSize_intercalate_dropLast (parts : List String) :
    ("/".intercalate parts.dropLast).utf8ByteSize ≤ ("/".intercalate parts).utf8ByteSize := by
  induction parts with
  | nil => exact Nat.le_refl _
  | cons part rest ih =>
    cases rest with
    | nil => simp
    | cons second more =>
      rw [List.dropLast_cons_of_ne_nil (by simp), String.intercalate_cons_cons]
      cases more with
      | nil =>
        simp only [List.dropLast_singleton, String.intercalate_singleton, String.utf8ByteSize_append]
        omega
      | cons third others =>
        rw [List.dropLast_cons_of_ne_nil (by simp)] at ih ⊢
        simp only [String.intercalate_cons_cons, String.utf8ByteSize_append] at ih ⊢
        omega

theorem Short.parent {path : Path} (short : Short path) : Short path.parent := by
  have less : (Path.rootText path.root ++ "/".intercalate path.parts.dropLast).utf8ByteSize ≤
      (Path.rootText path.root ++ "/".intercalate path.parts).utf8ByteSize := by
    rw [String.utf8ByteSize_append, String.utf8ByteSize_append]
    exact Nat.add_le_add_left (utf8ByteSize_intercalate_dropLast path.parts) _
  rw [Short, Path.text] at *
  show (if (Path.rootText path.root ++ "/".intercalate path.parts.dropLast).isEmpty then "." else _).utf8ByteSize ≤ _
  split
  · decide
  next filled =>
    refine less.trans ?_
    split at short
    next empty =>
      rw [String.isEmpty_iff.mp empty]
      decide
    · exact short

theorem follow_append (disk : Disk) (place : Place) (first second : List String) :
    disk.follow place (first ++ second) = (disk.follow place first).bind fun reached => disk.follow reached second := by
  induction first generalizing place with
  | nil => rfl
  | cons part rest ih =>
    rw [List.cons_append, follow, follow]
    cases disk.find place with
    | none => rfl
    | some entry =>
      cases entry with
      | file content => rfl
      | directory =>
        dsimp only
        split
        · rfl
        · split
          · exact ih _
          · exact ih _

theorem follow_part {disk : Disk} {place : Place} {part : String} (directory : disk.find place = some .directory)
    (straight : isUp part = false) :
    disk.follow place [part] =
      if longestName < part.utf8ByteSize then .error .nameTooLong else .ok (place ++ [part]) := by
  simp [follow, directory, straight]

/-- Only directories on the way matter. -/
theorem follow_mono {before after : Disk} (kept : ∀ place, before.find place = some .directory →
    after.find place = some .directory) {place reached : Place} {parts : List String}
    (followed : before.follow place parts = .ok reached) : after.follow place parts = .ok reached := by
  induction parts generalizing place with
  | nil => exact followed
  | cons part rest ih =>
    rw [follow] at followed
    split at followed
    · cases followed
    · cases followed
    next directory =>
      rw [follow, kept place directory]
      dsimp only
      split at followed
      · cases followed
      next fits =>
        rw [if_neg fits]
        split at followed
        next up => rw [if_pos up]; exact ih followed
        next down => rw [if_neg down]; exact ih followed

section straight

variable {disk : Disk} {base : Place} {front down : List String} {last : String}

/-- What there is, a straight path leads to. -/
theorem follow_found (sound : disk.Sound) (straight : Straight down) (fits : Fits down)
    (found : disk.find (base ++ down) ≠ none) : disk.follow base down = .ok (base ++ down) := by
  induction down using List.reverseRecOn with
  | nil => simp [follow]
  | append_singleton front last ih =>
    rw [← List.append_assoc] at found
    have above := sound.housed (base ++ front) last found
    have reached := ih (fun part member => straight part (List.mem_append_left _ member))
      (fun part member => fits part (List.mem_append_left _ member)) (by simp [above])
    have short : ¬ longestName < last.utf8ByteSize := Nat.not_lt.mpr (fits last (by simp))
    rw [follow_append, reached]
    show disk.follow (base ++ front) [last] = _
    rw [follow_part above (straight last (by simp)), if_neg short, List.append_assoc]

theorem follow_below_file (sound : disk.Sound) (straight : Straight front) (fits : Fits front) {content : Content}
    (file : disk.find (base ++ front) = some (.file content)) (more : List String) :
    disk.follow base (front ++ last :: more) = .error .notDirectory := by
  have reached : disk.follow base front = .ok (base ++ front) := follow_found sound straight fits (by simp [file])
  rw [follow_append, reached]
  show disk.follow (base ++ front) (last :: more) = _
  rw [follow, file]

/-- A regular file on the way down, or at its end. -/
def Blocked (disk : Disk) (base : Place) (down : List String) : Prop :=
  ∃ front, front <+: down ∧ ∃ content, disk.find (base ++ front) = some (.file content)

theorem Blocked.longer (blocked : Blocked disk base front) : Blocked disk base (front ++ down) := by
  obtain ⟨first, leads, file⟩ := blocked
  exact ⟨first, leads.trans (List.prefix_append _ _), file⟩

theorem follow_missing (sound : disk.Sound) (straight : Straight front) (fits : Fits front)
    (directory : disk.find base = some .directory) (free : ¬ Blocked disk base front)
    (missing : disk.find (base ++ front) = none) (last : String) :
    disk.follow base (front ++ [last]) = .error .noEntry := by
  induction front using List.reverseRecOn generalizing last with
  | nil => simp [directory] at missing
  | append_singleton upper part ih =>
    have straightUpper : Straight upper := fun other member => straight other (List.mem_append_left _ member)
    have fitsUpper : Fits upper := fun other member => fits other (List.mem_append_left _ member)
    have freeUpper : ¬ Blocked disk base upper := mt Blocked.longer free
    rw [follow_append]
    cases found : disk.find (base ++ upper) with
    | none =>
      rw [ih straightUpper fitsUpper freeUpper found part]
      rfl
    | some entry =>
      cases entry with
      | file content => exact absurd ⟨upper, List.prefix_rfl, content, found⟩ freeUpper
      | directory =>
        have short : ¬ longestName < part.utf8ByteSize := Nat.not_lt.mpr (fits part (by simp))
        have reached : disk.follow base upper = .ok (base ++ upper) :=
          follow_found sound straightUpper fitsUpper (by simp [found])
        have step : disk.follow base (upper ++ [part]) = .ok (base ++ (upper ++ [part])) := by
          rw [follow_append, reached]
          show disk.follow (base ++ upper) [part] = _
          rw [follow_part found (straight part (by simp)), if_neg short, List.append_assoc]
        rw [step]
        show disk.follow (base ++ (upper ++ [part])) [last] = _
        rw [follow, missing]

end straight

private theorem climbing_append {down : List String} (lead : List String) (straight : Straight down) :
    (lead ++ down).takeWhile isUp = lead.takeWhile isUp ∧
      (lead ++ down).dropWhile isUp = lead.dropWhile isUp ++ down := by
  induction lead with
  | nil =>
    cases down with
    | nil => exact ⟨rfl, rfl⟩
    | cons first rest =>
      have stays := straight first List.mem_cons_self
      simp [stays]
  | cons first rest ih =>
    by_cases up : isUp first = true
    · simp [up, ih]
    · simp [up]

/-- What is straight at the end of a path is followed from where the rest leads. -/
theorem reach_append (disk : Disk) (current : Place) (path : Path) {down : List String} (straight : Straight down) :
    disk.reach current { path with parts := path.parts ++ down } =
      (disk.reach current path).bind fun reached => disk.follow reached down := by
  obtain ⟨climbs, goes⟩ := climbing_append path.parts straight
  have begins : start current { path with parts := path.parts ++ down } = start current path := by
    rw [start, start, climbs]
    rfl
  rw [reach, reach, ← follow_append, begins, goes]

/-- The path leads through directories that are there to `base`, and from there straight down. -/
structure Leads (disk : Disk) (current : Place) (path : Path) (base : Place) (down : List String) : Prop where
  reached : ∃ lead, path.parts = lead ++ down ∧ disk.reach current { path with parts := lead } = .ok base
  directory : disk.find base = some .directory
  straight : Straight down

section leads

variable {disk after : Disk} {current base : Place} {path : Path} {down : List String}

theorem Leads.reach (leads : disk.Leads current path base down) : disk.reach current path = disk.follow base down := by
  obtain ⟨lead, shape, reached⟩ := leads.reached
  have whole := reach_append disk current { path with parts := lead } leads.straight
  rw [reached] at whole
  rw [show path = { path with parts := lead ++ down } by rw [← shape], whole]
  rfl

theorem Leads.locate (leads : disk.Leads current path base down) (short : Short path) :
    disk.locate current path = disk.follow base down := by
  rw [locate_of_short disk current short, leads.reach]

theorem Leads.mono (leads : disk.Leads current path base down)
    (kept : ∀ place, disk.find place = some .directory → after.find place = some .directory) :
    after.Leads current path base down := by
  obtain ⟨lead, shape, reached⟩ := leads.reached
  exact ⟨⟨lead, shape, follow_mono kept reached⟩, kept base leads.directory, leads.straight⟩

theorem Leads.parent {last : String} (leads : disk.Leads current path base (down ++ [last])) :
    disk.Leads current path.parent base down := by
  obtain ⟨lead, shape, reached⟩ := leads.reached
  refine ⟨⟨lead, ?_, reached⟩, leads.directory, fun part member => leads.straight part (List.mem_append_left _ member)⟩
  simp [Path.parent, shape]

theorem Leads.child {name : String} (leads : disk.Leads current path base down) (straight : isUp name = false) :
    disk.Leads current (path.child name) base (down ++ [name]) := by
  obtain ⟨lead, shape, reached⟩ := leads.reached
  refine ⟨⟨lead, by simp [Path.child, shape], reached⟩, leads.directory, ?_⟩
  intro part member
  rcases List.mem_append.mp member with inside | same
  · exact leads.straight part inside
  · rw [List.mem_singleton.mp same]
    exact straight

theorem climb_prefix (place : Place) (ups : List String) (up : ∀ part ∈ ups, isUp part = true) :
    Path.climb place ups <+: place := by
  induction ups generalizing place with
  | nil => exact List.prefix_rfl
  | cons part rest ih =>
    have same : part = ".." := beq_iff_eq.mp (up part List.mem_cons_self)
    subst same
    rw [Path.climb]
    exact (ih place.dropLast fun part member => up part (List.mem_cons_of_mem _ member)).trans (List.dropLast_prefix _)

theorem find_start (sound : disk.Sound) (here : disk.find current = some .directory) (path : Path) :
    disk.find (start current path) = some .directory := by
  have origin : disk.find (if path.isAbsolute then [] else current) = some .directory := by
    split
    · exact find_nil disk
    · exact here
  obtain ⟨more, whole⟩ := climb_prefix (if path.isAbsolute then [] else current) (path.parts.takeWhile isUp)
    fun part member => List.mem_takeWhile_imp member
  rw [start]
  by_cases same : more = []
  · rw [same, List.append_nil] at whole
    rw [whole]
    exact origin
  · have found : disk.find (Path.climb (if path.isAbsolute then [] else current) (path.parts.takeWhile isUp) ++ more) ≠
        none := by
      rw [whole, origin]
      simp
    exact sound.directory_above found same

/-- Without `..` after another component, a path leads straight down from where it starts. -/
theorem leads_start (directory : disk.find (start current path) = some .directory)
    (straight : Straight (path.parts.dropWhile isUp)) :
    disk.Leads current path (start current path) (path.parts.dropWhile isUp) := by
  refine ⟨⟨path.parts.takeWhile isUp, List.takeWhile_append_dropWhile.symm, ?_⟩, directory, straight⟩
  have ups : ∀ part ∈ path.parts.takeWhile isUp, isUp part = true := fun part member => List.mem_takeWhile_imp member
  rw [Disk.reach, start, List.dropWhile_eq_nil_iff.mpr ups, List.takeWhile_eq_self_iff.mpr ups]
  rfl

end leads

end WorkflowCompiler.Disk
