import WorkflowCompiler.Proofs.DiskPaths

/-! Emptying a directory, one child after the other. It comes to an end when the path of every child
is short enough, and then all below the directory is gone and nothing else. -/

namespace WorkflowCompiler.Disk

section

variable {disk after : Disk} {place : Place} {path : Path} {name : String} {names : List String}

theorem of_mem_within {held : String × Entry} (member : held ∈ disk.within place) : (place ++ [held.1], held.2) ∈ disk.entries := by
  obtain ⟨⟨other, entry⟩, there, found⟩ := List.mem_filterMap.mp member
  cases last : other.getLast? with
  | none => simp [last] at found
  | some final =>
    simp only [last] at found
    split at found
    · next inside =>
      cases found
      have whole := List.dropLast_append_getLast? final last
      rw [beq_iff_eq.mp inside] at whole
      rwa [whole]
    · cases found

theorem mem_within (sound : disk.Sound) {entry : Entry} :
    (name, entry) ∈ disk.within place ↔ disk.find (place ++ [name]) = some entry := by
  rw [find_eq_some sound (by simp)]
  exact ⟨of_mem_within, fun member => List.mem_filterMap.mpr ⟨_, member, by simp⟩⟩

/-- Whatever is directly in the directory has a short path. -/
def ShortWithin (disk : Disk) (path : Path) (place : Place) : Prop :=
  ∀ name, disk.find (place ++ [name]) ≠ none → Short (path.child name)

theorem shortWithin_iff (sound : disk.Sound) :
    ShortWithin disk path place ↔ ∀ name ∈ (disk.within place).map Prod.fst, Short (path.child name) := by
  constructor
  · rintro short name member
    obtain ⟨⟨_, entry⟩, inside, rfl⟩ := List.mem_map.mp member
    exact short _ (by simp [(mem_within sound).mp inside])
  · intro short name found
    obtain ⟨entry, there⟩ := Option.ne_none_iff_exists'.mp found
    exact short name (List.mem_map_of_mem ((mem_within sound).mpr there))

/-- Removing children removes them with all below them, and ends well just if their paths are short. -/
theorem removeAll_ok : disk.removeAll path place names = (after, .ok ()) ↔
    (∀ name ∈ names, Short (path.child name)) ∧
      after = ⟨disk.entries.filter fun entry => !names.any fun name => (place ++ [name]).isPrefixOf entry.1⟩ := by
  induction names generalizing disk with
  | nil =>
    rw [removeAll, List.filter_eq_self.mpr (by simp)]
    simp [eq_comm]
  | cons name names ih =>
    rw [removeAll]
    by_cases short : Short (path.child name)
    · rw [if_neg (Nat.not_lt.mpr short), ih, erase, List.filter_filter]
      simp [short, Bool.and_comm]
    · rw [if_pos (not_short.mp short)]
      simp [short]

/-- Whatever comes of it, what is not below the directory stays, -/
theorem removeAll_kept {other : Place} (outside : ¬ Below place other) :
    (disk.removeAll path place names).1.find other = disk.find other := by
  induction names generalizing disk with
  | nil => rfl
  | cons name names ih =>
    rw [removeAll]
    split
    · rfl
    · rw [ih, find_erase disk (by simp), if_neg]
      rintro ⟨more, rfl⟩
      exact outside ⟨⟨name :: more, by simp⟩, by simp⟩

/-- and nothing new is found. -/
theorem removeAll_found {other : Place} {entry : Entry} (found : (disk.removeAll path place names).1.find other = some entry) :
    disk.find other = some entry := by
  induction names generalizing disk with
  | nil => exact found
  | cons name names ih =>
    rw [removeAll] at found
    split at found
    · exact found
    · have before := ih found
      rw [find_erase disk (by simp)] at before
      split at before
      · cases before
      · exact before

/-- Nothing but a path that is too long ends it early. -/
theorem removeAll_error {failure : Failure} (failed : disk.removeAll path place names = (after, .error failure)) :
    ∃ name, failure = refusal .nameTooLong (path.child name) := by
  induction names generalizing disk with
  | nil => cases failed
  | cons name names ih =>
    rw [removeAll] at failed
    split at failed
    · cases failed
      exact ⟨name, rfl⟩
    · exact ih failed

/-- What is below a directory is below something directly in it. -/
theorem exists_child (sound : disk.Sound) {other : Place} {entry : Entry} (there : (other, entry) ∈ disk.entries)
    (below : Below place other) : ∃ name ∈ (disk.within place).map Prod.fst, place ++ [name] <+: other := by
  obtain ⟨⟨more, rfl⟩, differs⟩ := below
  cases more with
  | nil => simp at differs
  | cons name rest =>
    have leads : place ++ [name] <+: place ++ name :: rest := ⟨rest, by simp⟩
    have found : disk.find (place ++ [name]) ≠ none := by
      by_cases direct : rest = []
      · subst direct
        rw [(find_eq_some sound (by simp)).mpr there]
        simp
      · have whole : disk.find (place ++ [name] ++ rest) = some entry := by
          rw [List.append_assoc, List.singleton_append, find_eq_some sound (sound.named _ there)]
          exact there
        rw [sound.directory_above (by rw [whole]; nofun) direct]
        simp
    obtain ⟨held, inside⟩ := Option.ne_none_iff_exists'.mp found
    exact ⟨name, List.mem_map_of_mem ((mem_within sound).mpr inside), leads⟩

theorem filter_children (sound : disk.Sound) (place : Place) :
    (disk.entries.filter fun entry => !((disk.within place).map Prod.fst).any fun name => (place ++ [name]).isPrefixOf entry.1) =
      (disk.clear place).entries := by
  apply List.filter_congr
  rintro ⟨other, entry⟩ there
  rw [Bool.eq_iff_iff]
  simp only [Bool.not_eq_true', List.any_eq_false, List.isPrefixOf_iff_prefix, Bool.or_eq_true, beq_iff_eq]
  rw [Bool.eq_false_iff, ne_eq, List.isPrefixOf_iff_prefix, or_iff_not_imp_left]
  constructor
  · intro apart differs leads
    obtain ⟨name, member, inside⟩ := exists_child sound there ⟨leads, differs⟩
    exact apart name member inside
  · intro outside name _ leads
    refine outside ?_ ((List.prefix_append _ _).trans leads)
    rintro rfl
    have long := leads.length_le
    rw [List.length_append, List.length_singleton] at long
    omega

/-- Emptying a directory ends well just if the paths of its children are short, and then leaves all
but what is below it. -/
theorem empty_ok (sound : disk.Sound) :
    disk.empty path place = (after, .ok ()) ↔ ShortWithin disk path place ∧ after = disk.clear place := by
  rw [empty, removeAll_ok, shortWithin_iff sound, filter_children sound]

end

end WorkflowCompiler.Disk
