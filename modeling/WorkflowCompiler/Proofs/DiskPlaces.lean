import WorkflowCompiler.Disk
import Mathlib

/-! What is found at the places of a disk after a change, and what keeps a disk sound: every place
has one entry, and whatever there is stands in a directory. -/

namespace WorkflowCompiler.Disk

@[simp] theorem find_nil (disk : Disk) : disk.find [] = some .directory := by simp [find]

private theorem lookup_filter_same (entries : List (Place × Entry)) (place : Place) :
    (entries.filter (·.1 != place)).lookup place = none := by
  apply List.lookup_eq_none_iff.mpr
  intro entry member
  have other := (List.mem_filter.mp member).2
  simpa [bne_iff_ne, ne_comm] using other

private theorem lookup_filter (entries : List (Place × Entry)) (keeps : Place × Entry → Bool) (place : Place)
    (kept : ∀ entry, keeps (place, entry) = true) : (entries.filter keeps).lookup place = entries.lookup place := by
  induction entries with
  | nil => rfl
  | cons first rest ih =>
    obtain ⟨other, entry⟩ := first
    by_cases same : place = other
    · subst same
      rw [List.filter_cons_of_pos (kept entry), List.lookup_cons_self, List.lookup_cons_self]
    · have differs : (place == other) = false := by simpa using same
      by_cases stays : keeps (other, entry) = true
      · rw [List.filter_cons_of_pos stays, List.lookup_cons, List.lookup_cons, differs, ih]
      · rw [List.filter_cons_of_neg stays, List.lookup_cons, differs, ih]

theorem find_put {disk : Disk} {place : Place} (named : place ≠ []) (entry : Entry) :
    (disk.put place entry).find place = some entry := by
  rw [find, if_neg named, put, List.lookup_append, lookup_filter_same]
  simp

theorem find_put_of_ne {disk : Disk} {place other : Place} (differs : other ≠ place) (entry : Entry) :
    (disk.put place entry).find other = disk.find other := by
  have single : List.lookup other [(place, entry)] = none := by simp [differs]
  rw [find, find, put, List.lookup_append, lookup_filter _ _ _ (by simp [differs]), single, Option.or_none]

/-- Only what is kept is found. -/
theorem find_filter (disk : Disk) (keeps : Place → Bool) {place : Place} (named : place ≠ []) :
    Disk.find ⟨disk.entries.filter fun entry => keeps entry.1⟩ place = if keeps place then disk.find place else none := by
  rw [find, if_neg named]
  split
  next kept => rw [lookup_filter _ _ _ fun _ => kept, find, if_neg named]
  next removed =>
    apply List.lookup_eq_none_iff.mpr
    rintro ⟨found, entry⟩ member
    have stays := (List.mem_filter.mp member).2
    rw [bne_iff_ne]
    rintro rfl
    exact removed stays

theorem find_erase (disk : Disk) {place : Place} (named : place ≠ []) (other : Place) :
    (disk.erase place).find other = if place <+: other then none else disk.find other := by
  by_cases top : other = []
  · subst top
    rw [find_nil, find_nil, if_neg]
    exact fun leads => named (List.prefix_nil.mp leads)
  · have erased := find_filter disk (fun other => !place.isPrefixOf other) top
    rw [show disk.erase place = ⟨disk.entries.filter fun entry => !place.isPrefixOf entry.1⟩ from rfl, erased]
    simp only [Bool.not_eq_true', ← Bool.not_eq_true, List.isPrefixOf_iff_prefix, ite_not]

/-- A disk without what is below a place. -/
def clear (disk : Disk) (place : Place) : Disk :=
  ⟨disk.entries.filter fun (other, _) => other == place || !place.isPrefixOf other⟩

/-- Everything below a place, without the place itself. -/
def Below (place other : Place) : Prop := place <+: other ∧ other ≠ place

instance (place other : Place) : Decidable (Below place other) := inferInstanceAs (Decidable (_ ∧ _))

theorem find_clear {disk : Disk} {place other : Place} :
    (disk.clear place).find other = if Below place other then none else disk.find other := by
  by_cases top : other = []
  · subst top
    rw [find_nil, find_nil, if_neg]
    exact fun below => below.2 (List.prefix_nil.mp below.1).symm
  · have cleared := find_filter disk (fun other => other == place || !place.isPrefixOf other) top
    rw [show disk.clear place = ⟨disk.entries.filter fun entry => entry.1 == place || !place.isPrefixOf entry.1⟩ from rfl, cleared]
    have same : (other == place || !place.isPrefixOf other) = true ↔ ¬ Below place other := by
      simp only [Below, Bool.or_eq_true, beq_iff_eq, Bool.not_eq_true', ← Bool.not_eq_true, List.isPrefixOf_iff_prefix]
      tauto
    simp only [same, ite_not]

structure Sound (disk : Disk) : Prop where
  distinct : (disk.entries.map Prod.fst).Nodup
  named : ∀ entry ∈ disk.entries, entry.1 ≠ []
  housed : ∀ place name, disk.find (place ++ [name]) ≠ none → disk.find place = some .directory

theorem sound_empty : Sound {} where
  distinct := List.nodup_nil
  named := by simp
  housed := by simp [find]

/-- What is found has an entry. -/
theorem mem_of_find {disk : Disk} {place : Place} (named : place ≠ []) (found : disk.find place ≠ none) :
    place ∈ disk.entries.map Prod.fst := by
  by_contra absent
  apply found
  rw [find, if_neg named]
  apply List.lookup_eq_none_iff.mpr
  intro entry member
  rw [bne_iff_ne]
  rintro same
  exact absent (same ▸ List.mem_map_of_mem member)

/-- A disk can be seen to be sound from its entries. -/
theorem sound_of_entries {disk : Disk} (distinct : (disk.entries.map Prod.fst).Nodup)
    (named : ∀ place ∈ disk.entries.map Prod.fst, place ≠ [])
    (housed : ∀ place ∈ disk.entries.map Prod.fst, disk.find place.dropLast = some .directory) : disk.Sound where
  distinct := distinct
  named := fun entry member => named entry.1 (List.mem_map_of_mem member)
  housed := by
    intro place name found
    simpa using housed _ (mem_of_find (by simp) found)

/-- Under distinct keys every entry can be looked up. -/
theorem lookup_eq_some {α β : Type} [BEq α] [LawfulBEq α] {entries : List (α × β)} {key : α} {value : β}
    (distinct : (entries.map Prod.fst).Nodup) : entries.lookup key = some value ↔ (key, value) ∈ entries := by
  induction entries with
  | nil => simp
  | cons first rest ih =>
    obtain ⟨other, held⟩ := first
    simp only [List.map_cons, List.nodup_cons] at distinct
    by_cases same : key = other
    · subst same
      have absent : (key, value) ∉ rest := fun member => distinct.1 (List.mem_map_of_mem member)
      simp [absent, eq_comm]
    · have differs : (key == other) = false := by simpa using same
      simp [List.lookup_cons, differs, ih distinct.2, same]

theorem find_eq_some {disk : Disk} (sound : disk.Sound) {place : Place} {entry : Entry} (named : place ≠ []) :
    disk.find place = some entry ↔ (place, entry) ∈ disk.entries := by
  rw [find, if_neg named]
  exact lookup_eq_some sound.distinct

/-- Whatever there is below a place makes it a directory. -/
theorem Sound.directory_above {disk : Disk} (sound : disk.Sound) {place more : Place}
    (found : disk.find (place ++ more) ≠ none) (deeper : more ≠ []) : disk.find place = some .directory := by
  induction more using List.reverseRecOn with
  | nil => exact absurd rfl deeper
  | append_singleton front last ih =>
    have above := sound.housed (place ++ front) last (by simpa using found)
    by_cases direct : front = []
    · simpa [direct] using above
    · exact ih (by simp [above]) direct

/-- Nothing is below what is not there. -/
theorem find_below_missing {disk : Disk} (sound : disk.Sound) {place other : Place} (missing : disk.find place = none)
    (below : Below place other) : disk.find other = none := by
  obtain ⟨⟨more, rfl⟩, differs⟩ := below
  by_contra present
  have above := sound.directory_above present (by simpa using differs)
  rw [missing] at above
  cases above

theorem Sound.put {disk : Disk} (sound : disk.Sound) {place : Place} {name : String} {entry : Entry}
    (parent : disk.find place = some .directory) (free : disk.find (place ++ [name]) ≠ some .directory) :
    (disk.put (place ++ [name]) entry).Sound where
  distinct := by
    have kept : ((disk.entries.filter (·.1 != place ++ [name])).map Prod.fst).Nodup :=
      sound.distinct.sublist (List.filter_sublist.map _)
    simp only [Disk.put, List.map_append, List.map_cons, List.map_nil, List.nodup_append]
    refine ⟨kept, by simp, ?_⟩
    intro other member last single same
    obtain ⟨entry, inside, rfl⟩ := List.mem_map.mp member
    have differs := (List.mem_filter.mp inside).2
    simp_all
  named := by
    intro entry member
    rcases List.mem_append.mp member with old | new
    · exact sound.named entry (List.mem_filter.mp old |>.1)
    · simp [List.mem_singleton.mp new]
  housed := by
    intro above last found
    have inside : disk.find above = some .directory := by
      by_cases same : above ++ [last] = place ++ [name]
      · rw [(List.append_inj' same rfl).1]
        exact parent
      · rw [find_put_of_ne same] at found
        exact sound.housed above last found
    rw [find_put_of_ne]
    · exact inside
    · rintro rfl
      exact free inside

theorem Sound.clear {disk : Disk} (sound : disk.Sound) (place : Place) : (disk.clear place).Sound where
  distinct := sound.distinct.sublist (List.filter_sublist.map _)
  named := fun entry member => sound.named entry (List.mem_filter.mp member |>.1)
  housed := by
    intro above name found
    rw [find_clear] at found ⊢
    split at found
    · exact absurd rfl found
    · next outside =>
      have housed := sound.housed above name found
      rw [if_neg, housed]
      rintro ⟨leads, -⟩
      apply outside
      refine ⟨leads.trans (List.prefix_append _ _), ?_⟩
      rintro rfl
      have short := leads.length_le
      rw [List.length_append, List.length_singleton] at short
      omega

end WorkflowCompiler.Disk
