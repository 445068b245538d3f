import WorkflowCompiler.Builder.Workflow

/-! Entries under names and under keys: what there is once another one has been put among them. -/

namespace WorkflowCompiler

namespace Value

/-- An entry that is put into a mapping keeps what its keys and its values are. -/
theorem forall_mem_insert (onKey : Value → Prop) (onItem : α → Prop) {key : Value} {item : α} {entries : List (Value × α)}
    (fineKey : onKey key) (fineItem : onItem item) (all : ∀ entry ∈ entries, onKey entry.1 ∧ onItem entry.2) :
    ∀ entry ∈ insert key item entries, onKey entry.1 ∧ onItem entry.2 := by
  induction entries with
  | nil => exact fun entry member => by cases List.mem_singleton.mp member; exact ⟨fineKey, fineItem⟩
  | cons entry rest ih =>
    obtain ⟨first, later⟩ := List.forall_mem_cons.mp all
    rw [insert]
    split
    · exact List.forall_mem_cons.mpr ⟨⟨first.1, fineItem⟩, later⟩
    · exact List.forall_mem_cons.mpr ⟨first, ih later⟩

theorem mem_insert {key : Value} {value : α} {entries : List (Value × α)} :
    ∀ entry ∈ insert key value entries, entry.1 = key ∨ entry.1 ∈ entries.map Prod.fst := by
  intro entry member
  have all : ∀ other ∈ entries, (other.1 = key ∨ other.1 ∈ entries.map Prod.fst) ∧ True :=
    fun other there => ⟨.inr (List.mem_map_of_mem there), trivial⟩
  exact (forall_mem_insert (fun other => other = key ∨ other ∈ entries.map Prod.fst) (fun _ => True) (.inl rfl) trivial all entry member).1

end Value

namespace Workflow

variable {name : String} {value : α} {found : List (String × α)}

theorem putNamed_keys : (putNamed name value found).map Prod.fst =
    if name ∈ found.map Prod.fst then found.map Prod.fst else found.map Prod.fst ++ [name] := by
  induction found with
  | nil => simp [putNamed]
  | cons entry rest ih =>
    obtain ⟨other, old⟩ := entry
    rw [putNamed]
    by_cases same : other = name
    · simp [same]
    · have keys : name ∈ other :: rest.map Prod.fst ↔ name ∈ rest.map Prod.fst := by
        rw [List.mem_cons, or_iff_right (Ne.symm same)]
      rw [if_neg same, List.map_cons, ih, List.map_cons]
      simp only [keys]
      split
      · rfl
      · rfl

/-- What has a new name is put behind the others. -/
theorem putNamed_fresh (fresh : name ∉ found.map Prod.fst) : putNamed name value found = found ++ [(name, value)] := by
  induction found with
  | nil => rfl
  | cons other rest ih =>
    obtain ⟨apart, fresh⟩ := not_or.mp (mt List.mem_cons.mpr fresh)
    rw [putNamed, if_neg (Ne.symm apart), ih fresh]
    rfl

/-- Names stay distinct. -/
theorem nodup_putNamed (distinct : (found.map Prod.fst).Nodup) : ((putNamed name value found).map Prod.fst).Nodup := by
  rw [putNamed_keys]
  split
  · exact distinct
  · next absent =>
    refine List.nodup_append.mpr ⟨distinct, List.nodup_cons.mpr ⟨by simp, List.nodup_nil⟩, ?_⟩
    rintro key member other single rfl
    exact absent (List.mem_singleton.mp single ▸ member)

theorem mem_putNamed {entry : String × α} (member : entry ∈ putNamed name value found) :
    entry = (name, value) ∨ entry ∈ found := by
  induction found with
  | nil => exact .inl (List.mem_singleton.mp member)
  | cons entry rest ih =>
    obtain ⟨other, old⟩ := entry
    rw [putNamed] at member
    split at member
    · next same =>
      subst same
      rcases List.mem_cons.mp member with rfl | later
      · exact .inl rfl
      · exact .inr (List.mem_cons_of_mem _ later)
    · rcases List.mem_cons.mp member with rfl | later
      · exact .inr List.mem_cons_self
      · exact (ih later).imp_right (List.mem_cons_of_mem _)

theorem forall_mem_putNamed {good : α → Prop} (fine : good value) (all : ∀ entry ∈ found, good entry.2) :
    ∀ entry ∈ putNamed name value found, good entry.2 := by
  intro entry member
  rcases mem_putNamed member with rfl | old
  · exact fine
  · exact all entry old

end Workflow

end WorkflowCompiler
