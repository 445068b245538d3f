import WorkflowCompiler.Proofs.DeclaredNames
import WorkflowCompiler.Proofs.NamedEntries

/-! Values put under names one after the other. A mapping built so has its names in the order in
which they were first put, each with the value that was put last. -/

namespace WorkflowCompiler

/-- The value that was put last. -/
def lastPut [DecidableEq κ] (puts : List (κ × α)) (key : κ) : Option α := puts.reverse.lookup key

/-- Each name where it was first put, with the value that was put last. -/
def mapping [DecidableEq κ] [Inhabited α] (puts : List (κ × α)) : List (κ × α) :=
  (puts.map Prod.fst).eraseDups.map fun key => (key, (lastPut puts key).getD default)

section

variable [DecidableEq κ]

theorem lastPut_append (puts more : List (κ × α)) (key : κ) :
    lastPut (puts ++ more) key = (lastPut more key).or (lastPut puts key) := by
  simp only [lastPut, List.reverse_append, List.lookup_append]

theorem lastPut_append_singleton (puts : List (κ × α)) (key : κ) (value : α) (other : κ) :
    lastPut (puts ++ [(key, value)]) other = if other = key then some value else lastPut puts other := by
  rw [lastPut_append, lastPut, List.reverse_singleton, List.lookup_cons]
  by_cases same : other = key
  · simp [same]
  · rw [beq_false_of_ne same, if_neg same]
    rfl

theorem eraseDups_append_singleton (keys : List κ) (key : κ) :
    (keys ++ [key]).eraseDups = if key ∈ keys then keys.eraseDups else keys.eraseDups ++ [key] := by
  rw [List.eraseDups_append]
  by_cases member : key ∈ keys <;> simp [member, List.removeAll, List.eraseDups_cons]

theorem nodup_eraseDups (keys : List κ) : keys.eraseDups.Nodup := by
  induction keys using List.reverseRecOn with
  | nil => simp
  | append_singleton keys key ih =>
    rw [eraseDups_append_singleton]
    split
    · exact ih
    · next new =>
      refine List.nodup_append.mpr ⟨ih, List.nodup_singleton key, fun other member last there same => ?_⟩
      rw [same, List.mem_singleton.mp there] at member
      exact new (List.mem_eraseDups.mp member)

theorem eraseDups_of_nodup {keys : List κ} (distinct : keys.Nodup) : keys.eraseDups = keys := by
  induction keys using List.reverseRecOn with
  | nil => rfl
  | append_singleton keys key ih =>
    obtain ⟨before, -, apart⟩ := List.nodup_append.mp distinct
    rw [eraseDups_append_singleton, if_neg fun member => apart key member key (List.mem_singleton_self key) rfl, ih before]

end

theorem putNamed_map {names : List String} (distinct : names.Nodup) (name : String) (value : α) (values : String → α) :
    Workflow.putNamed name value (names.map fun key => (key, values key)) =
      (if name ∈ names then names else names ++ [name]).map fun key => (key, if key = name then value else values key) := by
  induction names with
  | nil => simp [Workflow.putNamed]
  | cons first rest ih =>
    obtain ⟨new, distinct⟩ := List.nodup_cons.mp distinct
    rw [List.map_cons, Workflow.putNamed]
    by_cases same : first = name
    · subst same
      have others : rest.map (fun key => (key, values key)) = rest.map fun key => (key, if key = first then value else values key) := by
        apply List.map_congr_left
        intro key member
        rw [if_neg fun same : key = first => new (same ▸ member)]
      simp [others]
    · rw [if_neg same, ih distinct]
      by_cases member : name ∈ rest
      · simp [member, same]
      · have absent : name ∉ first :: rest := by
          simp [member, Ne.symm same]
        simp [member, absent, same]

theorem mapping_append [Inhabited α] (puts : List (String × α)) (name : String) (value : α) :
    mapping (puts ++ [(name, value)]) = Workflow.putNamed name value (mapping puts) := by
  rw [mapping, mapping, putNamed_map (nodup_eraseDups _), List.map_append, List.map_singleton, eraseDups_append_singleton]
  have members : name ∈ (puts.map Prod.fst).eraseDups ↔ name ∈ puts.map Prod.fst := List.mem_eraseDups
  simp only [members, lastPut_append_singleton]
  congr
  funext key
  by_cases same : key = name <;> simp [same]

theorem mapping_eq_foldl [Inhabited α] (puts : List (String × α)) :
    mapping puts = puts.foldl (fun found put => Workflow.putNamed put.1 put.2 found) [] := by
  induction puts using List.reverseRecOn with
  | nil => rfl
  | append_singleton puts put ih => rw [mapping_append, ih, List.foldl_append, List.foldl_cons, List.foldl_nil]

theorem names_mapping [DecidableEq κ] [Inhabited α] (puts : List (κ × α)) :
    (mapping puts).map Prod.fst = (puts.map Prod.fst).eraseDups := by
  simp [mapping, Function.comp_def]

/-- What is put under distinct names is all there, as it was put. -/
theorem mapping_of_nodup [Inhabited α] {puts : List (String × α)} (distinct : (puts.map Prod.fst).Nodup) : mapping puts = puts := by
  induction puts using List.reverseRecOn with
  | nil => rfl
  | append_singleton puts put ih =>
    rw [List.map_append] at distinct
    obtain ⟨before, -, apart⟩ := List.nodup_append.mp distinct
    have fresh : put.1 ∉ puts.map Prod.fst := fun there => apart _ there _ (List.mem_singleton_self _) rfl
    exact (mapping_append puts put.1 put.2).trans (by rw [ih before, Workflow.putNamed_fresh fresh])

/-- Putting under a key is putting under its name if just the equal keys have one name. -/
theorem insert_named {name : Value → String} {key : Value} {value : α} {entries : List (Value × α)}
    (apart : ∀ entry ∈ entries, Value.equals key entry.1 = (name key == name entry.1)) :
    (Value.insert key value entries).map (fun entry => (name entry.1, entry.2)) =
      Workflow.putNamed (name key) value (entries.map fun entry => (name entry.1, entry.2)) := by
  induction entries with
  | nil => rfl
  | cons entry rest ih =>
    obtain ⟨first, later⟩ := List.forall_mem_cons.mp apart
    by_cases same : name key = name entry.1
    · simp [Value.insert, Workflow.putNamed, first, same]
    · simp [Value.insert, Workflow.putNamed, first, same, Ne.symm same, ih later]

end WorkflowCompiler
