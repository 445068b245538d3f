import WorkflowCompiler.Proofs.DeclaredNames

/-! Three ways to go on from a path: its attributes, its items and `append`. The last two take
every name that is not empty. An attribute is a further segment only where the path has none of
that name itself, so that a chain of attributes is the path meant if and only if it keeps clear of
these names. -/

namespace WorkflowCompiler

namespace Build

/-- The attributes without a leading underscore that a path has for itself. -/
def ownAttributes : List String := ["segments", "append", "to_json"]

variable {segments : List Label} {names : List String} {name : String}

theorem filled_texts (filled : ∀ name ∈ names, name ≠ "") : ∀ label ∈ names.map Label.text, label.chars ≠ "" := by
  intro label there
  obtain ⟨name, named, rfl⟩ := List.mem_map.mp there
  exact filled name named

theorem run_appendTo (filled : ∀ name ∈ names, name ≠ "") (workspace : Workspace) :
    (appendTo (.path segments) (names.map .text)).run workspace =
      (.ok (.path (segments ++ names.map .text)), workspace) := by
  have extended := run_extend segments (names.map .text) (filled_texts filled) workspace
  rwa [List.map_map] at extended

theorem run_extend_text (filled : name ≠ "") (workspace : Workspace) :
    (extend segments [.text name]).run workspace = (.ok (.path (segments ++ [.text name])), workspace) :=
  run_extend segments [.text name] (by simpa [Label.chars] using filled) workspace

theorem run_index (filled : ∀ name ∈ names, name ≠ "") (workspace : Workspace) :
    (index (.path segments) (names.map .text)).run workspace =
      (.ok (.path (segments ++ names.map .text)), workspace) := by
  induction names generalizing segments with
  | nil => simp [index]
  | cons name rest ih =>
    obtain ⟨first, others⟩ := List.forall_mem_cons.mp filled
    rw [List.map_cons, index, run_bind_ok (run_extend_text first workspace), ih others]
    simp

theorem run_attributeOf (shown : name.startsWith "_" = false) (filled : name ≠ "") (free : name ∉ ownAttributes)
    (workspace : Workspace) :
    (attributeOf (.path segments) name).run workspace = (.ok (.path (segments ++ [.text name])), workspace) := by
  have ⟨tuple, method, text⟩ : name ≠ "segments" ∧ name ≠ "append" ∧ name ≠ "to_json" := by
    simpa [ownAttributes] using free
  rw [← run_extend_text filled]
  simp [attributeOf, shown, tuple, method, text]

/-- A name of its own gives the path's segments or one of its methods. -/
theorem run_attributeOf_own (own : name ∈ ownAttributes) (workspace : Workspace) :
    ∃ value, (attributeOf (.path segments) name).run workspace = (.ok value, workspace) ∧ ∀ path, value ≠ .path path := by
  simp only [ownAttributes, List.mem_cons, List.not_mem_nil, or_false] at own
  rcases own with rfl | rfl | rfl
  · exact ⟨.tuple (segments.map Value.ofLabel), rfl, nofun⟩
  · exact ⟨.foreign 0 "method", rfl, nofun⟩
  · exact ⟨.foreign 0 "method", rfl, nofun⟩

/-- Whatever is no path has no paths for attributes. -/
theorem attributesOf_other {value result : Value} {workspace after : Workspace} (other : ∀ path, value ≠ .path path)
    (reached : (attributesOf value names).run workspace = (.ok result, after)) (path : List Label) : result ≠ .path path := by
  cases names with
  | nil =>
    cases reached
    exact other path
  | cons name rest =>
    have refused : (attributeOf value name).run workspace = (.error (.ofCause (.noAttribute value.typeName name)), workspace) := by
      cases value with
      | path segments => exact absurd rfl (other segments)
      | _ => rfl
    rw [attributesOf, run_bind, refused] at reached
    cases reached

theorem run_attributesOf (filled : ∀ name ∈ names, name ≠ "") (shown : ∀ name ∈ names, name.startsWith "_" = false)
    (free : ∀ name ∈ names, name ∉ ownAttributes) (workspace : Workspace) :
    (attributesOf (.path segments) names).run workspace =
      (.ok (.path (segments ++ names.map .text)), workspace) := by
  induction names generalizing segments with
  | nil => simp [attributesOf]
  | cons name rest ih =>
    simp only [List.forall_mem_cons] at filled shown free
    rw [attributesOf, run_bind_ok (run_attributeOf shown.1 filled.1 free.1 workspace), ih filled.2 shown.2 free.2]
    simp

/-- A chain through a name of the path's own leads to no path. -/
theorem attributesOf_own (filled : ∀ name ∈ names, name ≠ "") (shown : ∀ name ∈ names, name.startsWith "_" = false)
    (own : ∃ name ∈ names, name ∈ ownAttributes) {workspace after : Workspace} {result : Value}
    (reached : (attributesOf (.path segments) names).run workspace = (.ok result, after)) (path : List Label) :
    result ≠ .path path := by
  induction names generalizing segments with
  | nil => simp at own
  | cons name rest ih =>
    simp only [List.forall_mem_cons] at filled shown
    rw [attributesOf] at reached
    by_cases here : name ∈ ownAttributes
    · obtain ⟨value, gives, other⟩ := @run_attributeOf_own segments name here workspace
      rw [run_bind_ok gives] at reached
      exact attributesOf_other other reached path
    · rw [run_bind_ok (run_attributeOf shown.1 filled.1 here workspace)] at reached
      exact ih filled.2 shown.2 (by simpa [here] using own) reached

theorem dotted_texts : dotted (segments ++ names.map .text) = ".".intercalate (segments.map Label.chars ++ names) := by
  simp [dotted, Function.comp_def, Label.chars]

/-- Items and `append` go on from a path by any names that are not empty, and what they come to
reads as the dotted text of all names. For names without a leading underscore attributes do the
same exactly when none of them is a name that the path has for itself; with such a name among them
they lead to no path. -/
theorem attributes_extend (segments : List Label) (names : List String) (filled : ∀ name ∈ names, name ≠ "")
    (shown : ∀ name ∈ names, name.startsWith "_" = false) (workspace : Workspace) :
    (index (.path segments) (names.map .text)).run workspace = (.ok (.path (segments ++ names.map .text)), workspace) ∧
    (appendTo (.path segments) (names.map .text)).run workspace = (.ok (.path (segments ++ names.map .text)), workspace) ∧
    ((attributesOf (.path segments) names).run workspace = (.ok (.path (segments ++ names.map .text)), workspace) ↔
      ∀ name ∈ names, name ∉ ownAttributes) ∧
    ((∃ name ∈ names, name ∈ ownAttributes) →
      ∀ path after, (attributesOf (.path segments) names).run workspace ≠ (.ok (.path path), after)) ∧
    workspace.store.plain (.path (segments ++ names.map .text)) =
      .ok (.text (".".intercalate (segments.map Label.chars ++ names))) ∧
    workspace.store.wording (.path (segments ++ names.map .text)) =
      .ok (".".intercalate (segments.map Label.chars ++ names)) := by
  have strays (own : ∃ name ∈ names, name ∈ ownAttributes) (path : List Label) (after : Workspace) :
      (attributesOf (.path segments) names).run workspace ≠ (.ok (.path path), after) :=
    fun reached => attributesOf_own filled shown own reached path rfl
  refine ⟨run_index filled workspace, run_appendTo filled workspace, ⟨fun reached => ?_, fun free => ?_⟩, strays, ?_, ?_⟩
  · by_contra own
    exact strays (by simpa using own) _ _ reached
  · exact run_attributesOf filled shown free workspace
  · rw [← dotted_texts]
    rfl
  · rw [← dotted_texts]
    rfl

/-- The output of a needed job, by its names. -/
theorem attributes_extend_needs :
    (∀ name ∈ ["build", "outputs", "version"], name ≠ "") ∧
    (∀ name ∈ ["build", "outputs", "version"], name.startsWith "_" = false) ∧
    (attributesOf (.path [.text "needs"]) ["build", "outputs", "version"]).run {} =
      (.ok (.path [.text "needs", .text "build", .text "outputs", .text "version"]), {}) := by
  have filled : ∀ name ∈ ["build", "outputs", "version"], name ≠ "" := by decide
  have shown : ∀ name ∈ ["build", "outputs", "version"], name.startsWith "_" = false := by decide +kernel
  exact ⟨filled, shown, (attributes_extend [.text "needs"] ["build", "outputs", "version"] filled shown {}).2.2.1.mpr (by decide)⟩

/-- The axis of a matrix that is called `segments` is no attribute of it. -/
theorem attributes_stray :
    (index (.path [.text "matrix"]) [.text "segments"]).run {} = (.ok (.path [.text "matrix", .text "segments"]), {}) ∧
    (attributesOf (.path [.text "matrix"]) ["segments"]).run {} = (.ok (.tuple [.text "matrix"]), {}) :=
  ⟨rfl, rfl⟩

end Build

end WorkflowCompiler
