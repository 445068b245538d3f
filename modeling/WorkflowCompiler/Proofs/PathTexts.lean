import Mathlib.Data.List.Basic
import WorkflowCompiler.Path.Posix

/-! Paths and their texts. What is read from a text is in normal form, and a path in normal form is
read back from its own text. Joining and resolving keep the form. -/

namespace WorkflowCompiler.Path

/-- Each component is a name or leads up, and holds no slash. -/
def Normal (path : Path) : Prop := ∀ part ∈ path.parts, isPart part = true ∧ '/' ∉ part.toList

instance (path : Path) : Decidable path.Normal := inferInstanceAs (Decidable (∀ _ ∈ _, _))

/-- A piece of a text has none but the characters of the text, and not the one between the pieces. -/
theorem of_mem_splitOn {separator : Char} {text piece : List Char} (member : piece ∈ text.splitOn separator) :
    ∀ c ∈ piece, c ∈ text ∧ c ≠ separator := by
  induction text generalizing piece with
  | nil =>
    rw [List.splitOn_nil, List.mem_singleton] at member
    subst member
    exact fun c inside => nomatch inside
  | cons first rest ih =>
    have further {piece : List Char} (member : piece ∈ rest.splitOn separator) : ∀ c ∈ piece, c ∈ first :: rest ∧ c ≠ separator :=
      fun c inside => ⟨List.mem_cons_of_mem _ (ih member c inside).1, (ih member c inside).2⟩
    rw [List.splitOn_cons_eq_if_modifyHead] at member
    split at member
    · rcases List.mem_cons.mp member with rfl | later
      · exact fun c inside => nomatch inside
      · exact further later
    next differs =>
      cases pieces : rest.splitOn separator with
      | nil => simp [pieces] at member
      | cons head others =>
        rw [pieces] at further
        rw [pieces, List.modifyHead_cons] at member
        rcases List.mem_cons.mp member with rfl | later
        · refine List.forall_mem_cons.mpr ⟨⟨List.mem_cons_self, ?_⟩, further List.mem_cons_self⟩
          simpa using differs
        · exact further (List.mem_cons_of_mem _ later)

theorem mem_parts_ofText {text part : String} (member : part ∈ (ofText text).parts) :
    isPart part = true ∧ ∀ c ∈ part.toList, c ∈ text.toList ∧ c ≠ '/' := by
  obtain ⟨listed, kept⟩ := List.mem_filter.mp member
  obtain ⟨piece, inside, rfl⟩ := List.mem_map.mp listed
  refine ⟨kept, ?_⟩
  rw [String.toList_ofList]
  exact of_mem_splitOn inside

theorem normal_ofText (text : String) : (ofText text).Normal := by
  intro part member
  obtain ⟨kept, chars⟩ := mem_parts_ofText member
  exact ⟨kept, fun slash => (chars '/' slash).2 rfl⟩

theorem normal_join {path other : Path} (normal : path.Normal) (normalOther : other.Normal) : (path.join other).Normal := by
  unfold join
  split
  · exact normalOther
  · exact List.forall_mem_append.mpr ⟨normal, normalOther⟩

theorem mem_climb {found parts : List String} {part : String} (member : part ∈ climb found parts) : part ∈ found ∨ part ∈ parts := by
  fun_induction climb found parts with
  | case1 => exact .inl member
  | case2 found rest ih => exact (ih member).imp (List.dropLast_subset _ ·) (List.mem_cons_of_mem _)
  | case3 found other rest _ ih =>
    rcases ih member with early | late
    · rcases List.mem_append.mp early with old | new
      · exact .inl old
      · exact .inr (List.mem_cons.mpr (.inl (List.mem_singleton.mp new)))
    · exact .inr (List.mem_cons_of_mem _ late)

theorem normal_resolved {path : Path} (normal : path.Normal) : path.resolved.Normal := by
  intro part member
  rcases mem_climb member with none | listed
  · cases none
  · exact normal part listed

theorem isAbsolute_join {path other : Path} (absolute : path.isAbsolute) : (path.join other).isAbsolute := by
  unfold join
  split
  · assumption
  · exact absolute

/-- The components with slashes between them. -/
def bodyOf (parts : List String) : List Char := ['/'].intercalate (parts.map String.toList)

theorem toList_text {path : Path} (filled : (rootText path.root).toList ++ bodyOf path.parts ≠ []) :
    path.text.toList = (rootText path.root).toList ++ bodyOf path.parts := by
  have chars : (rootText path.root ++ "/".intercalate path.parts).toList = (rootText path.root).toList ++ bodyOf path.parts := by
    rw [String.toList_append, String.toList_intercalate]
    rfl
  have written : (rootText path.root ++ "/".intercalate path.parts).isEmpty = false := by
    rw [Bool.eq_false_iff]
    intro empty
    rw [String.isEmpty_iff.mp empty] at chars
    exact filled chars.symm
  rw [text, written, if_neg (by simp), chars]

/-- The components begin with a character of the first one. -/
theorem exists_bodyOf {part : String} (parts : List String) (filled : isPart part = true) (single : '/' ∉ part.toList) :
    ∃ c rest, bodyOf (part :: parts) = c :: rest ∧ c ≠ '/' := by
  cases chars : part.toList with
  | nil =>
    rw [String.toList_eq_nil_iff.mp chars] at filled
    cases filled
  | cons c rest =>
    have differs : c ≠ '/' := by
      rintro rfl
      exact single (by rw [chars]; exact List.mem_cons_self)
    cases parts with
    | nil => exact ⟨c, rest, by simp [bodyOf, chars], differs⟩
    | cons second others => exact ⟨c, _, by simp [bodyOf, chars]; rfl, differs⟩

theorem rootOf_written (root : PathRoot) {c : Char} (rest : List Char) (differs : c ≠ '/') :
    rootOf ((rootText root).toList ++ c :: rest) = root := by
  cases root <;> simp [rootText, rootOf, differs]

/-- The slashes of the root separate no components. -/
theorem parts_written (root : PathRoot) (body : List Char) :
    ((((rootText root).toList ++ body).splitOn '/').map String.ofList).filter isPart =
      ((body.splitOn '/').map String.ofList).filter isPart := by
  cases root <;> simp [rootText, List.splitOn_cons_eq_if_modifyHead, isPart]

theorem splitOn_bodyOf {parts : List String} (filled : parts ≠ []) (single : ∀ part ∈ parts, '/' ∉ part.toList) :
    (bodyOf parts).splitOn '/' = parts.map String.toList :=
  List.splitOn_intercalate '/' (by simpa using single) (by simpa using filled)

/-- A path in normal form is read back from its text. -/
theorem ofText_text {path : Path} (normal : path.Normal) : ofText path.text = path := by
  obtain ⟨root, parts⟩ := path
  cases parts with
  | nil => cases root <;> decide +kernel
  | cons part parts =>
    obtain ⟨filled, single⟩ := normal part List.mem_cons_self
    obtain ⟨c, rest, body, differs⟩ := exists_bodyOf parts filled single
    have names : ((part :: parts).map String.toList).map String.ofList = part :: parts := by
      simp [List.map_map, Function.comp_def]
    rw [ofText, toList_text (by simp [body]), parts_written, splitOn_bodyOf (by simp) fun part member => (normal part member).2,
      names, List.filter_eq_self.mpr fun part member => (normal part member).1, body, rootOf_written root rest differs]

/-- The text of an absolute path begins with a slash. -/
theorem exists_text {path : Path} (absolute : path.isAbsolute) : ∃ rest, path.text.toList = '/' :: rest := by
  obtain ⟨root, parts⟩ := path
  obtain ⟨rest, slash⟩ : ∃ rest, (rootText root).toList ++ bodyOf parts = '/' :: rest := by
    cases root with
    | relative => cases absolute
    | single | double => exact ⟨_, rfl⟩
  exact ⟨rest, by rw [toList_text (by simp [slash]), slash]⟩

end WorkflowCompiler.Path
