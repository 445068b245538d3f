import WorkflowCompiler.Command.Console

/-! What is seen of a message on the console: its label as it is, and behind it the message with what the console makes of tabs,
of characters that move the cursor, of names between colons and of escaped brackets. -/

namespace WorkflowCompiler.Command

/-- How the console shows a message behind a label of `column` characters. -/
def shownBehind (emoji : Emoji) (column : Nat) (text : String) : String :=
  let shown := (pieces false (unescapeBrackets text.toList)).flatMap (showCodes emoji none)
  String.ofList (expandTabs column (shown.filter (!movesCursor ·))) ++ "\n"

section

variable {emoji : Emoji} {text : List Char}

/-- Characters that stay as they are wherever they stand in a line. -/
def isSteady (c : Char) : Bool := c != '\n' && c != '\t' && !movesCursor c

theorem expandTabs_append {label : List Char} (steady : label.all isSteady = true) (column : Nat) (rest : List Char) :
    expandTabs column (label ++ rest) = label ++ expandTabs (column + label.length) rest := by
  induction label generalizing column with
  | nil => rfl
  | cons c label ih =>
    obtain ⟨here, later⟩ := Bool.and_eq_true_iff.mp steady
    have feed : c ≠ '\n' := by rintro rfl; cases here
    have tab : c ≠ '\t' := by rintro rfl; cases here
    rw [List.cons_append, expandTabs, ih later, List.length_cons, Nat.add_right_comm, Nat.add_assoc]
    · rfl
    · exact feed
    · exact tab

theorem filter_append {label : List Char} (steady : label.all isSteady = true) (rest : List Char) :
    (label ++ rest).filter (!movesCursor ·) = label ++ rest.filter (!movesCursor ·) := by
  rw [List.filter_append, List.filter_eq_self.mpr]
  intro c member
  have whole := List.all_eq_true.mp steady c member
  rw [isSteady, Bool.and_eq_true] at whole
  exact whole.2

theorem pieces_ne_nil (inTag : Bool) (text : List Char) : pieces inTag text ≠ [] := by
  fun_induction pieces inTag text <;> simp_all

/-- A blank in front of a message stays there. -/
theorem flatMap_pieces_blank : (pieces false (' ' :: text)).flatMap (showCodes emoji none) =
    ' ' :: (pieces false text).flatMap (showCodes emoji none) := by
  have step : pieces false (' ' :: text) = (pieces false text).modifyHead (' ' :: ·) := rfl
  rw [step]
  cases whole : pieces false text with
  | nil => exact absurd whole (pieces_ne_nil false text)
  | cons piece others => rfl

theorem messageLine_behind {label : String} (steady : label.toList.all isSteady = true) (text : String) :
    messageLine emoji label (" " ++ text) = label ++ " " ++ shownBehind emoji (label.length + 1) text := by
  have blank : unescapeBrackets (" " ++ text).toList = ' ' :: unescapeBrackets text.toList := by
    rw [String.toList_append]
    rfl
  have tabs (rest : List Char) : expandTabs label.toList.length (' ' :: rest) = ' ' :: expandTabs (label.length + 1) rest := by
    rw [String.length_toList]
    rfl
  rw [messageLine, line, blank, flatMap_pieces_blank, filter_append steady, expandTabs_append steady, Nat.zero_add,
    List.filter_cons_of_pos rfl, tabs, shownBehind]
  simp [← String.toList_inj]

theorem showCodes_nil : showCodes emoji none [] = [] := rfl

theorem messageLine_alone {label : String} (steady : label.toList.all isSteady = true) : messageLine emoji label "" = label ++ "\n" := by
  have whole := expandTabs_append steady 0 []
  rw [messageLine, line, filter_append steady]
  simp only [List.append_nil] at whole
  simp [pieces, unescapeBrackets, showCodes_nil, expandTabs, whole]

theorem unescapeBrackets_plain (plain : '\\' ∉ text) : unescapeBrackets text = text := by
  fun_induction unescapeBrackets text with
  | case1 => rfl
  | case2 => simp at plain
  | case3 => simp at plain
  | case4 c rest _ ih =>
    rw [ih]
    exact fun member => plain (List.mem_cons_of_mem _ member)

theorem flatten_pieces (inTag : Bool) (text : List Char) : (pieces inTag text).flatten = text := by
  have front (c : Char) {all : List (List Char)} (filled : all ≠ []) : (all.modifyHead (c :: ·)).flatten = c :: all.flatten := by
    cases all with
    | nil => exact absurd rfl filled
    | cons piece others => rfl
  fun_induction pieces inTag text with
  | case1 => rfl
  | case2 inTag c rest starts ih => rw [List.flatten_cons, front c (pieces_ne_nil true rest), ih]; rfl
  | case3 inTag c rest starts ends ih => rw [List.flatten_cons, ih]; rfl
  | case4 inTag c rest starts ends ih => rw [front c (pieces_ne_nil inTag rest), ih]

theorem showCodes_cons {c : Char} (other : c ≠ ':') (rest : List Char) :
    showCodes emoji none (c :: rest) = c :: showCodes emoji none rest := by
  rw [showCodes.eq_def]
  split <;> simp_all

theorem showCodes_plain (plain : ':' ∉ text) : showCodes emoji none text = text := by
  induction text with
  | nil => rfl
  | cons c text ih =>
    have here : c ≠ ':' := fun same => plain (same ▸ List.mem_cons_self)
    rw [showCodes_cons here, ih fun member => plain (List.mem_cons_of_mem _ member)]

theorem shownBehind_plain {text : String} (plain : ∀ c ∈ text.toList, isSteady c = true ∧ c ≠ '\\' ∧ c ≠ ':') (column : Nat) :
    shownBehind emoji column text = text ++ "\n" := by
  have steady : text.toList.all isSteady = true := List.all_eq_true.mpr fun c member => (plain c member).1
  have noEscape : '\\' ∉ text.toList := fun member => (plain _ member).2.1 rfl
  have shown : (pieces false text.toList).flatMap (showCodes emoji none) = text.toList := by
    have each : ∀ piece ∈ pieces false text.toList, showCodes emoji none piece = piece := by
      intro piece member
      refine showCodes_plain fun colon => ?_
      have inside : ':' ∈ (pieces false text.toList).flatten := List.mem_flatten_of_mem member colon
      rw [flatten_pieces] at inside
      exact (plain _ inside).2.2 rfl
    rw [List.flatMap_def, List.map_congr_left each, List.map_id', flatten_pieces]
  have tabs := expandTabs_append steady column []
  have still := filter_append steady []
  simp only [List.append_nil, List.filter_nil] at tabs still
  rw [shownBehind, unescapeBrackets_plain noEscape]
  simp only [shown, still, tabs, expandTabs, List.append_nil, String.ofList_toList]

end

end WorkflowCompiler.Command
