import Mathlib.Data.List.Infix
import WorkflowCompiler.Diff.Report

/-! Matching finds lines that both texts really have. So the edits tell both texts: one is what is kept and
removed, the other what is kept and added. Which of the common runs is taken does not matter for this. -/

namespace WorkflowCompiler.Diff

/-- The lines that end both lists are at least `size` lines. -/
def EndsAlike (first second : List String) (size : Nat) : Prop :=
  ∃ common, common.length = size ∧ common <:+ first ∧ common <:+ second

/-- The run is found in both texts where it says. -/
def Run.Matches (first second : List String) (run : Run) : Prop :=
  ∃ before earlier common after later, first = before ++ common ++ after ∧ second = earlier ++ common ++ later ∧
    before.length = run.first ∧ earlier.length = run.second ∧ common.length = run.size

/-- Of two things the one on this side. -/
def Side.of : Side → α → α → α
  | .expected, first, _ => first
  | .received, _, second => second

/-- What an edit has of the text on this side. -/
def Edit.part (side : Side) : Edit → List String
  | .keep lines => lines
  | .change removed added => side.of removed added

section

variable {starts : String → Bool} {first second seen before rest : List String} {row : List Nat}

theorem endsAlike_zero (first second : List String) : EndsAlike first second 0 := ⟨[], by simp⟩

theorem EndsAlike.extend {size : Nat} (alike : EndsAlike first second size) (line : String) :
    EndsAlike (first ++ [line]) (second ++ [line]) (size + 1) := by
  obtain ⟨common, length, ⟨early, rfl⟩, late, rfl⟩ := alike
  exact ⟨common ++ [line], by simp [length], ⟨early, by simp⟩, ⟨late, by simp⟩⟩

/-- A row holds lengths of runs that end here in the first text; `before` is what is left of the row's
first column in the second text. -/
def Sound (seen before rest : List String) (row : List Nat) : Prop :=
  ∀ column size, row[column]? = some size → EndsAlike seen (before ++ rest.take (column + 1)) size

theorem sound_nil (seen before rest : List String) : Sound seen before rest [] := by
  intro column size found
  cases found

theorem Sound.tail {other : String} (sound : Sound seen before (other :: rest) row) :
    Sound seen (before ++ [other]) rest (row.drop 1) := by
  intro column size found
  rw [List.getElem?_drop] at found
  have here := sound (1 + column) size found
  rwa [Nat.add_comm 1, List.take_succ_cons, List.append_cons] at here

theorem Sound.head {other : String} (sound : Sound seen before (other :: rest) row) :
    EndsAlike seen (before ++ [other]) (row.headD 0) := by
  cases row with
  | nil => exact endsAlike_zero _ _
  | cons size row => simpa using sound 0 size rfl

theorem nextRow_sound (line : String) (above : Nat) (diagonal : EndsAlike seen before above)
    (sound : Sound seen before rest row) : Sound (seen ++ [line]) before rest (nextRow line above rest row) := by
  induction rest generalizing above before row with
  | nil => exact sound_nil _ _ _
  | cons other rest ih =>
    intro column size found
    cases column with
    | zero =>
      simp only [nextRow, List.getElem?_cons_zero, Option.some.injEq] at found
      subst found
      rw [List.take_succ_cons, List.take_zero]
      split
      next same =>
        rw [← beq_iff_eq.mp same]
        exact diagonal.extend line
      next => exact endsAlike_zero _ _
    | succ column =>
      have later := ih (row.headD 0) sound.head sound.tail column size (by simpa [nextRow] using found)
      rwa [List.append_assoc, List.singleton_append, ← List.take_succ_cons] at later

theorem EndsAlike.matches {line column size : Nat} {after later : List String} (alike : EndsAlike seen before size)
    (atLine : seen.length = line + 1) (atColumn : before.length = column + 1) :
    Run.Matches (seen ++ after) (before ++ later) ⟨line + 1 - size, column + 1 - size, size⟩ := by
  obtain ⟨common, rfl, ⟨early, rfl⟩, late, rfl⟩ := alike
  rw [List.length_append] at atLine atColumn
  exact ⟨early, late, common, after, later, rfl, rfl, by simp only; omega, by simp only; omega, rfl⟩

theorem improve_matches {line : Nat} {best : Run} {after : List String} (atLine : seen.length = line + 1)
    (sound : Sound seen before rest row) (short : row.length ≤ rest.length)
    (fits : best.Matches (seen ++ after) (before ++ rest)) :
    (improve line before.length row best).Matches (seen ++ after) (before ++ rest) := by
  induction row generalizing before rest best with
  | nil => exact fits
  | cons size row ih =>
    cases rest with
    | nil => cases short
    | cons other rest =>
      have next : before.length + 1 = (before ++ [other]).length := by simp
      have here : EndsAlike seen (before ++ [other]) size := by simpa using sound 0 size rfl
      rw [improve, next, List.append_cons]
      apply ih sound.tail (Nat.le_of_succ_le_succ short)
      rw [← next]
      split
      · exact here.matches atLine next.symm
      · rwa [List.append_cons] at fits

theorem length_nextRow (line : String) (above : Nat) (row : List Nat) : (nextRow line above rest row).length = rest.length := by
  induction rest generalizing above row with
  | nil => rfl
  | cons other rest ih => rw [nextRow, List.length_cons, ih, List.length_cons]

theorem longestFrom_matches {best : Run} (sound : Sound seen [] second row) (fits : best.Matches (seen ++ rest) second) :
    (longestFrom starts second seen.length rest row best).Matches (seen ++ rest) second := by
  induction rest generalizing seen row best with
  | nil => exact fits
  | cons current rest ih =>
    have row' : Sound (seen ++ [current]) [] second (if starts current then nextRow current 0 second row else []) ∧
        (if starts current then nextRow current 0 second row else []).length ≤ second.length := by
      split
      · exact ⟨nextRow_sound current 0 (endsAlike_zero _ _) sound, by rw [length_nextRow]⟩
      · exact ⟨sound_nil _ _ _, Nat.zero_le _⟩
    have next : (seen ++ [current]).length = seen.length + 1 := by simp
    rw [longestFrom, ← next, List.append_cons]
    apply ih row'.1
    rw [List.append_cons] at fits
    exact improve_matches next row'.1 row'.2 fits

theorem commonLength_prefix (left right : List String) :
    ∃ common, common.length = commonLength left right ∧ common <+: left ∧ common <+: right := by
  induction left generalizing right with
  | nil => exact ⟨[], by simp [commonLength]⟩
  | cons line left ih =>
    cases right with
    | nil => exact ⟨[], by simp [commonLength]⟩
    | cons other right =>
      rw [commonLength]
      split
      next same =>
        obtain ⟨common, length, onLeft, onRight⟩ := ih right
        rw [← beq_iff_eq.mp same]
        exact ⟨line :: common, by simp [length], List.cons_prefix_cons.mpr ⟨rfl, onLeft⟩,
          List.cons_prefix_cons.mpr ⟨rfl, onRight⟩⟩
      next => exact ⟨[], by simp⟩

theorem Run.Matches.widen {run : Run} (fits : run.Matches first second) : (run.widen first second).Matches first second := by
  obtain ⟨before, earlier, common, after, later, rfl, rfl, atFirst, atSecond, size⟩ := fits
  have takeFirst : (before ++ common ++ after).take run.first = before := by simp [← atFirst]
  have takeSecond : (earlier ++ common ++ later).take run.second = earlier := by simp [← atSecond]
  have dropFirst : (before ++ common ++ after).drop (run.first + run.size) = after := by simp [← atFirst, ← size]
  have dropSecond : (earlier ++ common ++ later).drop (run.second + run.size) = later := by simp [← atSecond, ← size]
  rw [Run.widen, takeFirst, takeSecond, dropFirst, dropSecond]
  obtain ⟨front, frontLength, onLeft, onRight⟩ := commonLength_prefix before.reverse earlier.reverse
  obtain ⟨back, backLength, ⟨after, rfl⟩, later, rfl⟩ := commonLength_prefix after later
  obtain ⟨start, rfl⟩ := List.reverse_prefix.mp (by rwa [List.reverse_reverse] : front.reverse.reverse <+: before.reverse)
  obtain ⟨other, rfl⟩ := List.reverse_prefix.mp (by rwa [List.reverse_reverse] : front.reverse.reverse <+: earlier.reverse)
  rw [List.length_append, List.length_reverse] at atFirst atSecond
  refine ⟨start, other, front.reverse ++ common ++ back, after, later, by simp, by simp, ?_, ?_, ?_⟩
  · simp only; omega
  · simp only; omega
  · simp only [List.length_append, List.length_reverse]; omega

theorem longest_matches (starts : String → Bool) (first second : List String) : (longest starts first second).Matches first second :=
  have whole : (Run.mk 0 0 0).Matches ([] ++ first) second := ⟨[], [], [], first, second, rfl, rfl, rfl, rfl, rfl⟩
  (longestFrom_matches (sound_nil _ _ _) whole).widen

theorem part_join (side : Side) (edit : Edit) (edits : List Edit) :
    (edit.join edits).flatMap (Edit.part side) = edit.part side ++ edits.flatMap (Edit.part side) := by
  unfold Edit.join
  split
  · simp [Edit.part]
  · simp [Edit.part]
  · cases side <;> simp [Edit.part, Side.of]
  · simp

theorem Run.Matches.same {run : Run} (fits : run.Matches first second) :
    (first.drop run.first).take run.size = (second.drop run.second).take run.size := by
  obtain ⟨before, earlier, common, after, later, rfl, rfl, atFirst, atSecond, size⟩ := fits
  simp [← atFirst, ← atSecond, ← size]

/-- A list is what it is before, in and after a run. -/
theorem around_run (lines : List String) (start size : Nat) :
    lines.take start ++ ((lines.drop start).take size ++ lines.drop (start + size)) = lines := by
  rw [← List.drop_drop, List.take_append_drop, List.take_append_drop]

/-- The edits tell both texts, whatever edits follow. -/
theorem editsFrom_part (side : Side) (starts : String → Bool) (first second : List String) (edits : List Edit) :
    (editsFrom starts first second edits).flatMap (Edit.part side) = side.of first second ++ edits.flatMap (Edit.part side) := by
  fun_induction editsFrom starts first second edits with
  | case1 first second edits run _ after kept behind _ before =>
    have same : (first.drop run.first).take run.size = (second.drop run.second).take run.size :=
      (longest_matches starts first second).same
    have middle : kept.flatMap (Edit.part side) = (first.drop run.first).take run.size ++ after.flatMap (Edit.part side) :=
      part_join side _ after
    rw [before, middle, behind]
    cases side with
    | expected =>
      simp only [Side.of]
      rw [← List.append_assoc _ _ (edits.flatMap _), ← List.append_assoc, around_run]
    | received =>
      simp only [Side.of]
      rw [same, ← List.append_assoc _ _ (edits.flatMap _), ← List.append_assoc, around_run]
  | case2 first second edits => exact part_join side _ edits

theorem edits_part (side : Side) (first second : List String) :
    (edits first second).flatMap (Edit.part side) = side.of first second := by
  rw [edits, editsFrom_part, List.flatMap_nil, List.append_nil]

end

end WorkflowCompiler.Diff
