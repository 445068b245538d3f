import WorkflowCompiler.Proofs.PatchReports

/-! When a report is empty. Between a text and itself the longest run lies on the diagonal of the table, so there
are no hunks; where lines differ the first change is shown, or its mark. -/

namespace WorkflowCompiler.Diff

/-- How many of the last lines in a row may start a run. -/
def startsAtEnd (starts : String → Bool) (lines : List String) : Nat := (lines.reverse.takeWhile starts).length

/-- How the runs of a text with itself are bounded, those that end after each number of lines of the second
text: by what may start a run on either side. Those on the diagonal are as long as that. -/
structure Bounded (starts : String → Bool) (seen whole : List String) (row : List Nat) : Prop where
  line : ∀ column, (0 :: row).getD column 0 ≤ startsAtEnd starts seen
  column : ∀ column, (0 :: row).getD column 0 ≤ startsAtEnd starts (whole.take column)
  diagonal : (0 :: row).getD seen.length 0 = startsAtEnd starts seen

section

variable {starts : String → Bool} {seen rest whole lines : List String} {row : List Nat} {best : Run}

theorem startsAtEnd_concat (lines : List String) (line : String) :
    startsAtEnd starts (lines ++ [line]) = if starts line then startsAtEnd starts lines + 1 else 0 := by
  rw [startsAtEnd, startsAtEnd, List.reverse_append, List.reverse_singleton, List.singleton_append, List.takeWhile_cons]
  split <;> rfl

theorem getD_nextRow (line : String) (above : Nat) (others : List String) (row : List Nat) (column : Nat) :
    (0 :: nextRow line above others row).getD (column + 1) 0 =
      if others[column]? = some line then (above :: row).getD column 0 + 1 else 0 := by
  induction others generalizing above row column with
  | nil => rfl
  | cons other others ih =>
    cases column with
    | zero =>
      by_cases same : line = other
      · simp [nextRow, same]
      · simp [nextRow, same, Ne.symm same]
    | succ column =>
      have later := ih (row.headD 0) (row.drop 1) column
      have shifted : (row.headD 0 :: row.drop 1).getD column 0 = row.getD column 0 := by
        cases row <;> cases column <;> rfl
      rw [shifted] at later
      simpa [nextRow] using later

theorem bounded_nil (starts : String → Bool) (whole : List String) : Bounded starts [] whole [] where
  line := by
    intro column
    cases column <;> exact Nat.zero_le _
  column := by
    intro column
    cases column <;> exact Nat.zero_le _
  diagonal := rfl

/-- A line that may start no run ends all of them. -/
theorem bounded_stop {line : String} (stops : starts line = false) (whole : List String) :
    Bounded starts (seen ++ [line]) whole [] where
  line := by
    intro column
    cases column <;> exact Nat.zero_le _
  column := by
    intro column
    cases column <;> exact Nat.zero_le _
  diagonal := by
    rw [startsAtEnd_concat, stops, List.length_append]
    rfl

theorem Bounded.next {line : String} (bounded : Bounded starts seen (seen ++ line :: rest) row) (may : starts line = true) :
    Bounded starts (seen ++ [line]) (seen ++ line :: rest) (nextRow line 0 (seen ++ line :: rest) row) where
  line := by
    intro column
    cases column with
    | zero => exact Nat.zero_le _
    | succ column =>
      rw [getD_nextRow, startsAtEnd_concat, may]
      split
      · exact Nat.succ_le_succ (bounded.line column)
      · exact Nat.zero_le _
  column := by
    intro column
    cases column with
    | zero => exact Nat.zero_le _
    | succ column =>
      rw [getD_nextRow]
      split
      next here =>
        rw [List.take_add_one, here, Option.toList_some, startsAtEnd_concat, may]
        exact Nat.succ_le_succ (bounded.column column)
      · exact Nat.zero_le _
  diagonal := by
    have here : (seen ++ line :: rest)[seen.length]? = some line := by simp
    rw [List.length_append, List.length_singleton, getD_nextRow, if_pos here, bounded.diagonal, startsAtEnd_concat, may]
    rfl

theorem improve_kept {line column : Nat} (short : ∀ size ∈ row, size ≤ best.size) : improve line column row best = best := by
  induction row generalizing column with
  | nil => rfl
  | cons size row ih =>
    obtain ⟨here, later⟩ := List.forall_mem_cons.mp short
    rw [improve, if_neg (Nat.not_lt.mpr here), ih later]

theorem improve_append (line column : Nat) (first second : List Nat) (best : Run) :
    improve line column (first ++ second) best = improve line (column + first.length) second (improve line column first best) := by
  induction first generalizing column best with
  | nil => rfl
  | cons size first ih =>
    rw [List.cons_append, improve, ih, improve, List.length_cons, Nat.add_assoc, Nat.add_comm 1]

/-- The run of a text with itself that is found longest so far starts at one line in both. -/
structure OnDiagonal (starts : String → Bool) (seen : List String) (best : Run) : Prop where
  same : best.first = best.second
  longest : ∀ front, front <+: seen → startsAtEnd starts front ≤ best.size

/-- Before the diagonal no run is longer than one that was found, and behind it none is longer than the one on it. -/
theorem OnDiagonal.improve {line : String} (diagonal : OnDiagonal starts seen best) {row : List Nat}
    (bounded : Bounded starts (seen ++ [line]) (seen ++ line :: rest) row) (reaches : row = [] ∨ seen.length < row.length) :
    OnDiagonal starts (seen ++ [line]) (improve seen.length 0 row best) := by
  have top : ∀ size, size = startsAtEnd starts (seen ++ [line]) → ∀ longer : Run, longer.first = longer.second → best.size ≤ longer.size →
      size ≤ longer.size → OnDiagonal starts (seen ++ [line]) longer := by
    intro size isTop longer same atLeast enough
    refine ⟨same, fun front leads => ?_⟩
    rcases List.prefix_concat_iff.mp leads with rfl | earlier
    · rwa [← isTop]
    · exact Nat.le_trans (diagonal.longest front earlier) atLeast
  have found := bounded.diagonal
  rw [List.length_append, List.length_singleton] at found
  rcases reaches with rfl | reaches
  · exact top _ found best diagonal.same le_rfl (Nat.zero_le _)
  · have split : row = row.take seen.length ++ row[seen.length] :: row.drop (seen.length + 1) := by simp
    have atDiagonal : row[seen.length] = startsAtEnd starts (seen ++ [line]) := by
      rw [← found]
      simp [reaches]
    have before : ∀ size ∈ row.take seen.length, size ≤ best.size := by
      intro size member
      obtain ⟨column, inside, rfl⟩ := List.mem_iff_getElem.mp member
      have early : column < seen.length := by
        rw [List.length_take] at inside
        omega
      have bound := bounded.column (column + 1)
      rw [List.take_append_of_le_length early] at bound
      have held := diagonal.longest (seen.take (column + 1)) (List.take_prefix _ _)
      have entry : (0 :: row).getD (column + 1) 0 = row[column] := by simp [Nat.lt_trans early reaches]
      rw [entry] at bound
      rw [List.getElem_take]
      exact Nat.le_trans bound held
    have behind : ∀ size ∈ row.drop (seen.length + 1), size ≤ row[seen.length] := by
      intro size member
      obtain ⟨column, inside, rfl⟩ := List.mem_iff_getElem.mp member
      have bound := bounded.line (seen.length + 1 + column + 1)
      rw [List.length_drop] at inside
      have entry : (0 :: row).getD (seen.length + 1 + column + 1) 0 = row[seen.length + 1 + column] := by
        simp [show seen.length + 1 + column < row.length by omega]
      rw [entry, ← atDiagonal] at bound
      rwa [List.getElem_drop]
    have length : (row.take seen.length).length = seen.length := by simp [Nat.le_of_lt reaches]
    rw [split, improve_append, improve_kept before, length, Nat.zero_add, Diff.improve]
    by_cases more : row[seen.length] > best.size
    · rw [if_pos more, improve_kept behind]
      exact top _ atDiagonal _ rfl (Nat.le_of_lt more) le_rfl
    · rw [if_neg more, improve_kept fun size member => Nat.le_trans (behind size member) (Nat.not_lt.mp more)]
      exact top _ atDiagonal best diagonal.same le_rfl (Nat.not_lt.mp more)

theorem longestFrom_self (bounded : Bounded starts seen (seen ++ rest) row) (diagonal : OnDiagonal starts seen best) :
    (longestFrom starts (seen ++ rest) seen.length rest row best).first = (longestFrom starts (seen ++ rest) seen.length rest row best).second := by
  induction rest generalizing seen row best with
  | nil => exact diagonal.same
  | cons line rest ih =>
    have next : Bounded starts (seen ++ [line]) (seen ++ line :: rest) (if starts line then nextRow line 0 (seen ++ line :: rest) row else []) ∧
        ((if starts line then nextRow line 0 (seen ++ line :: rest) row else []) = [] ∨
          seen.length < (if starts line then nextRow line 0 (seen ++ line :: rest) row else []).length) := by
      cases may : starts line with
      | true => exact ⟨bounded.next may, .inr (by simp [length_nextRow])⟩
      | false => exact ⟨bounded_stop may _, .inl rfl⟩
    have found := diagonal.improve next.1 next.2
    have whole : seen ++ line :: rest = (seen ++ [line]) ++ rest := by simp
    have count : seen.length + 1 = (seen ++ [line]).length := by simp
    rw [longestFrom, count]
    rw [whole] at next found ⊢
    exact ih next.1 found

theorem commonLength_self (lines : List String) : commonLength lines lines = lines.length := by
  induction lines with
  | nil => rfl
  | cons line lines ih => simp [commonLength, ih]

/-- The longest run of a text with itself is the text. -/
theorem longest_self (starts : String → Bool) (lines : List String) : longest starts lines lines = ⟨0, 0, lines.length⟩ := by
  have same : (longestFrom starts lines 0 lines [] ⟨0, 0, 0⟩).first = (longestFrom starts lines 0 lines [] ⟨0, 0, 0⟩).second := by
    have bounded : Bounded starts [] ([] ++ lines) [] := bounded_nil starts lines
    refine longestFrom_self bounded ⟨rfl, fun front leads => ?_⟩
    rw [List.prefix_nil.mp leads]
    exact Nat.zero_le _
  have fits : (longestFrom starts lines 0 lines [] ⟨0, 0, 0⟩).Matches lines lines :=
    longestFrom_matches (sound_nil [] [] lines) ⟨[], [], [], lines, lines, rfl, rfl, rfl, rfl, rfl⟩
  rw [longest]
  generalize longestFrom starts lines 0 lines [] ⟨0, 0, 0⟩ = run at same fits
  obtain ⟨before, earlier, common, after, later, whole, -, atFirst, -, size⟩ := fits
  have long : run.first + run.size ≤ lines.length := by
    rw [whole, ← atFirst, ← size]
    simp
  rw [Run.widen, ← same, commonLength_self, commonLength_self]
  simp only [List.length_reverse, List.length_take, List.length_drop, Nat.min_eq_left (Nat.le_trans (Nat.le_add_right _ _) long)]
  rw [Run.mk.injEq]
  omega

theorem editsFrom_nil (starts : String → Bool) (edits : List Edit) : editsFrom starts [] [] edits = edits := by
  rw [editsFrom]
  simp [Edit.join]

/-- Between a text and itself nothing is shown. -/
theorem hunks_self (lines : List String) : hunks (edits lines lines) = [] := by
  rw [edits, editsFrom]
  simp only [longest_self]
  cases lines with
  | nil => rfl
  | cons line lines => simp [editsFrom_nil, Edit.join, hunks]

end

section

variable {options : Options} {received expected : String}

theorem mem_entries_of {found : List (List Line)} {lines : List Line} {line : Line} (member : lines ∈ found) (inside : line ∈ lines) :
    entry line ∈ entries found := by
  rw [entries]
  induction found with
  | nil => cases member
  | cons first found ih =>
    have here : lines = first → entry line ∈ first.map entry := by
      rintro rfl
      exact List.mem_map_of_mem inside
    cases found with
    | nil =>
      rw [List.map_singleton, List.intercalate_singleton]
      exact here (List.mem_singleton.mp member)
    | cons next found =>
      rw [List.map_cons, List.map_cons, List.intercalate_cons_cons, List.append_assoc]
      rcases List.mem_cons.mp member with same | later
      · exact List.mem_append_left _ (here same)
      · exact List.mem_append_right _ (List.mem_append_right _ (ih later))

/-- Where lines differ there is something to show. -/
theorem entries_ne_nil {first second : List String} (differ : first ≠ second) : entries (hunks (edits first second)) ≠ [] := by
  intro none
  obtain ⟨before, gaps, -, same⟩ := hunks_spread (edits first second)
  have bare : ∀ side, (hunks (edits first second)).map (List.filterMap (Line.part? side)) = (hunks (edits first second)).map fun _ => [] := by
    intro side
    apply List.map_congr_left
    intro lines member
    cases lines with
    | nil => rfl
    | cons line lines =>
      have shown := mem_entries_of member (List.mem_cons_self (a := line))
      rw [none] at shown
      cases shown
  apply differ
  calc first = (edits first second).flatMap (Edit.part .expected) := (edits_part .expected first second).symm
    _ = (edits first second).flatMap (Edit.part .received) := by rw [same, same, bare, bare]
    _ = second := edits_part .received first second

/-- Of what there is to show the first line is shown, or its mark. -/
theorem shorten_ne_nil {limit : Int} (limited : 1 ≤ limit) {changes : List Entry} (some : changes ≠ []) :
    shorten limit (none, 0) changes ≠ [] := by
  obtain ⟨change, rest, rfl⟩ := List.exists_cons_of_ne_nil some
  cases change with
  | changed side text =>
    rw [shorten]
    simp only [reduceCtorEq, if_false]
    split
    · simp
    · rw [if_neg (by omega)]
      simp
  | context text => simp [shorten]
  | cut side => simp [shorten]
  | gap => simp [shorten]

theorem indented_eq_empty {lines : List String} : "\n".intercalate (lines.map ("  " ++ ·)) = "" ↔ lines = [] := by
  constructor
  · intro empty
    by_contra some
    obtain ⟨line, rest, rfl⟩ := List.exists_cons_of_ne_nil some
    exact Publish.intercalate_ne_empty (by simp) empty
  · rintro rfl
    rfl

theorem report_eq_nil (changes : List Entry) :
    report options changes = [] ↔ options.legend = false ∧ shorten options.runLimit (none, 0) changes = [] := by
  rw [report]
  cases options.legend with
  | false => simp
  | true =>
    split <;> simp_all

/-- A report is empty exactly if the texts are the same, or if it has no legend and they differ in nothing but the
ends of their lines. -/
theorem difference_empty_iff (options : Options) (received expected : String) (limited : 1 ≤ options.runLimit) :
    difference options received expected = "" ↔
      received = expected ∨ options.legend = false ∧ Text.lines received = Text.lines expected := by
  by_cases same : received = expected
  · simp [difference, same]
  have shown : shorten options.runLimit (none, 0) (entries (hunks (edits (Text.lines expected) (Text.lines received)))) = [] ↔
      Text.lines received = Text.lines expected := by
    constructor
    · intro nothing
      by_contra differ
      exact shorten_ne_nil limited (entries_ne_nil (Ne.symm differ)) nothing
    · intro alike
      rw [alike, hunks_self]
      rfl
  rw [difference, if_neg (by simpa using same), indented_eq_empty, report_eq_nil, shown]
  simp [same]

/-- With no more room than for a mark, changed lines are reported, and other ends of lines are not. -/
theorem difference_empty_iff_marks : 1 ≤ (1 : Int) ∧ difference { runLimit := 1, legend := false } "b\n" "a\n" ≠ "" ∧
    difference { runLimit := 1, legend := false } "a\r\n" "a" = "" := by
  have limited : 1 ≤ (1 : Int) := le_rfl
  refine ⟨limited, ?_, ?_⟩
  · rw [Ne, difference_empty_iff _ _ _ limited]
    decide
  · exact (difference_empty_iff _ _ _ limited).mpr (.inr ⟨rfl, by decide⟩)

/-- Without a legend nothing tells that a text lacks the line feed at its end. -/
theorem missing_end_unseen : "a\n" ≠ "a" ∧ difference { legend := false } "a\n" "a" = "" := by
  constructor <;> decide +kernel

end
end WorkflowCompiler.Diff
