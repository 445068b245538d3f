import WorkflowCompiler.Proofs.ComparisonLines
import WorkflowCompiler.Proofs.MatchedLines

/-! A report that is not cut short is a patch. Its hunks, read back from its text, stand in both texts in
order with the same lines between them. -/

namespace WorkflowCompiler.Diff
open Publish (linesOf)

/-- What a line of a hunk has of the text on this side. -/
def Line.part? (side : Side) : Line → Option String
  | .kept text => some text
  | .removed text => side.of (some text) none
  | .added text => side.of none (some text)

def Line.isKept : Line → Bool
  | .kept _ => true
  | _ => false

/-- Whether the line is one of the changes on this side. -/
def Line.changes (side : Side) : Line → Bool
  | .kept _ => false
  | .removed _ => side == .expected
  | .added _ => side == .received

/-- Hunks with the lines that follow each of them. -/
def spread (parts gaps : List (List String)) : List String := (List.zipWith (· ++ ·) parts gaps).flatten

section

variable {side : Side} {current : List Line} {edits : List Edit} {parts gaps : List (List String)}

@[simp] theorem part_lines (side : Side) (edit : Edit) : edit.lines.filterMap (Line.part? side) = edit.part side := by
  cases edit with
  | keep texts => simp [Edit.lines, Edit.part, List.filterMap_map, Function.comp_def, Line.part?]
  | change removed added => cases side <;> simp [Edit.lines, Edit.part, List.filterMap_map, Function.comp_def, Line.part?, Side.of]

theorem spread_cons (part gap : List String) : spread (part :: parts) (gap :: gaps) = part ++ gap ++ spread parts gaps := rfl

/-- Where a stretch is long, what is neither shown before nor after it is the gap between two hunks. -/
theorem take_gap_last (texts : List String) (long : texts.length > 2 * context) :
    ∃ gap, texts = texts.take context ++ gap ++ lastOf context texts := by
  refine ⟨(texts.drop context).take (texts.length - 2 * context), ?_⟩
  have rest : lastOf context texts = (texts.drop context).drop (texts.length - 2 * context) := by
    rw [lastOf, List.drop_drop]
    congr 1
    omega
  rw [rest, List.append_assoc, List.take_append_drop, List.take_append_drop]

/-- The hunk under way and the edits after it are the hunks with gaps between them. -/
theorem hunksAfter_spread (current : List Line) (edits : List Edit) :
    ∃ gaps, gaps.length = (hunksAfter current edits).length ∧ ∀ side, current.filterMap (Line.part? side) ++ edits.flatMap (Edit.part side) =
      spread ((hunksAfter current edits).map (List.filterMap (Line.part? side))) gaps := by
  fun_induction hunksAfter current edits with
  | case1 current => exact ⟨[[]], rfl, fun side => by simp [spread]⟩
  | case2 current texts =>
    refine ⟨[texts.drop context], rfl, fun side => ?_⟩
    simp [spread, Edit.part]
  | case3 current texts rest _ long ih =>
    obtain ⟨gaps, length, same⟩ := ih
    obtain ⟨gap, whole⟩ := take_gap_last texts long
    refine ⟨gap :: gaps, by simp [length], fun side => ?_⟩
    rw [List.map_cons, spread_cons, ← same side, part_lines, List.filterMap_append, part_lines, List.flatMap_cons]
    simp only [Edit.part, List.append_assoc]
    rw [← List.append_assoc gap, ← List.append_assoc (texts.take context), ← List.append_assoc (texts.take context), ← whole]
  | case4 current texts rest _ short ih =>
    obtain ⟨gaps, length, same⟩ := ih
    refine ⟨gaps, length, fun side => ?_⟩
    rw [← same side]
    simp
  | case5 current edit rest _ _ ih =>
    obtain ⟨gaps, length, same⟩ := ih
    refine ⟨gaps, length, fun side => ?_⟩
    rw [← same side]
    simp

theorem hunks_spread (edits : List Edit) :
    ∃ before gaps, gaps.length = (hunks edits).length ∧ ∀ side, edits.flatMap (Edit.part side) =
      before ++ spread ((hunks edits).map (List.filterMap (Line.part? side))) gaps := by
  unfold hunks
  split
  · exact ⟨[], [], rfl, fun side => rfl⟩
  · next texts => exact ⟨texts, [], rfl, fun side => by simp [spread, Edit.part]⟩
  · next texts rest _ =>
    obtain ⟨gaps, length, same⟩ := hunksAfter_spread (Edit.keep (lastOf context texts)).lines rest
    refine ⟨texts.take (texts.length - context), gaps, length, fun side => ?_⟩
    rw [← same side, part_lines]
    simp [Edit.part, lastOf, ← List.append_assoc]
  · obtain ⟨gaps, length, same⟩ := hunksAfter_spread [] edits
    exact ⟨[], gaps, length, fun side => by rw [← same side]; rfl⟩

theorem sublist_spread (length : gaps.length = parts.length) : parts.flatten.Sublist (spread parts gaps) := by
  induction parts generalizing gaps with
  | nil => exact List.nil_sublist _
  | cons part parts ih =>
    obtain ⟨gap, gaps, rfl⟩ := List.exists_cons_of_length_eq_add_one length
    rw [List.flatten_cons, spread_cons, List.append_assoc]
    exact (List.Sublist.refl part).append ((ih (Nat.succ.inj length)).trans (List.sublist_append_right _ _))

theorem length_spread (length : gaps.length = parts.length) :
    (spread parts gaps).length = parts.flatten.length + gaps.flatten.length := by
  induction parts generalizing gaps with
  | nil =>
    rw [List.length_eq_zero_iff.mp length]
    rfl
  | cons part parts ih =>
    obtain ⟨gap, gaps, rfl⟩ := List.exists_cons_of_length_eq_add_one length
    have more := ih (Nat.succ.inj length)
    rw [spread_cons, List.flatten_cons, List.flatten_cons]
    simp only [List.length_append, more]
    omega

/-- A hunk has on one side what it keeps and what it changes there. -/
theorem length_part (side : Side) (lines : List Line) :
    (lines.filterMap (Line.part? side)).length = lines.countP Line.isKept + lines.countP (Line.changes side) := by
  induction lines with
  | nil => rfl
  | cons line lines ih =>
    rw [List.filterMap_cons, List.countP_cons, List.countP_cons]
    cases line <;> cases side <;> simp [Line.part?, Line.changes, Line.isKept, Side.of, ih] <;> omega

end

/-- The characters of a line in a report, without the indent. -/
def Line.written : Line → List Char
  | .kept text => ' ' :: ' ' :: text.toList
  | .removed text => '-' :: ' ' :: text.toList
  | .added text => '+' :: ' ' :: text.toList

/-- The lines of a report without their indent. -/
def reportLines (output : String) : List (List Char) := (linesOf output).map (List.drop 2)

/-- The hunks of a report: the lines after the legend, parted where there is a gap. -/
def reportHunks (output : String) : List (List (List Char)) := ((reportLines output).drop 3).splitOn ['-', '-']

/-- The mark of a change on this side. -/
def Side.mark : Side → Char
  | .expected => '-'
  | .received => '+'

/-- The text of a line of a hunk, if it is not marked as a change on the other side. -/
def partOfLine? (side : Side) : List Char → Option String
  | mark :: ' ' :: text => if mark = ' ' ∨ mark = side.mark then some (String.ofList text) else none
  | _ => none

/-- Whether the line of a hunk is marked as a change on this side. -/
def marked (side : Side) (line : List Char) : Bool := line.head? == some side.mark

section

variable {side : Side} {options : Options}

theorem partOfLine?_written (side : Side) (line : Line) : partOfLine? side line.written = line.part? side := by
  cases line <;> cases side <;> simp [Line.written, partOfLine?, Line.part?, Side.mark, Side.of]

theorem marked_written (side : Side) (line : Line) : marked side line.written = line.changes side := by
  cases line <;> cases side <;> rfl

theorem text_entry (uncut : options.width = none) (line : Line) : ((entry line).text options false).toList = line.written := by
  cases line <;> simp [entry, Entry.text, clip, uncut, Line.written, Side.sign, toString]

theorem countOf_append (side : Side) (first second : List Entry) : countOf side (first ++ second) = countOf side first + countOf side second :=
  List.countP_append

theorem countOf_lines (side : Side) (lines : List Line) : countOf side (lines.map entry) = lines.countP (Line.changes side) := by
  rw [countOf, List.countP_map]
  congr 1
  funext line
  cases line <;> cases side <;> rfl

theorem countOf_entries (side : Side) (hunks : List (List Line)) : countOf side (entries hunks) = hunks.flatten.countP (Line.changes side) := by
  rw [entries]
  induction hunks with
  | nil => rfl
  | cons hunk rest ih =>
    cases rest with
    | nil => simp [countOf_lines]
    | cons next rest =>
      rw [List.map_cons] at ih
      have gap : countOf side [Entry.gap] = 0 := rfl
      rw [List.map_cons, List.map_cons, List.intercalate_cons_cons, countOf_append, countOf_append, ih, countOf_lines, gap,
        Nat.add_zero, ← List.countP_append]
      rfl

/-- Nothing is cut from runs that stay below the limit. -/
theorem shorten_roomy {limit : Int} (changes : List Entry) (run : Option Side × Int) (counted : 0 ≤ run.2)
    (roomy : ∀ side, (if run.1 = some side then run.2 else 0) + countOf side changes < limit) :
    shorten limit run changes = changes := by
  induction changes generalizing run with
  | nil => rfl
  | cons change rest ih =>
    cases change with
    | changed side text =>
      have more : ∀ other, (countOf other (.changed side text :: rest) : Int) =
          countOf other rest + if side = other then 1 else 0 := by
        intro other
        rw [countOf, countOf, List.countP_cons]
        cases side <;> cases other <;> simp
      have here := roomy side
      rw [more, if_pos rfl] at here
      have short : (if run.1 = some side then run.2 + 1 else 1) < limit := by
        split at here <;> simp_all <;> omega
      rw [shorten, ih]
      · rw [if_neg (by omega), if_neg (by omega)]
      · split <;> omega
      · intro other
        have there := roomy other
        rw [more] at there
        by_cases same : side = other
        · subst same
          rw [if_pos rfl] at there
          simp only [if_true]
          split at there <;> simp_all <;> omega
        · simp only [Option.some.injEq, if_neg same] at there ⊢
          split at there <;> omega
    | context text => rw [shorten, ih run counted (by simpa [countOf] using roomy)]; simp
    | cut side => rw [shorten, ih run counted (by simpa [countOf] using roomy)]; simp
    | gap => rw [shorten, ih run counted (by simpa [countOf] using roomy)]; simp

theorem linesFrom_single (current rest : List Char) (single : '\n' ∉ current) :
    ∀ line ∈ Text.linesFrom current rest, '\n' ∉ line := by
  fun_induction Text.linesFrom current rest with
  | case1 current => simp
  | case2 current => simpa using single
  | case3 current rest ih =>
    exact List.forall_mem_cons.mpr ⟨by simpa using single, ih (by simp)⟩
  | case4 current c rest _ _ ih =>
    exact List.forall_mem_cons.mpr ⟨by simpa using single, ih (by simp)⟩
  | case5 current c rest _ inside ih =>
    refine ih ?_
    have other : '\n' ≠ c := by
      rintro rfl
      exact inside rfl
    simp [single, other]

/-- No line of a text has a line feed in it. -/
theorem lines_single (text : String) : ∀ line ∈ Text.lines text, '\n' ∉ line.toList := by
  intro line member
  obtain ⟨chars, inside, rfl⟩ := List.mem_map.mp member
  rw [String.toList_ofList]
  exact linesFrom_single [] text.toList (by simp) chars inside

theorem linesOf_lines {texts : List String} (some : texts ≠ []) (single : ∀ text ∈ texts, '\n' ∉ text.toList) :
    linesOf ("\n".intercalate texts) = texts.map String.toList := by
  rw [linesOf, String.toList_intercalate]
  apply List.splitOn_intercalate '\n'
  · rintro line member
    obtain ⟨text, inside, rfl⟩ := List.mem_map.mp member
    exact single text inside
  · simpa using some

/-- Every line of a hunk is a line of one of the texts. -/
theorem mem_hunks {first second : List String} {lines : List Line} (member : lines ∈ hunks (edits first second)) :
    ∀ line ∈ lines, ∃ side text, line.part? side = some text ∧ text ∈ side.of first second := by
  intro line inside
  obtain ⟨before, gaps, length, same⟩ := hunks_spread (edits first second)
  obtain ⟨side, text, told⟩ : ∃ side text, line.part? side = some text := by
    cases line with
    | kept text => exact ⟨.expected, text, rfl⟩
    | removed text => exact ⟨.expected, text, rfl⟩
    | added text => exact ⟨.received, text, rfl⟩
  refine ⟨side, text, told, ?_⟩
  rw [← edits_part side first second, same side]
  apply List.mem_append_right
  apply (sublist_spread (by rw [List.length_map, length])).subset
  exact List.mem_flatten.mpr ⟨_, List.mem_map_of_mem member, List.mem_filterMap.mpr ⟨line, inside, told⟩⟩

/-- Beside what changes, the texts have equally many lines. -/
theorem length_changes (first second : List String) :
    ∃ shared, ∀ side, (side.of first second).length = shared + (hunks (edits first second)).flatten.countP (Line.changes side) := by
  obtain ⟨before, gaps, length, same⟩ := hunks_spread (edits first second)
  refine ⟨before.length + gaps.flatten.length + (hunks (edits first second)).flatten.countP Line.isKept, fun side => ?_⟩
  have whole := congrArg List.length (same side)
  rw [edits_part, List.length_append, length_spread (by rw [List.length_map, length]), ← List.filterMap_flatten, length_part] at whole
  omega

theorem map_intercalate {α β : Type} (make : α → β) (separator : List α) (parts : List (List α)) :
    (separator.intercalate parts).map make = (separator.map make).intercalate (parts.map (List.map make)) := by
  induction parts with
  | nil => rfl
  | cons part parts ih =>
    cases parts with
    | nil => simp
    | cons other parts => simp [List.intercalate_cons_cons, ih]

/-- What is reported of changes that are not cut: a lone pair in two lines, anything else below the legend. -/
theorem report_uncut {changes : List Entry} (legend : options.legend = true)
    (shown : shorten options.runLimit (none, 0) changes = changes) :
    (∃ first second, changes = [first, second] ∧ report options changes =
      ["- Expected   " ++ first.text options true, "+ Received   " ++ second.text options true]) ∨
    report options changes = ("- Expected  - " ++ toString (countOf .expected changes)) ::
      ("+ Received  + " ++ toString (countOf .received changes)) :: "" :: changes.map (Entry.text options false) := by
  rw [report, shown, legend]
  by_cases lone : (countOf .expected changes == 1 && countOf .received changes == 1 && changes.length == 2) = true
  · have two : changes.length = 2 := by simp_all
    obtain ⟨first, second, rfl⟩ := List.length_eq_two.mp two
    rw [lone]
    exact .inl ⟨first, second, rfl, rfl⟩
  · rw [Bool.not_eq_true] at lone
    rw [lone]
    exact .inr rfl

theorem number_single (number : Nat) : '\n' ∉ (toString number).toList := by
  intro member
  have digits : (toString number).toList = Nat.toDigits 10 number := Nat.toList_repr
  rw [digits] at member
  exact absurd (Nat.isDigit_of_mem_toDigits (by decide) (by decide) member) (by decide)

theorem report_single {changes : List Entry} (legend : options.legend = true)
    (shown : shorten options.runLimit (none, 0) changes = changes)
    (single : ∀ change ∈ changes, ∀ lone, '\n' ∉ (change.text options lone).toList) :
    ∀ line ∈ report options changes, '\n' ∉ line.toList := by
  obtain ⟨first, second, rfl, lines⟩ | lines := report_uncut legend shown
  · rw [lines]
    have one := single first (by simp) true
    have other := single second (by simp) true
    simp [one, other]
  · have listed : ∀ line ∈ changes.map (Entry.text options false), '\n' ∉ line.toList :=
      List.forall_mem_map.mpr fun change member => single change member false
    have removed := number_single (countOf .expected changes)
    have added := number_single (countOf .received changes)
    rw [lines]
    refine List.forall_mem_cons.mpr ⟨by simpa using removed, List.forall_mem_cons.mpr ⟨by simpa using added, ?_⟩⟩
    exact List.forall_mem_cons.mpr ⟨by simp, listed⟩

theorem mem_entries {found : List (List Line)} {change : Entry} (member : change ∈ entries found) :
    change = .gap ∨ ∃ lines ∈ found, ∃ line ∈ lines, change = entry line := by
  rw [entries] at member
  induction found with
  | nil => cases member
  | cons lines found ih =>
    cases found with
    | nil => 
      rw [List.map_singleton, List.intercalate_singleton] at member
      obtain ⟨line, inside, rfl⟩ := List.mem_map.mp member
      exact .inr ⟨lines, by simp, line, inside, rfl⟩
    | cons next found =>
      rw [List.map_cons, List.map_cons, List.intercalate_cons_cons, List.append_assoc] at member
      rcases List.mem_append.mp member with here | later
      · obtain ⟨line, inside, rfl⟩ := List.mem_map.mp here
        exact .inr ⟨lines, by simp, line, inside, rfl⟩
      rcases List.mem_append.mp later with between | later
      · exact .inl (List.mem_singleton.mp between)
      rcases ih later with gap | ⟨lines, there, line, inside, same⟩
      · exact .inl gap
      · exact .inr ⟨lines, List.mem_cons_of_mem _ there, line, inside, same⟩

theorem entries_single {expected actual : String} (uncut : options.width = none) :
    ∀ change ∈ entries (hunks (edits (Text.lines expected) (Text.lines actual))), ∀ lone,
      '\n' ∉ (change.text options lone).toList := by
  intro change member lone
  rcases mem_entries member with rfl | ⟨lines, there, line, inside, rfl⟩
  · simp [Entry.text]
  · obtain ⟨side, text, told, known⟩ := mem_hunks there line inside
    have single : '\n' ∉ text.toList := by
      cases side with
      | expected => exact lines_single expected text known
      | received => exact lines_single actual text known
    cases line <;> cases side <;> cases told <;> cases lone <;> simp [entry, Entry.text, clip, uncut, Side.sign, single, toString]

/-- The report of hunks that are not cut: the legend, then their lines with a line in each gap. -/
theorem map_report {found : List (List Line)} (uncut : options.width = none) 
    (listed : report options (entries found) = ("- Expected  - " ++ toString (countOf .expected (entries found))) ::
      ("+ Received  + " ++ toString (countOf .received (entries found))) :: "" :: (entries found).map (Entry.text options false)) :
    (report options (entries found)).map String.toList =
      ("- Expected  - " ++ toString (found.flatten.countP (Line.changes .expected))).toList ::
      ("+ Received  + " ++ toString (found.flatten.countP (Line.changes .received))).toList :: [] ::
      [['-', '-']].intercalate (found.map (List.map Line.written)) := by
  have written : (entries found).map (String.toList ∘ Entry.text options false) =
      [['-', '-']].intercalate (found.map (List.map Line.written)) := by
    rw [entries, map_intercalate, List.map_map]
    have each : (List.map (String.toList ∘ Entry.text options false)) ∘ (fun lines => lines.map entry) = List.map Line.written := by
      funext lines
      rw [Function.comp, List.map_map]
      exact List.map_congr_left fun line _ => text_entry uncut line
    have gap : List.map (String.toList ∘ Entry.text options false) [Entry.gap] = [['-', '-']] := by simp [Entry.text]
    rw [each, gap]
  rw [listed, countOf_entries, countOf_entries, List.map_cons, List.map_cons, List.map_cons, List.map_map, written]
  rfl

theorem split_hunks {found : List (List Line)} (some : found ≠ []) :
    ([['-', '-']].intercalate (found.map (List.map Line.written))).splitOn ['-', '-'] = found.map (List.map Line.written) := by
  apply List.splitOn_intercalate ['-', '-']
  · rintro hunk member gap
    obtain ⟨lines, -, rfl⟩ := List.mem_map.mp member
    obtain ⟨line, -, same⟩ := List.mem_map.mp gap
    cases line <;> simp [Line.written] at same
  · simpa using some

theorem linesOf_difference {actual expected : String} {lines : List String}
    (differ : Text.lines expected ≠ Text.lines actual)
    (reported : report options (entries (hunks (edits (Text.lines expected) (Text.lines actual)))) = lines)
    (some : lines ≠ []) (single : ∀ line ∈ lines, '\n' ∉ line.toList) :
    linesOf (difference options actual expected) = lines.map fun line => ' ' :: ' ' :: line.toList := by
  have texts : ¬(actual == expected) = true := by
    intro same
    rw [beq_iff_eq.mp same] at differ
    exact differ rfl
  rw [difference, if_neg texts]
  simp only
  rw [reported, linesOf_lines (by simpa using some) (by simpa using single), List.map_map]
  exact List.map_congr_left fun line _ => by simp

/-- The text of a report on texts with room for every change, read back. -/
theorem reportLines_difference {actual expected : String} (differ : Text.lines expected ≠ Text.lines actual)
    (uncut : options.width = none) (legend : options.legend = true)
    (roomy : ∀ side : Side, ((side.of (Text.lines expected) (Text.lines actual)).length : Int) < options.runLimit)
    (long : (linesOf (difference options actual expected)).length ≠ 2) :
    let found := hunks (edits (Text.lines expected) (Text.lines actual))
    linesOf (difference options actual expected) = (reportLines (difference options actual expected)).map (' ' :: ' ' :: ·) ∧
      reportLines (difference options actual expected) =
        ("- Expected  - " ++ toString (found.flatten.countP (Line.changes .expected))).toList ::
        ("+ Received  + " ++ toString (found.flatten.countP (Line.changes .received))).toList :: [] ::
        [['-', '-']].intercalate (found.map (List.map Line.written)) := by
  intro found
  obtain ⟨shared, counts⟩ : ∃ shared, ∀ side : Side, (side.of (Text.lines expected) (Text.lines actual)).length =
    shared + found.flatten.countP (Line.changes side) := length_changes _ _
  have shown : shorten options.runLimit (none, 0) (entries found) = entries found := by
    refine shorten_roomy _ _ le_rfl fun side => ?_
    have count := counts side
    have limit := roomy side
    rw [countOf_entries, if_neg (by simp)]
    omega
  have single := report_single legend shown (entries_single uncut)
  obtain ⟨first, second, -, lines⟩ | lines := report_uncut legend shown
  · rw [lines] at single
    rw [linesOf_difference differ lines (by simp) single] at long
    exact absurd rfl long
  · have whole := linesOf_difference differ rfl (by rw [lines]; simp) single
    have read : reportLines (difference options actual expected) = (report options (entries found)).map String.toList := by
      rw [reportLines, whole, List.map_map]
      rfl
    exact ⟨by rw [whole, read, List.map_map]; rfl, by rw [read, map_report uncut lines]⟩

/-- A report on texts with room for every change is a patch for them. -/
theorem difference_is_patch (options : Options) (actual expected : String) (differ : Text.lines expected ≠ Text.lines actual)
    (uncut : options.width = none) (legend : options.legend = true)
    (roomyExpected : ((Text.lines expected).length : Int) < options.runLimit)
    (roomyActual : ((Text.lines actual).length : Int) < options.runLimit)
    (long : (linesOf (difference options actual expected)).length ≠ 2) :
    let output := difference options actual expected
    let found := reportHunks output
    let removed := found.flatten.countP (marked .expected)
    let added := found.flatten.countP (marked .received)
    linesOf output = (reportLines output).map (' ' :: ' ' :: ·) ∧
    (reportLines output).take 3 = [("- Expected  - " ++ toString removed).toList, ("+ Received  + " ++ toString added).toList, []] ∧
    (∀ hunk ∈ found, ∀ line ∈ hunk, ∃ mark text, line = mark :: ' ' :: text ∧ mark ∈ [' ', '-', '+']) ∧
    (∃ before gaps, gaps.length = found.length ∧
      Text.lines expected = before ++ spread (found.map (List.filterMap (partOfLine? .expected))) gaps ∧
      Text.lines actual = before ++ spread (found.map (List.filterMap (partOfLine? .received))) gaps) ∧
    ((Text.lines expected).length : Int) - removed = (Text.lines actual).length - added := by
  intro output found removed added
  obtain ⟨shared, counts⟩ := length_changes (Text.lines expected) (Text.lines actual)
  obtain ⟨before, gaps, length, same⟩ := hunks_spread (edits (Text.lines expected) (Text.lines actual))
  obtain ⟨indented, lines⟩ := reportLines_difference differ uncut legend (by rintro (_ | _); exacts [roomyExpected, roomyActual]) long
  have some : hunks (edits (Text.lines expected) (Text.lines actual)) ≠ [] := by
    intro none
    rw [none] at same
    have first := same .expected
    have second := same .received
    rw [edits_part] at first second
    exact differ (first.trans second.symm)
  have read : found = (hunks (edits (Text.lines expected) (Text.lines actual))).map (List.map Line.written) := by
    show (List.drop 3 _).splitOn _ = _
    rw [lines]
    exact split_hunks some
  have changed : ∀ side, found.flatten.countP (marked side) =
      (hunks (edits (Text.lines expected) (Text.lines actual))).flatten.countP (Line.changes side) := by
    intro side
    rw [read, ← List.map_flatten, List.countP_map]
    congr 1
    exact funext (marked_written side)
  have parts : ∀ side, found.map (List.filterMap (partOfLine? side)) =
      (hunks (edits (Text.lines expected) (Text.lines actual))).map (List.filterMap (Line.part? side)) := by
    intro side
    rw [read, List.map_map]
    refine List.map_congr_left fun hunk _ => ?_
    rw [Function.comp, List.filterMap_map]
    congr 1
    exact funext (partOfLine?_written side)
  refine ⟨indented, ?_, ?_, ⟨before, gaps, by rw [length, read, List.length_map], ?_, ?_⟩, ?_⟩
  · rw [lines]
    simp only [removed, added, changed]
    rfl
  · rw [read]
    intro hunk member line inside
    obtain ⟨hunk, -, rfl⟩ := List.mem_map.mp member
    obtain ⟨line, -, rfl⟩ := List.mem_map.mp inside
    cases line with
    | kept text => exact ⟨' ', text.toList, rfl, by simp⟩
    | removed text => exact ⟨'-', text.toList, rfl, by simp⟩
    | added text => exact ⟨'+', text.toList, rfl, by simp⟩
  · rw [parts, ← same, edits_part]
    rfl
  · rw [parts, ← same, edits_part]
    rfl
  · have left := counts .expected
    have right := counts .received
    rw [← changed] at left right
    simp only [Side.of] at left right
    omega

/-- Lines that look like marks or headers are told apart from them. -/
theorem difference_of_headers :
    let expected := "-- a\n1\n2\n3\n4\n5\n6\n7\n@@ z\n+ y\n"
    let actual := "--\n1\n2\n3\n4\n5\n6\n7\n@@ z\n"
    (linesOf (difference {} actual expected)).length ≠ 2 ∧ (reportHunks (difference {} actual expected)).length = 2 ∧
      ∃ before gaps, gaps.length = (reportHunks (difference {} actual expected)).length ∧
        Text.lines expected = before ++ spread ((reportHunks (difference {} actual expected)).map
          (List.filterMap (partOfLine? .expected))) gaps ∧
        Text.lines actual = before ++ spread ((reportHunks (difference {} actual expected)).map
          (List.filterMap (partOfLine? .received))) gaps := by
  intro expected actual
  have long : (linesOf (difference {} actual expected)).length ≠ 2 := by decide +kernel
  obtain ⟨-, -, -, patch, -⟩ := difference_is_patch {} actual expected (by decide) rfl rfl (by decide)
    (by decide) long
  exact ⟨long, by decide +kernel, patch⟩

end

end WorkflowCompiler.Diff
