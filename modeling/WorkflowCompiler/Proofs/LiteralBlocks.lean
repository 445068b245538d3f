import WorkflowCompiler.Proofs.CursorMoves
import Mathlib.Data.List.Basic

/-! Texts in literal blocks. The lines that are not empty stand behind a margin. The head of the block tells how it ends,
and how wide the margin is where the text itself starts with blanks or breaks. -/

namespace WorkflowCompiler.Yaml
open Proofs (Stops takeWhile_append_of_stops takeWhile_of_stops)

def feeds (count : Nat) : List Char := List.replicate count '\n'

/-- Characters that a line of a block can hold. -/
def Flat (text : List Char) : Prop := ∀ c ∈ text, isBreak c = false ∧ c ≠ '\r' ∧ c ≠ '\x00'

/-- Lines with empty ones between them; the first one and the last one are not empty. -/
inductive Paragraph : List Char → Prop
  | line {line : List Char} (filled : line ≠ []) (flat : Flat line) : Paragraph line
  | more {line text : List Char} (filled : line ≠ []) (flat : Flat line) (count : Nat) (more : Paragraph text) :
      Paragraph (line ++ '\n' :: (feeds count ++ text))

section
variable {text line rest next : List Char} {margin indent : Nat} {c : Char}

theorem feeds_succ (count : Nat) : feeds (count + 1) = '\n' :: feeds count := rfl

@[simp] theorem length_feeds (count : Nat) : (feeds count).length = count := List.length_replicate

theorem Paragraph.exists_cons (paragraph : Paragraph text) : ∃ c rest, text = c :: rest ∧ isBreak c = false ∧ c ≠ '\r' := by
  cases paragraph with
  | line filled flat =>
    obtain ⟨c, rest, rfl⟩ := List.exists_cons_of_ne_nil filled
    obtain ⟨unbroken, back, -⟩ := flat c List.mem_cons_self
    exact ⟨c, rest, rfl, unbroken, back⟩
  | more filled flat =>
    obtain ⟨c, rest, rfl⟩ := List.exists_cons_of_ne_nil filled
    obtain ⟨unbroken, back, -⟩ := flat c List.mem_cons_self
    exact ⟨c, _, rfl, unbroken, back⟩

theorem literalLines_flat (flat : Flat line) : literalLines margin false (line ++ rest) = line ++ literalLines margin false rest := by
  induction line with
  | nil => rfl
  | cons c line ih =>
    rw [List.cons_append, literalLines, (flat c List.mem_cons_self).1, ih fun d member => flat d (List.mem_cons_of_mem c member)]
    rfl

theorem literalLines_feed (starts : Bool) : literalLines margin starts ('\n' :: rest) = '\n' :: literalLines margin true rest := rfl

theorem literalLines_feeds (count : Nat) : literalLines margin true (feeds count ++ rest) = feeds count ++ literalLines margin true rest := by
  induction count with
  | zero => rfl
  | succ count ih => rw [feeds_succ, List.cons_append, literalLines_feed, ih, List.cons_append]

theorem literalLines_starts (paragraph : Paragraph text) :
    literalLines margin true (text ++ rest) = spaces margin ++ literalLines margin false (text ++ rest) := by
  obtain ⟨c, others, rfl, unbroken, -⟩ := paragraph.exists_cons
  rw [List.cons_append, literalLines, literalLines, unbroken]
  rfl

theorem literalLines_ends (count : Nat) : literalLines margin false (feeds count) = '\n' :: feeds (count - 1) := by
  cases count with
  | zero => rfl
  | succ count =>
    have rest : literalLines margin true (feeds count ++ []) = feeds count ++ [] := literalLines_feeds count
    simpa [feeds_succ, literalLines_feed] using rest

/-- Of the spaces at the start of a line as many are skipped as belong to the margin. -/
theorem skipIndent_spaces {count index line : Nat} (inside : count ≤ indent) (stops : count = indent ∨ next.head? ≠ some ' ') :
    skipIndent indent ⟨spaces count ++ next, index, line, 0⟩ = ⟨next, index + count, line, count⟩ := by
  have all : ∀ c ∈ spaces count, (c == ' ') = true := fun c member => beq_iff_eq.mpr (eq_of_mem_spaces member)
  have taken : ((spaces count ++ next).take (indent - 0)).takeWhile (· == ' ') = spaces count := by
    rw [Nat.sub_zero, List.take_append, length_spaces, List.take_of_length_le (by simpa using inside)]
    apply (takeWhile_append_of_stops all _).1
    intro c member
    rcases stops with rfl | other
    · simp at member
    · rw [beq_eq_false_iff_ne]
      rintro rfl
      apply other
      cases next with
      | nil => simp at member
      | cons d next =>
        obtain ⟨more, same⟩ | none : (∃ more, indent - count = more + 1) ∨ indent - count = 0 := by
          cases indent - count with
          | zero => exact .inr rfl
          | succ more => exact .inl ⟨more, rfl⟩
        · rw [same] at member
          exact member
        · rw [none] at member
          simp at member
  have moved : Cursor.skip ⟨spaces count ++ next, index, line, 0⟩ count = _ := Cursor.skip_spaces count
  rw [skipIndent, taken, length_spaces, moved, Nat.zero_add]

theorem skipIndent_feed {index line : Nat} : skipIndent indent ⟨'\n' :: rest, index, line, 0⟩ = ⟨'\n' :: rest, index, line, 0⟩ := by
  have none : 0 = indent ∨ ('\n' :: rest).head? ≠ some ' ' := .inr (by simp)
  exact skipIndent_spaces (Nat.zero_le indent) none

/-- Empty lines are read up to the margin of the next line. -/
theorem scanBlockBreaks_feeds (count : Nat) {behind fuel index line : Nat} (inside : behind ≤ indent)
    (stops : behind = indent ∨ next.head? ≠ some ' ')
    (going : ∀ index line column, isAnyBreak (Cursor.peek ⟨next, index, line, column⟩) = false) (enough : count < fuel) :
    scanBlockBreaks indent fuel ⟨feeds count ++ (spaces behind ++ next), index, line, 0⟩ =
      (feeds count, ⟨next, index + count + behind, line + count, behind⟩) := by
  induction count generalizing fuel index line with
  | zero =>
    obtain ⟨more, rfl⟩ : ∃ more, fuel = more + 1 := ⟨fuel - 1, by omega⟩
    have skipped : skipIndent indent ⟨feeds 0 ++ (spaces behind ++ next), index, line, 0⟩ = _ := skipIndent_spaces inside stops
    rw [scanBlockBreaks, skipped, going]
    rfl
  | succ count ih =>
    obtain ⟨more, rfl⟩ : ∃ more, fuel = more + 1 := ⟨fuel - 1, by omega⟩
    have feed : isAnyBreak '\n' = true := rfl
    rw [feeds_succ, List.cons_append, scanBlockBreaks, skipIndent_feed]
    simp only [Cursor.peek_cons, feed, if_true, scanBreak_feed]
    rw [ih (by omega), List.singleton_append, Nat.add_right_comm index, Nat.add_right_comm line]
    rfl

theorem taken_flat (flat : Flat line) {index place column : Nat} :
    Cursor.taken (!endsLine ·) ⟨line ++ '\n' :: rest, index, place, column⟩ = line := by
  have all : ∀ c ∈ line, (!endsLine c) = true := by
    intro c member
    obtain ⟨unbroken, back, nul⟩ := flat c member
    simp only [isBreak, Bool.or_eq_false_iff, beq_eq_false_iff_ne] at unbroken
    simp [endsLine, isAnyBreak, unbroken, back, nul]
  have stops : Stops (!endsLine ·) ('\n' :: rest) := by
    intro c member
    cases member
    rfl
  exact (takeWhile_append_of_stops all stops).1

/-- The first character of a block stays where it is. -/
theorem Paragraph.peek (paragraph : Paragraph text) (rest more : List Char) (index line column : Nat) :
    isAnyBreak (Cursor.peek ⟨literalLines margin false (text ++ rest) ++ more, index, line, column⟩) = false := by
  obtain ⟨c, others, rfl, unbroken, back⟩ := paragraph.exists_cons
  rw [List.cons_append, literalLines, unbroken]
  simp only [isBreak, Bool.or_eq_false_iff, beq_eq_false_iff_ne] at unbroken
  simp [isAnyBreak, unbroken, back]

theorem Paragraph.head_written (paragraph : Paragraph text) (margin : Nat) (rest : List Char) :
    ∃ c more, literalLines margin false (text ++ rest) = c :: more ∧ text.head? = some c ∧ isBreak c = false := by
  obtain ⟨c, others, rfl, unbroken, -⟩ := paragraph.exists_cons
  rw [List.cons_append, literalLines, unbroken]
  exact ⟨c, _, rfl, rfl, unbroken⟩

/-- Reading one line of a block, with the empty lines behind it. -/
theorem scanBlockLines_line (flat : Flat text) {breaks after : List Char} {fuel index line : Nat} {cursor : Cursor}
    (read : scanBlockBreaks margin (rest.length + 1) ⟨rest, index + text.length + 1, line + 1, 0⟩ = (after, cursor)) :
    scanBlockLines false false margin breaks (fuel + 1) ⟨text ++ '\n' :: rest, index, line, margin⟩ =
      if cursor.column != margin || cursor.atEnd then (breaks ++ text, ['\n'], after, cursor)
      else
        let (more, line, final, cursor) := scanBlockLines false false margin after fuel cursor
        (breaks ++ text ++ ['\n'] ++ more, line, final, cursor) := by
  have within : ∀ c ∈ text, c ≠ '\n' ∧ c ≠ '\r' := by
    intro c member
    obtain ⟨unbroken, back, -⟩ := flat c member
    refine ⟨?_, back⟩
    rintro rfl
    cases unbroken
  obtain ⟨column, moved⟩ : ∃ column, Cursor.skip ⟨text ++ '\n' :: rest, index, line, margin⟩ text.length = _ :=
    Cursor.skip_within_line within
  have going : Cursor.atEnd ⟨text ++ '\n' :: rest, index, line, margin⟩ = false := by simp [Cursor.atEnd]
  have there : ((Cursor.mk (text ++ '\n' :: rest) index line margin).column != margin) = false := by simp
  rw [scanBlockLines, taken_flat flat, there, going]
  simp only [moved, Bool.or_false, Bool.false_eq_true, if_false, scanBreak_feed, read, Bool.false_and, Bool.false_or]

/-- The lines of a block are read up to what stands at a smaller margin. -/
theorem scanBlockLines_paragraph (paragraph : Paragraph text) (final : Nat) {behind : Nat} (opens : Opens next)
    (outside : behind < margin) (breaks : List Char) {fuel index line : Nat}
    (enough : (literalLines margin false (text ++ feeds final)).length < fuel) :
    ∃ index' line', scanBlockLines false false margin breaks fuel
        ⟨literalLines margin false (text ++ feeds final) ++ (spaces behind ++ next), index, line, margin⟩ =
      (breaks ++ text, ['\n'], feeds (final - 1), ⟨next, index', line', behind⟩) ∧ line < line' := by
  have stops : behind = margin ∨ next.head? ≠ some ' ' := by
    refine .inr fun space => ?_
    exact (opens ' ' space).1 rfl
  have going : ∀ index line column, isAnyBreak (Cursor.peek ⟨next, index, line, column⟩) = false :=
    fun index line column => (opens.peek index line column).2.2
  induction paragraph generalizing breaks fuel index line with
  | @line text filled flat =>
    obtain ⟨fewer, rfl⟩ : ∃ fewer, fuel = fewer + 1 := ⟨fuel - 1, by omega⟩
    have read : scanBlockBreaks margin ((feeds (final - 1) ++ (spaces behind ++ next)).length + 1)
        ⟨feeds (final - 1) ++ (spaces behind ++ next), index + text.length + 1, line + 1, 0⟩ = _ :=
      scanBlockBreaks_feeds (final - 1) (Nat.le_of_lt outside) stops going (by rw [List.length_append, length_feeds]; omega)
    rw [literalLines_flat flat, literalLines_ends, List.append_assoc, List.cons_append, scanBlockLines_line flat read]
    have left : (behind != margin) = true := bne_iff_ne.mpr (Nat.ne_of_lt outside)
    refine ⟨index + text.length + 1 + (final - 1) + behind, line + 1 + (final - 1), ?_, by omega⟩
    simp only [left, Bool.true_or, if_true]
  | @more text rest filled flat count more ih =>
    obtain ⟨fewer, rfl⟩ : ∃ fewer, fuel = fewer + 1 := ⟨fuel - 1, by omega⟩
    have written : literalLines margin false (text ++ '\n' :: (feeds count ++ rest) ++ feeds final) =
        text ++ '\n' :: (feeds count ++ (spaces margin ++ literalLines margin false (rest ++ feeds final))) := by
      rw [List.append_assoc, literalLines_flat flat, List.cons_append, literalLines_feed, List.append_assoc, literalLines_feeds,
        literalLines_starts more]
    have going' : ∀ index line column, isAnyBreak (Cursor.peek ⟨literalLines margin false (rest ++ feeds final) ++
        (spaces behind ++ next), index, line, column⟩) = false := more.peek _ _
    obtain ⟨c, others, filled, -⟩ := more.head_written margin (feeds final)
    rw [written] at enough ⊢
    generalize literalLines margin false (rest ++ feeds final) = lines at enough ih going' filled ⊢
    have read : scanBlockBreaks margin ((feeds count ++ (spaces margin ++ (lines ++ (spaces behind ++ next)))).length + 1)
        ⟨feeds count ++ (spaces margin ++ (lines ++ (spaces behind ++ next))), index + text.length + 1, line + 1, 0⟩ = _ :=
      scanBlockBreaks_feeds count (Nat.le_refl margin) (.inl rfl) going' (by rw [List.length_append, length_feeds]; omega)
    obtain ⟨index', line', rest_read, later⟩ :
        ∃ index' line', scanBlockLines false false margin (feeds count) fewer
          ⟨lines ++ (spaces behind ++ next), index + text.length + 1 + count + margin, line + 1 + count, margin⟩ = _ ∧ _ :=
      ih (feeds count) (by simp at enough; omega)
    refine ⟨index', line', ?_, by omega⟩
    rw [List.append_assoc, List.cons_append, List.append_assoc, List.append_assoc, scanBlockLines_line flat read]
    have there : (margin != margin) = false := by simp
    have inside : Cursor.atEnd ⟨lines ++ (spaces behind ++ next), index + text.length + 1 + count + margin, line + 1 + count, margin⟩ =
        false := by
      rw [filled]
      rfl
    simp only [there, inside, Bool.or_self, Bool.false_eq_true, if_false, rest_read]
    simp

theorem exists_line (text : List Char) :
    ∃ line rest, text = line ++ rest ∧ '\n' ∉ line ∧ (rest = [] ∨ ∃ more, rest = '\n' :: more) := by
  induction text with
  | nil => exact ⟨[], [], rfl, List.not_mem_nil, .inl rfl⟩
  | cons c text ih =>
    by_cases feed : c = '\n'
    · exact ⟨[], c :: text, rfl, List.not_mem_nil, .inr ⟨text, by rw [feed]⟩⟩
    · obtain ⟨line, rest, rfl, unbroken, ends⟩ := ih
      exact ⟨c :: line, rest, rfl, by simp [Ne.symm feed, unbroken], ends⟩

theorem exists_feeds (text : List Char) : ∃ count rest, text = feeds count ++ rest ∧ rest.head? ≠ some '\n' := by
  induction text with
  | nil => exact ⟨0, [], rfl, by simp⟩
  | cons c text ih =>
    by_cases feed : c = '\n'
    · obtain ⟨count, rest, rfl, ends⟩ := ih
      exact ⟨count + 1, rest, by rw [feed]; rfl, ends⟩
    · exact ⟨0, c :: text, rfl, by simpa using feed⟩

/-- The characters of a text that a block can hold: its only breaks are line feeds. -/
def Blockable (text : List Char) : Prop := ∀ c ∈ text, c = '\n' ∨ isBreak c = false ∧ c ≠ '\r' ∧ c ≠ '\x00'

/-- A text that starts with no line feed is a paragraph with line feeds behind it. -/
theorem exists_paragraph (filled : text ≠ []) (blockable : Blockable text) (starts : text.head? ≠ some '\n') :
    ∃ body final, text = body ++ feeds final ∧ Paragraph body := by
  induction size : text.length using Nat.strongRecOn generalizing text with
  | ind size ih =>
    obtain ⟨line, rest, rfl, unbroken, ends⟩ := exists_line text
    have flat : Flat line := fun c member =>
      (blockable c (List.mem_append_left rest member)).resolve_left fun feed => unbroken (feed ▸ member)
    have line_filled : line ≠ [] := by
      rintro rfl
      rcases ends with rfl | ⟨more, rfl⟩
      · exact filled rfl
      · exact starts rfl
    rcases ends with rfl | ⟨others, rfl⟩
    · exact ⟨line, 0, rfl, .line line_filled flat⟩
    · obtain ⟨count, more, rfl, stops⟩ := exists_feeds others
      by_cases last : more = []
      · exact ⟨line, count + 1, by rw [last, List.append_nil]; rfl, .line line_filled flat⟩
      · have kept : Blockable more := fun c member => blockable c (by simp [member])
        obtain ⟨body, final, rfl, paragraph⟩ := ih more.length (by rw [← size]; simp; omega) last kept stops rfl
        exact ⟨_, final, by simp, .more line_filled flat count paragraph⟩

theorem Paragraph.last (paragraph : Paragraph text) : ∃ before c, text = before ++ [c] ∧ isBreak c = false := by
  induction paragraph with
  | @line line filled flat =>
    exact ⟨line.dropLast, line.getLast filled, (List.dropLast_append_getLast filled).symm, (flat _ (List.getLast_mem filled)).1⟩
  | @more line text filled flat count more ih =>
    obtain ⟨before, c, rfl, unbroken⟩ := ih
    exact ⟨line ++ '\n' :: (feeds count ++ before), c, by simp, unbroken⟩

/-- How a block ends as its head says. -/
def chompedAs : Nat → Chomping
  | 0 => .strip
  | 1 => .clip
  | _ => .keep

def Chomping.sign : Chomping → List Char
  | .strip => ['-']
  | .clip => []
  | .keep => ['+']

theorem chomping_paragraph (before : List Char) (paragraph : Paragraph text) (final : Nat) :
    chomping (before ++ (text ++ feeds final)) = (chompedAs final).sign := by
  obtain ⟨front, c, rfl, unbroken⟩ := paragraph.last
  have feed : isBreak '\n' = true := rfl
  have reversed : (feeds final).reverse = feeds final := List.reverse_replicate
  match final with
  | 0 => simp [chomping, feeds, unbroken, chompedAs, Chomping.sign]
  | 1 => simp [chomping, feeds, unbroken, feed, chompedAs, Chomping.sign]
  | final + 2 =>
    have ends : (before ++ (front ++ [c] ++ feeds (final + 2))).reverse = '\n' :: '\n' :: (feeds final ++ (before ++ (front ++ [c])).reverse) := by
      rw [← List.append_assoc before, List.reverse_append, reversed]
      rfl
    rw [chomping, ends]
    rfl

theorem chomping_feeds (count : Nat) : chomping (feeds (count + 1)) = Chomping.sign .keep := by
  have reversed : (feeds (count + 1)).reverse = feeds (count + 1) := List.reverse_replicate
  rw [chomping, reversed, feeds_succ]
  cases count <;> rfl

/-- The head of a block is read back. -/
theorem scanBlockHeader_reads (ending : Chomping) (hint : Bool) {index line column : Nat} :
    ∃ index', scanBlockHeader ⟨(if hint then ['2'] else []) ++ (ending.sign ++ '\n' :: rest), index, line, column⟩ =
      some (ending, if hint then some 2 else none, ⟨rest, index', line + 1, 0⟩) := by
  cases ending <;> cases hint <;> exact ⟨_, rfl⟩

/-- The margin is found from the first line. -/
theorem scanBlockIndent_spaces (count : Nat) (space : rest.head? ≠ some ' ')
    (going : ∀ index line column, isAnyBreak (Cursor.peek ⟨rest, index, line, column⟩) = false)
    {fuel index line column : Nat} (enough : count < fuel) :
    scanBlockIndent fuel ⟨spaces count ++ rest, index, line, column⟩ =
      ([], if count = 0 then 0 else column + count, ⟨rest, index + count, line, column + count⟩) := by
  induction count generalizing fuel index column with
  | zero =>
    obtain ⟨more, rfl⟩ : ∃ more, fuel = more + 1 := ⟨fuel - 1, by omega⟩
    have ink : (Cursor.peek ⟨rest, index, line, column⟩ == ' ') = false := by
      cases rest with
      | nil => rfl
      | cons c rest => simpa using space
    rw [spaces_zero, List.nil_append, scanBlockIndent, ink, going]
    rfl
  | succ count ih =>
    obtain ⟨more, rfl⟩ : ∃ more, fuel = more + 1 := ⟨fuel - 1, by omega⟩
    rw [spaces_succ, List.cons_append, scanBlockIndent]
    simp only [Cursor.peek_cons, beq_self_eq_true, if_true, Cursor.next_space]
    rw [ih (by omega)]
    have most : max (column + 1) (if count = 0 then 0 else column + 1 + count) = column + (count + 1) := by
      split <;> omega
    have inside : ¬count + 1 = 0 := by omega
    rw [most, if_neg inside, Nat.add_right_comm index, Nat.add_right_comm column]
    rfl

/-- The margin of a block, which its head tells or its first line shows, and the line feeds in front of its text. -/
def blockStart (least : Nat) (increment : Option Nat) (cursor : Cursor) : Nat × List Char × Cursor :=
  match increment with
  | none =>
    let (breaks, most, after) := scanBlockIndent (cursor.rest.length + 1) cursor
    (max least most, breaks, after)
  | some increment =>
    let indent := max least 1 + increment - 1
    let (breaks, after) := scanBlockBreaks indent (cursor.rest.length + 1) cursor
    (indent, breaks, after)

/-- What stays of the line feeds at the end of a block. -/
def Chomping.tail (line final : List Char) : Chomping → List Char
  | .strip => []
  | .clip => line
  | .keep => line ++ final

theorem tail_chompedAs (final : Nat) : (chompedAs final).tail ['\n'] (feeds (final - 1)) = feeds final := by
  match final with
  | 0 => rfl
  | 1 => rfl
  | final + 2 => rfl

/-- A block is its head, its start and its lines. -/
theorem scanBlock_parts {folded : Bool} {outer : Nat} {ending : Chomping} {increment : Option Nat} {breaks body final : List Char}
    {cursor headed started after : Cursor} (head : scanBlockHeader cursor = some (ending, increment, headed))
    (start : blockStart (outer + 1) increment headed = (indent, breaks, started))
    (lines : scanBlockLines folded false indent breaks (headed.rest.length + 1) started = (body, line, final, after)) :
    scanBlock folded outer cursor = some (body ++ ending.tail line final, after) := by
  have least : ((outer : Int) + 1).toNat = outer + 1 := by omega
  have unrooted : (outer + 1 == 0) = false := by simp
  rw [scanBlock, head]
  simp only [Option.bind_eq_bind, Option.bind_some, least, unrooted, Bool.false_and]
  cases increment with
  | none =>
    simp only [blockStart, Prod.mk.injEq] at start
    obtain ⟨rfl, rfl, rfl⟩ := start
    simp only [lines]
    cases ending <;> rfl
  | some increment =>
    simp only [blockStart, Prod.mk.injEq] at start
    obtain ⟨rfl, rfl, rfl⟩ := start
    simp only [lines]
    cases ending <;> rfl

section
variable {count behind outer index line column : Nat}

theorem blockStart_told (inside : behind ≤ outer + 2) (stops : behind = outer + 2 ∨ next.head? ≠ some ' ')
    (going : ∀ index line column, isAnyBreak (Cursor.peek ⟨next, index, line, column⟩) = false) :
    blockStart (outer + 1) (some 2) ⟨feeds count ++ (spaces behind ++ next), index, line, 0⟩ =
      (outer + 2, feeds count, ⟨next, index + count + behind, line + count, behind⟩) := by
  have hinted : max (outer + 1) 1 + 2 - 1 = outer + 2 := by omega
  have read : scanBlockBreaks (outer + 2) ((feeds count ++ (spaces behind ++ next)).length + 1)
      ⟨feeds count ++ (spaces behind ++ next), index, line, 0⟩ = _ :=
    scanBlockBreaks_feeds count inside stops going (by rw [List.length_append, length_feeds]; omega)
  simp only [blockStart, hinted, read]

theorem blockStart_shown (space : next.head? ≠ some ' ')
    (going : ∀ index line column, isAnyBreak (Cursor.peek ⟨next, index, line, column⟩) = false) :
    blockStart (outer + 1) none ⟨spaces (outer + 2) ++ next, index, line, 0⟩ =
      (outer + 2, [], ⟨next, index + (outer + 2), line, outer + 2⟩) := by
  have widest : max (outer + 1) (outer + 2) = outer + 2 := by omega
  have read : scanBlockIndent ((spaces (outer + 2) ++ next).length + 1) ⟨spaces (outer + 2) ++ next, index, line, 0⟩ = _ :=
    scanBlockIndent_spaces (outer + 2) space going (by rw [List.length_append, length_spaces]; omega)
  rw [if_neg (Nat.succ_ne_zero _), Nat.zero_add] at read
  simp only [blockStart, read, widest]

/-- Line feeds alone are read back. -/
theorem scanBlock_feeds (opens : Opens next) (outside : behind < outer + 2) :
    ∃ index' line', scanBlock false outer
        ⟨['2'] ++ (Chomping.keep.sign ++ '\n' :: (feeds count ++ (spaces behind ++ next))), index, line, column⟩ =
      some (feeds count, ⟨next, index', line', behind⟩) ∧ line < line' := by
  have stops : behind = outer + 2 ∨ next.head? ≠ some ' ' := .inr fun space => (opens ' ' space).1 rfl
  obtain ⟨index₁, head⟩ :
      ∃ index₁, scanBlockHeader ⟨(if true then ['2'] else []) ++ (Chomping.keep.sign ++ '\n' :: (feeds count ++
        (spaces behind ++ next))), index, line, column⟩ = some (.keep, some 2, ⟨_, index₁, line + 1, 0⟩) := scanBlockHeader_reads _ _
  have left : (behind != outer + 2) = true := bne_iff_ne.mpr (Nat.ne_of_lt outside)
  have ended : ∀ fuel index line, scanBlockLines false false (outer + 2) (feeds count) (fuel + 1) ⟨next, index, line, behind⟩ =
      ([], [], feeds count, ⟨next, index, line, behind⟩) := by
    intro fuel index line
    simp [scanBlockLines, left]
  refine ⟨index₁ + count + behind, line + 1 + count, ?_, by omega⟩
  exact scanBlock_parts head (blockStart_told (Nat.le_of_lt outside) stops fun index line column => (opens.peek index line column).2.2)
    (ended _ _ _)

/-- Lines with line feeds around them are read back. -/
theorem scanBlock_paragraph {hint : Bool} {final : Nat} (paragraph : Paragraph text) (opens : Opens next) (outside : behind < outer + 2)
    (told : hint = false → count = 0 ∧ text.head? ≠ some ' ') :
    ∃ index' line', scanBlock false outer ⟨(if hint then ['2'] else []) ++ ((chompedAs final).sign ++ '\n' :: (feeds count ++
        (spaces (outer + 2) ++ (literalLines (outer + 2) false (text ++ feeds final) ++ (spaces behind ++ next))))), index, line, column⟩ =
      some (feeds count ++ (text ++ feeds final), ⟨next, index', line', behind⟩) ∧ line < line' := by
  have going : ∀ index line column, isAnyBreak (Cursor.peek ⟨literalLines (outer + 2) false (text ++ feeds final) ++
      (spaces behind ++ next), index, line, column⟩) = false := paragraph.peek (feeds final) (spaces behind ++ next)
  obtain ⟨index₁, head⟩ : ∃ index₁, scanBlockHeader ⟨(if hint then ['2'] else []) ++ ((chompedAs final).sign ++ '\n' :: (feeds count ++
      (spaces (outer + 2) ++ (literalLines (outer + 2) false (text ++ feeds final) ++ (spaces behind ++ next))))), index, line, column⟩ =
        _ := scanBlockHeader_reads _ _
  obtain ⟨index', line', read, later⟩ :
      ∃ index' line', scanBlockLines false false (outer + 2) (feeds count)
        ((feeds count ++ (spaces (outer + 2) ++ (literalLines (outer + 2) false (text ++ feeds final) ++ (spaces behind ++ next)))).length + 1)
        ⟨literalLines (outer + 2) false (text ++ feeds final) ++ (spaces behind ++ next),
          index₁ + count + (outer + 2), line + 1 + count, outer + 2⟩ = _ ∧ _ :=
    scanBlockLines_paragraph paragraph final opens outside (feeds count) (by simp; omega)
  refine ⟨index', line', ?_, by omega⟩
  have ended : feeds count ++ text ++ (chompedAs final).tail ['\n'] (feeds (final - 1)) = feeds count ++ (text ++ feeds final) := by
    rw [tail_chompedAs, List.append_assoc]
  rw [← ended]
  cases hint with
  | true => exact scanBlock_parts head (blockStart_told (Nat.le_refl _) (.inl rfl) going) read
  | false =>
    obtain ⟨rfl, space⟩ := told rfl
    obtain ⟨c, others, written, first, -⟩ := paragraph.head_written (outer + 2) (feeds final)
    refine scanBlock_parts head (blockStart_shown ?_ going) read
    rw [written]
    rwa [first] at space

end

/-- A text in a literal block is read back. -/
theorem scanBlock_literal (blockable : Blockable text) (feed : '\n' ∈ text) (opens : Opens next) (outer : Nat) {behind : Nat}
    (outside : behind < outer + 2) {index line column : Nat} :
    ∃ index' line', scanBlock false outer
        ⟨(if needsIndentHint text then ['2'] else []) ++ (chomping text ++ '\n' :: (literalLines (outer + 2) true text ++
          (spaces behind ++ next))), index, line, column⟩ =
      some (text, ⟨next, index', line', behind⟩) ∧ line < line' := by
  obtain ⟨count, rest, rfl, starts⟩ := exists_feeds text
  by_cases none : rest = []
  · subst none
    obtain ⟨fewer, rfl⟩ : ∃ fewer, count = fewer + 1 := ⟨count - 1, by
      cases count with
      | zero => simp [feeds] at feed
      | succ count => rfl⟩
    have lines : literalLines (outer + 2) true (feeds (fewer + 1) ++ []) = feeds (fewer + 1) := by
      rw [literalLines_feeds, literalLines, if_pos rfl, List.append_nil]
    rw [lines, List.append_nil, chomping_feeds]
    exact scanBlock_feeds opens outside
  · have kept : Blockable rest := fun c member => blockable c (by simp [member])
    obtain ⟨body, final, rfl, paragraph⟩ := exists_paragraph none kept starts
    rw [chomping_paragraph _ paragraph, literalLines_feeds, literalLines_starts paragraph, List.append_assoc (feeds count),
      List.append_assoc (spaces (outer + 2))]
    refine scanBlock_paragraph paragraph opens outside fun unhinted => ?_
    obtain ⟨c, others, rfl, -⟩ := paragraph.exists_cons
    cases count with
    | zero =>
      refine ⟨rfl, fun space => ?_⟩
      cases space
      cases unhinted
    | succ count => cases unhinted

end

end WorkflowCompiler.Yaml
