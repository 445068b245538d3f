import Mathlib.Data.List.DropRight
import WorkflowCompiler.Proofs.LiteralBlocks

/-! What a literal block means. A reader goes by the head of the block and by how far the lines behind it stand in: a line
that is not blank and stands further out ends the block, and the head says what becomes of the breaks at its end. Read so,
the head and the lines that are written for a text mean that text. -/

namespace WorkflowCompiler.Yaml

/-- The lines of a text. Each ends at a line feed, the last one also where the text does. -/
def feedLines : List Char → List (List Char)
  | [] => []
  | c :: rest =>
    if c = '\n' then [] :: feedLines rest
    else match feedLines rest with
      | [] => [[c]]
      | line :: more => (c :: line) :: more

/-- Lines as a text, each with a line feed. -/
def fed (lines : List (List Char)) : List Char := lines.flatMap (· ++ ['\n'])

/-- How far a line stands in. -/
def leading (line : List Char) : Nat := (line.takeWhile (· == ' ')).length

def isBlankLine (line : List Char) : Bool := line.all (· == ' ')

/-- The head of a literal block: how much further than the node around it the lines stand in, where it says so, and what
becomes of the breaks at the end. -/
structure BlockHead where
  further : Option Nat
  chomping : Chomping

namespace BlockHead

def text (head : BlockHead) : List Char :=
  '|' :: (head.further.elim [] fun further => (toString further).toList) ++ head.chomping.sign

/-- How far the lines of a block in a node at `parent` stand in. If the head does not say, the first line does that is
not blank. -/
def margin (head : BlockHead) (parent : Nat) (lines : List (List Char)) : Nat :=
  match head.further with
  | some further => parent + further
  | none => max (parent + 1) (((lines.find? (!isBlankLine ·)).map leading).getD 0)

/-- The lines of the block without its margin. -/
def content (head : BlockHead) (parent : Nat) (lines : List (List Char)) : List (List Char) :=
  (lines.takeWhile fun line => isBlankLine line || decide (head.margin parent lines ≤ leading line)).map (List.drop (head.margin parent lines))

/-- The text that the block in front of `rest` means. -/
def meaning (head : BlockHead) (parent : Nat) (rest : List Char) : List Char :=
  let lines := head.content parent (feedLines rest)
  match head.chomping with
  | .strip => (fed (lines.rdropWhile List.isEmpty)).dropLast
  | .clip => fed (lines.rdropWhile List.isEmpty)
  | .keep => fed lines

end BlockHead

/-- The head that a text asks for. -/
def headOf (text : List Char) : BlockHead where
  further := if text.head? = some ' ' ∨ text.head? = some '\n' then some 2 else none
  chomping :=
    if text.getLast? ≠ some '\n' then .strip
    else if text.dropLast = [] ∨ text.dropLast.getLast? = some '\n' then .keep
    else .clip

/-- A line of a block, behind its margin if there is anything in it. -/
def marginLine (margin : Nat) (line : List Char) : List Char := if line = [] then [] else spaces margin ++ line

/-- What stands behind a block with that margin: nothing, or a line that is further out and not blank. -/
def Outside (margin : Nat) (rest : List Char) : Prop :=
  rest = [] ∨ ∃ count c more, rest = spaces count ++ c :: more ∧ count < margin ∧ c ≠ ' ' ∧ c ≠ '\n'

/-- The ends that a text can have, and what becomes of each in a block. -/
inductive Ending : List Char → Chomping → Prop
  | unended (before : List Char) {c : Char} (other : c ≠ '\n') : Ending (before ++ [c]) .strip
  | ended (before : List Char) {c : Char} (other : c ≠ '\n') : Ending (before ++ [c, '\n']) .clip
  | feed : Ending ['\n'] .keep
  | feeds (before : List Char) : Ending (before ++ ['\n', '\n']) .keep

/-- The only breaks in the text are line feeds. -/
def OnlyFeeds (text : List Char) : Prop := ∀ c ∈ text, c = '\n' ∨ isBreak c = false

section

variable {text line rest below : List Char} {lines : List (List Char)} {margin : Nat} {c : Char}

theorem feedLines_feed (rest : List Char) : feedLines ('\n' :: rest) = [] :: feedLines rest := if_pos rfl

theorem feedLines_cons (other : c ≠ '\n') (rest : List Char) :
    (feedLines rest = [] ∧ feedLines (c :: rest) = [[c]]) ∨
      ∃ line more, feedLines rest = line :: more ∧ feedLines (c :: rest) = (c :: line) :: more := by
  rw [feedLines, if_neg other]
  cases feedLines rest with
  | nil => exact .inl ⟨rfl, rfl⟩
  | cons line more => exact .inr ⟨line, more, rfl, rfl⟩

theorem feedLines_line (unbroken : '\n' ∉ line) (rest : List Char) : feedLines (line ++ '\n' :: rest) = line :: feedLines rest := by
  induction line with
  | nil => exact feedLines_feed rest
  | cons c line ih =>
    obtain ⟨other, unbroken⟩ := not_or.mp (mt List.mem_cons.mpr unbroken)
    rw [List.cons_append, feedLines, if_neg (Ne.symm other), ih unbroken]

theorem feedLines_last (unbroken : '\n' ∉ line) (filled : line ≠ []) : feedLines line = [line] := by
  induction line with
  | nil => exact absurd rfl filled
  | cons c line ih =>
    obtain ⟨other, unbroken⟩ := not_or.mp (mt List.mem_cons.mpr unbroken)
    rw [feedLines, if_neg (Ne.symm other)]
    cases line with
    | nil => rfl
    | cons d line => rw [ih unbroken (List.cons_ne_nil d line)]

theorem unbroken_of_mem_feedLines (member : line ∈ feedLines text) : '\n' ∉ line := by
  induction text generalizing line with
  | nil => cases member
  | cons c text ih =>
    by_cases feed : c = '\n'
    · subst feed
      rw [feedLines_feed] at member
      rcases List.mem_cons.mp member with rfl | later
      · exact List.not_mem_nil
      · exact ih later
    · rcases feedLines_cons feed text with ⟨-, single⟩ | ⟨first, more, rest, whole⟩
      · rw [single] at member
        rw [List.mem_singleton.mp member]
        simpa using Ne.symm feed
      · rw [whole] at member
        rcases List.mem_cons.mp member with rfl | later
        · have inside := ih (rest ▸ List.mem_cons_self : first ∈ feedLines text)
          simpa [inside] using Ne.symm feed
        · exact ih (rest ▸ List.mem_cons_of_mem first later)

/-- A line feed at the end only ends the last line. -/
theorem feedLines_ended (other : c ≠ '\n') (text : List Char) : feedLines (text ++ [c, '\n']) = feedLines (text ++ [c]) := by
  induction text with
  | nil => simp [feedLines, other]
  | cons d text ih => rw [List.cons_append, List.cons_append, feedLines, feedLines, ih]

theorem fed_feedLines (text : List Char) : fed (feedLines (text ++ ['\n'])) = text ++ ['\n'] := by
  induction text with
  | nil => rfl
  | cons c text ih =>
    by_cases feed : c = '\n'
    · subst feed
      rw [List.cons_append, feedLines_feed]
      exact congrArg (List.cons '\n') ih
    · rcases feedLines_cons feed (text ++ ['\n']) with ⟨none, -⟩ | ⟨line, more, rest, whole⟩
      · rw [none] at ih
        simp [fed] at ih
      · rw [List.cons_append, whole]
        rw [rest] at ih
        exact congrArg (List.cons c) ih

/-- The last line of a text that does not end in a line feed is not empty. -/
theorem exists_last_line (other : c ≠ '\n') (text : List Char) : ∃ before line, feedLines (text ++ [c]) = before ++ [line] ∧ line ≠ [] := by
  induction text with
  | nil => exact ⟨[], [c], by simp [feedLines, other], List.cons_ne_nil c []⟩
  | cons d text ih =>
    obtain ⟨before, last, same, filled⟩ := ih
    by_cases feed : d = '\n'
    · subst feed
      exact ⟨[] :: before, last, by rw [List.cons_append, feedLines_feed, same]; rfl, filled⟩
    · rw [List.cons_append, feedLines, if_neg feed, same]
      cases before with
      | nil => exact ⟨[], d :: last, rfl, List.cons_ne_nil d last⟩
      | cons first before => exact ⟨(d :: first) :: before, last, rfl, filled⟩

theorem rdropWhile_feedLines (other : c ≠ '\n') (text : List Char) :
    (feedLines (text ++ [c])).rdropWhile List.isEmpty = feedLines (text ++ [c]) := by
  obtain ⟨before, line, same, filled⟩ := exists_last_line other text
  rw [same, List.rdropWhile_concat_neg]
  simpa using filled

/-- The lines that are written for a text are its own, behind the margin. -/
theorem literalLines_eq (feeds : OnlyFeeds text) :
    literalLines margin true text = fed ((feedLines text).map (marginLine margin)) ∧
      literalLines margin false text = match feedLines text with
        | [] => ['\n']
        | line :: more => line ++ '\n' :: fed (more.map (marginLine margin)) := by
  induction text with
  | nil => exact ⟨rfl, rfl⟩
  | cons c text ih =>
    obtain ⟨here, later⟩ := List.forall_mem_cons.mp feeds
    obtain ⟨starts, goes⟩ := ih later
    by_cases feed : c = '\n'
    · subst feed
      rw [feedLines_feed, literalLines_feed, literalLines_feed, starts]
      exact ⟨rfl, rfl⟩
    · have unbroken := here.resolve_left feed
      rw [literalLines, literalLines, unbroken, goes]
      rcases feedLines_cons feed text with ⟨none, single⟩ | ⟨line, more, rest, whole⟩
      · rw [none, single]
        simp [fed, marginLine]
      · rw [rest, whole]
        simp [fed, marginLine]

theorem leading_spaces (count : Nat) (line : List Char) : leading (spaces count ++ line) = count + leading line := by
  have all : ∀ c ∈ spaces count, (c == ' ') = true := fun c member => beq_iff_eq.mpr (eq_of_mem_spaces member)
  rw [leading, List.takeWhile_append_of_pos all, List.length_append, length_spaces, leading]

theorem leading_filled (other : c ≠ ' ') (line : List Char) : leading (c :: line) = 0 := by
  simp [leading, other]

theorem isBlankLine_filled (other : c ≠ ' ') (before after : List Char) : isBlankLine (before ++ c :: after) = false := by
  simp [isBlankLine, other]

theorem feedLines_fed (unbroken : ∀ line ∈ lines, '\n' ∉ line) (rest : List Char) : feedLines (fed lines ++ rest) = lines ++ feedLines rest := by
  induction lines with
  | nil => rfl
  | cons line lines ih =>
    obtain ⟨first, later⟩ := List.forall_mem_cons.mp unbroken
    have split : fed (line :: lines) ++ rest = line ++ '\n' :: (fed lines ++ rest) := by simp [fed]
    rw [split, feedLines_line first, ih later, List.cons_append]

/-- The first line behind a block is not blank and stands further out. -/
theorem feedLines_outside (outside : Outside margin below) :
    feedLines below = [] ∨ ∃ line more, feedLines below = line :: more ∧ isBlankLine line = false ∧ leading line < margin := by
  obtain rfl | ⟨count, c, more, rfl, out, ink, other⟩ := outside
  · exact .inl rfl
  · right
    obtain ⟨line, rest, same, unbroken, ends⟩ := exists_line (c :: more)
    obtain ⟨line, rfl⟩ : ∃ inner, line = c :: inner := by
      cases line with
      | nil =>
        rcases ends with rfl | ⟨more, rfl⟩
        · cases same
        · exact absurd (List.cons.inj same).1 other
      | cons d line => exact ⟨line, by rw [(List.cons.inj same).1]⟩
    have whole : '\n' ∉ spaces count ++ c :: line := by
      intro member
      rcases List.mem_append.mp member with space | inside
      · cases eq_of_mem_spaces space
      · exact unbroken inside
    have far : leading (spaces count ++ c :: line) < margin := by
      rw [leading_spaces, leading_filled ink]
      exact out
    refine ⟨spaces count ++ c :: line, feedLines (rest.drop 1), ?_, isBlankLine_filled ink _ _, far⟩
    rw [same, ← List.append_assoc]
    rcases ends with rfl | ⟨more, rfl⟩
    · rw [List.append_nil, feedLines_last whole (by simp)]
      rfl
    · rw [feedLines_line whole]
      rfl

theorem drop_marginLine (margin : Nat) (line : List Char) : (marginLine margin line).drop margin = line := by
  unfold marginLine
  split
  · next empty => rw [List.drop_nil, empty]
  · exact List.drop_left' (length_spaces margin)

theorem fits_marginLine (margin : Nat) (line : List Char) :
    (isBlankLine (marginLine margin line) || decide (margin ≤ leading (marginLine margin line))) = true := by
  unfold marginLine
  split
  · rfl
  · simp [leading_spaces]

theorem unbroken_marginLine (unbroken : '\n' ∉ line) : '\n' ∉ marginLine margin line := by
  unfold marginLine
  split
  · exact List.not_mem_nil
  · intro member
    rcases List.mem_append.mp member with space | inside
    · cases eq_of_mem_spaces space
    · exact unbroken inside

/-- The margin is told where the first line would not show it. -/
theorem margin_headOf (filled : text ≠ []) (parent : Nat) (behind : List (List Char)) :
    (headOf text).margin parent ((feedLines text).map (marginLine (parent + 2)) ++ behind) = parent + 2 := by
  by_cases edge : text.head? = some ' ' ∨ text.head? = some '\n'
  · simp only [BlockHead.margin, headOf, if_pos edge]
  · obtain ⟨c, rest, rfl⟩ := List.exists_cons_of_ne_nil filled
    obtain ⟨ink, other⟩ : c ≠ ' ' ∧ c ≠ '\n' := by simpa using edge
    obtain ⟨line, more, same⟩ : ∃ line more, feedLines (c :: rest) = (c :: line) :: more := by
      rcases feedLines_cons other rest with ⟨-, single⟩ | ⟨line, more, -, whole⟩
      · exact ⟨[], [], single⟩
      · exact ⟨line, more, whole⟩
    have first : marginLine (parent + 2) (c :: line) = spaces (parent + 2) ++ c :: line := if_neg (List.cons_ne_nil c line)
    have found : (((feedLines (c :: rest)).map (marginLine (parent + 2)) ++ behind).find? (!isBlankLine ·)) =
        some (spaces (parent + 2) ++ c :: line) := by
      rw [same, List.map_cons, first, List.cons_append, List.find?_cons, isBlankLine_filled ink]
      rfl
    simp only [BlockHead.margin, headOf, if_neg edge, found, Option.map_some, Option.getD_some, leading_spaces, leading_filled ink]
    omega

/-- The lines of a block are those of the text. -/
theorem content_headOf (filled : text ≠ []) (feeds : OnlyFeeds text) {parent : Nat} (outside : Outside (parent + 2) below) :
    (headOf text).content parent (feedLines (literalLines (parent + 2) true text ++ below)) = feedLines text := by
  have unbroken : ∀ line ∈ (feedLines text).map (marginLine (parent + 2)), '\n' ∉ line := by
    intro line member
    obtain ⟨own, there, rfl⟩ := List.mem_map.mp member
    exact unbroken_marginLine (unbroken_of_mem_feedLines there)
  have inside : ∀ line ∈ (feedLines text).map (marginLine (parent + 2)),
      (isBlankLine line || decide (parent + 2 ≤ leading line)) = true := by
    intro line member
    obtain ⟨own, -, rfl⟩ := List.mem_map.mp member
    exact fits_marginLine (parent + 2) own
  have stops : (feedLines below).takeWhile (fun line => isBlankLine line || decide (parent + 2 ≤ leading line)) = [] := by
    obtain none | ⟨line, more, same, ink, out⟩ := feedLines_outside outside
    · rw [none]
      rfl
    · rw [same, List.takeWhile_cons, ink, decide_eq_false (Nat.not_le_of_lt out)]
      rfl
  have dropped : ((feedLines text).map (marginLine (parent + 2))).map (List.drop (parent + 2)) = feedLines text := by
    rw [List.map_map]
    exact (List.map_congr_left fun line _ => drop_marginLine (parent + 2) line).trans (List.map_id _)
  rw [(literalLines_eq feeds).1, feedLines_fed unbroken, BlockHead.content, margin_headOf filled, List.takeWhile_append_of_pos inside, stops,
    List.append_nil, dropped]

theorem ending_headOf (filled : text ≠ []) : Ending text (headOf text).chomping := by
  obtain rfl | ⟨before, last, rfl⟩ := List.eq_nil_or_concat' text
  · exact absurd rfl filled
  by_cases feed : last = '\n'
  · subst feed
    obtain rfl | ⟨front, c, rfl⟩ := List.eq_nil_or_concat' before
    · exact .feed
    by_cases other : c = '\n'
    · subst other
      simpa [headOf] using Ending.feeds front
    · simpa [headOf, other] using Ending.ended front other
  · simpa [headOf, feed] using Ending.unended before feed

/-- The block that is written for a text means the text. -/
theorem meaning_headOf (filled : text ≠ []) (feeds : OnlyFeeds text) {parent : Nat} (outside : Outside (parent + 2) below) :
    (headOf text).meaning parent (literalLines (parent + 2) true text ++ below) = text := by
  have ending := ending_headOf filled
  rw [BlockHead.meaning, content_headOf filled feeds outside]
  generalize (headOf text).chomping = chomping at ending
  cases ending with
  | @unended before c other =>
    have whole := fed_feedLines (before ++ [c])
    rw [List.append_assoc, List.singleton_append, feedLines_ended other] at whole
    show (fed ((feedLines (before ++ [c])).rdropWhile List.isEmpty)).dropLast = before ++ [c]
    rw [rdropWhile_feedLines other, whole]
    simp
  | @ended before c other =>
    show fed ((feedLines (before ++ [c, '\n'])).rdropWhile List.isEmpty) = before ++ [c, '\n']
    rw [feedLines_ended other, rdropWhile_feedLines other, ← feedLines_ended other]
    simpa using fed_feedLines (before ++ [c])
  | feed => rfl
  | feeds before => simpa using fed_feedLines (before ++ ['\n'])

/-- The head is the one that the text asks for. -/
theorem literalHeader_eq (filled : text ≠ []) (feeds : OnlyFeeds text) : literalHeader text = (headOf text).text := by
  have hint : needsIndentHint text = decide (text.head? = some ' ' ∨ text.head? = some '\n') := by
    obtain ⟨c, rest, rfl⟩ := List.exists_cons_of_ne_nil filled
    rcases feeds c List.mem_cons_self with rfl | unbroken
    · rfl
    · have other : c ≠ '\n' := fun feed => by simp [feed, isBreak] at unbroken
      simp [needsIndentHint, isEdge, unbroken, other, beq_eq_decide]
  have signed : chomping text = (headOf text).chomping.sign := by
    have ending := ending_headOf filled
    generalize (headOf text).chomping = mark at ending
    have last : isBreak '\n' = true := rfl
    cases ending with
    | @unended before c other =>
      have unbroken := (feeds c (by simp)).resolve_left other
      simp [chomping, unbroken, Chomping.sign]
    | @ended before c other =>
      have unbroken := (feeds c (by simp)).resolve_left other
      simp [chomping, unbroken, last, Chomping.sign]
    | feed => rfl
    | feeds before => simp [chomping, last, Chomping.sign]
  rw [literalHeader, BlockHead.text, signed, hint]
  by_cases edge : text.head? = some ' ' ∨ text.head? = some '\n'
  · simp only [headOf, if_pos edge, decide_eq_true edge]
    rfl
  · simp only [headOf, if_neg edge, decide_eq_false edge]
    rfl

end

end WorkflowCompiler.Yaml
