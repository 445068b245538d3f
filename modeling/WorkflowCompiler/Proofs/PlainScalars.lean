import WorkflowCompiler.Proofs.CursorMoves
import Mathlib.Data.List.Basic

/-! Texts without quotes. Such a text is words with spaces between them. Where its lines get too long, single spaces
become line breaks, which read as the spaces that they stand for. -/

namespace WorkflowCompiler.Yaml
open Proofs (Stops takeWhile_append_of_stops takeWhile_of_stops)

/-- Characters that can stand together without a blank. No comment opens here, and no key ends. -/
structure Word (word : List Char) : Prop where
  filled : word ≠ []
  shown : ∀ c ∈ word, isShown c = true
  solid : ∀ c ∈ word, isGap c = false
  opens : word.head? ≠ some '#'
  ends : word.getLast? ≠ some ':'

/-- Words with spaces between them. -/
inductive Spaced : List Char → Prop
  | word {word : List Char} (here : Word word) : Spaced word
  | gap {word text : List Char} (here : Word word) (count : Nat) (more : Spaced text) : Spaced (word ++ (spaces (count + 1) ++ text))

/-- How spaces between two words may be written. -/
inductive Gap (margin : Nat) : List Char → List Char → Prop
  | spaces (count : Nat) : Gap margin (spaces (count + 1)) (spaces (count + 1))
  | fold (count : Nat) : Gap margin [' '] (Yaml.spaces count ++ '\n' :: Yaml.spaces margin)

/-- How words with spaces between them may be written. -/
inductive PlainLines (margin : Nat) : List Char → List Char → Prop
  | word {word : List Char} (here : Word word) : PlainLines margin word word
  | gap {word meant written text lines : List Char} (here : Word word) (gap : Gap margin meant written)
      (more : PlainLines margin text lines) : PlainLines margin (word ++ (meant ++ text)) (word ++ (written ++ lines))

section
variable {word text lines rest meant written : List Char} {margin : Nat} {c : Char}

theorem solid_cases (solid : isGap c = false) :
    c ≠ '\x00' ∧ c ≠ ' ' ∧ c ≠ '\t' ∧ c ≠ '\r' ∧ c ≠ '\n' ∧ c ≠ '\x85' ∧ c ≠ '\u2028' ∧ c ≠ '\u2029' := by
  simpa [isGap, isBreak, and_assoc] using solid

theorem endsLineOrGap_solid (solid : isGap c = false) : endsLineOrGap c = false := by
  simp [endsLineOrGap, endsLine, isAnyBreak, solid_cases solid]

theorem isAnyBreak_solid (solid : isGap c = false) : isAnyBreak c = false := by
  simp [isAnyBreak, solid_cases solid]

theorem Word.exists_cons (word : Word text) : ∃ c rest, text = c :: rest ∧ isGap c = false ∧ c ≠ '#' := by
  obtain ⟨c, rest, rfl⟩ := List.exists_cons_of_ne_nil word.filled
  exact ⟨c, rest, rfl, word.solid c List.mem_cons_self, fun same => word.opens (by rw [same]; rfl)⟩

theorem Word.opens_here (word : Word text) : Opens text := by
  obtain ⟨c, rest, rfl, solid, comment⟩ := word.exists_cons
  have cases := solid_cases solid
  exact opens_cons ⟨cases.2.1, cases.2.2.1, comment, isAnyBreak_solid solid⟩

theorem Word.no_space (word : Word text) : ∀ c ∈ text, c ≠ ' ' :=
  fun c member => (solid_cases (word.solid c member)).2.1

theorem inline_of_shown (shown : isShown c = true) : isInline c = true := by
  have feed : c ≠ '\n' := by rintro rfl; exact absurd shown (by decide)
  have back : c ≠ '\r' := by rintro rfl; exact absurd shown (by decide)
  have mark : c ≠ '\uFEFF' := by rintro rfl; exact absurd shown (by decide)
  simp [isInline, feed, back, mark]

theorem PlainLines.opens (lines : PlainLines margin text written) : Opens written := by
  cases lines with
  | word here => exact here.opens_here
  | gap here _ _ => exact here.opens_here.append here.filled _

theorem PlainLines.exists_cons (lines : PlainLines margin text written) : ∃ c rest, written = c :: rest ∧ isGap c = false ∧ c ≠ '#' := by
  cases lines with
  | word here => exact here.exists_cons
  | gap here _ _ =>
    obtain ⟨c, rest, rfl, ink⟩ := here.exists_cons
    exact ⟨c, _, rfl, ink⟩

theorem PlainLines.filled (lines : PlainLines margin text written) : text ≠ [] := by
  cases lines with
  | word here => exact here.filled
  | gap here _ _ => exact List.append_ne_nil_of_left_ne_nil here.filled _

/-- A word is read up to where something else stands. -/
theorem plainRun_word (solid : ∀ c ∈ word, isGap c = false) (ends : word.getLast? ≠ some ':') (stops : plainRun false rest = 0) :
    plainRun false (word ++ rest) = word.length := by
  induction word with
  | nil => exact stops
  | cons c word ih =>
    have blank : endsLineOrGap c = false := endsLineOrGap_solid (solid c List.mem_cons_self)
    have more : plainRun false (word ++ rest) = word.length := by
      apply ih fun d member => solid d (List.mem_cons_of_mem c member)
      intro last
      cases word with
      | nil => cases last
      | cons d word => exact ends (by rw [List.getLast?_cons_cons, last])
    have colon : c = ':' → endsLineOrGap ((word ++ rest).headD '\x00') = false := by
      rintro rfl
      cases word with
      | nil => exact absurd rfl ends
      | cons d word => exact endsLineOrGap_solid (solid d (List.mem_cons_of_mem _ List.mem_cons_self))
    rw [List.cons_append, plainRun, more]
    by_cases key : c = ':'
    · rw [colon key]
      simp [key]
    · simp [key, blank]

theorem plainRun_space : plainRun false (' ' :: rest) = 0 := by simp [plainRun, endsLineOrGap]

theorem plainRun_feed : plainRun false ('\n' :: rest) = 0 := by simp [plainRun, endsLineOrGap, endsLine, isAnyBreak]

theorem plainRun_colon (gap : endsLineOrGap (rest.headD '\x00') = true) : plainRun false (':' :: rest) = 0 := by
  rw [plainRun, gap]
  rfl

/-- What stands behind the break of a folded text is read up to the next word. -/
theorem breaks_spaces (opens : Opens rest) (count : Nat) {fuel index line column : Nat} (enough : count < fuel) :
    scanPlainSpaces.breaks fuel ⟨spaces count ++ rest, index, line, column⟩ =
      (some [], ⟨rest, index + count, line, column + count⟩) := by
  induction count generalizing fuel index column with
  | zero =>
    obtain ⟨more, rfl⟩ : ∃ more, fuel = more + 1 := ⟨fuel - 1, by omega⟩
    obtain ⟨space, -, ends⟩ := opens.peek index line column
    simp [scanPlainSpaces.breaks, space, ends]
  | succ count ih =>
    obtain ⟨more, rfl⟩ : ∃ more, fuel = more + 1 := ⟨fuel - 1, by omega⟩
    rw [spaces_succ, List.cons_append, scanPlainSpaces.breaks]
    simp only [Cursor.peek_cons, Cursor.next_space, beq_self_eq_true, if_true]
    rw [ih (by omega)]
    congr 2 <;> omega

theorem atAnyMarker_space {index line column : Nat} : atAnyMarker ⟨' ' :: rest, index, line, column⟩ = false := rfl

theorem scanPlainSpaces_spaces (opens : Opens rest) (count : Nat) {index line column : Nat} :
    scanPlainSpaces ⟨spaces count ++ rest, index, line, column⟩ =
      (spaces count, false, ⟨rest, index + count, line, column + count⟩) := by
  have all : ∀ c ∈ spaces count, (c == ' ') = true := fun c member => beq_iff_eq.mpr (eq_of_mem_spaces member)
  rw [scanPlainSpaces, Cursor.taken, (takeWhile_append_of_stops all opens.not_space).1, length_spaces, Cursor.skip_spaces]
  rw [(opens.peek _ _ _).2.2]
  rfl

/-- A break between words reads as one space. -/
theorem scanPlainSpaces_fold (opens : Opens rest) (count : Nat) (inside : 0 < margin) {index line column : Nat} :
    scanPlainSpaces ⟨spaces count ++ '\n' :: (spaces margin ++ rest), index, line, column⟩ =
      ([' '], true, ⟨rest, index + count + 1 + margin, line + 1, margin⟩) := by
  have all : ∀ c ∈ spaces count, (c == ' ') = true := fun c member => beq_iff_eq.mpr (eq_of_mem_spaces member)
  have stops : Stops (· == ' ') ('\n' :: (spaces margin ++ rest)) := by
    intro c member
    cases member
    rfl
  obtain ⟨more, rfl⟩ : ∃ more, margin = more + 1 := ⟨margin - 1, by omega⟩
  have unmarked : atAnyMarker ⟨spaces (more + 1) ++ rest, index + count + 1, line + 1, 0⟩ = false := atAnyMarker_space
  rw [scanPlainSpaces, Cursor.taken, (takeWhile_append_of_stops all stops).1, length_spaces, Cursor.skip_spaces]
  simp only [Cursor.peek_cons, scanBreak_feed, unmarked]
  rw [breaks_spaces opens _ (by rw [List.length_append, length_spaces]; omega)]
  simp [isAnyBreak, foldBreak]

/-- Reading a text whose lines are indented by `indent` stops where `rest` begins. -/
structure Halts (indent : Int) (rest : List Char) : Prop where
  stops : plainRun false rest = 0
  leaves : ∀ index line column, (scanPlainSpaces ⟨rest, index, line, column⟩).1 = [] ∨
    ((scanPlainSpaces ⟨rest, index, line, column⟩).2.2.column : Int) < indent

/-- Reading a word, with what is read behind it. -/
theorem scanPlain_word (here : Word word) (stops : plainRun false rest = 0) {indent : Int} {ended : Bool}
    {fuel index line column : Nat} :
    scanPlain false indent ended (fuel + 1) ⟨word ++ rest, index, line, column⟩ =
      let (spaces, ended, cursor) := scanPlainSpaces ⟨rest, index + word.length, line, column + word.length⟩
      if spaces.isEmpty || cursor.peek == '#' || (cursor.column : Int) < indent then (word, ended, cursor)
      else
        let (more, ended, after) := scanPlain false indent ended fuel cursor
        (word ++ (if more.isEmpty then [] else spaces ++ more), ended, after) := by
  have run := plainRun_word here.solid here.ends stops
  have inline : ∀ c ∈ word, isInline c = true := fun c member => inline_of_shown (here.shown c member)
  have comment : (Cursor.peek ⟨word ++ rest, index, line, column⟩ == '#') = false :=
    ((here.opens_here.append here.filled rest).peek _ _ _).2.1
  have some : word.length ≠ 0 := fun none => here.filled (List.length_eq_zero_iff.mp none)
  rw [scanPlain]
  simp only [comment, run, Cursor.skip_inline inline, List.take_left, some, Bool.false_eq_true, if_false, Bool.not_false,
    Bool.true_and]

theorem scanPlainSpaces_gap (gap : Gap margin meant written) (opens : Opens rest) (inside : 0 < margin) {index line column : Nat} :
    ∃ folds index' line' column', scanPlainSpaces ⟨written ++ rest, index, line, column⟩ =
        (meant, folds, ⟨rest, index', line', column'⟩) ∧ (column' = margin ∨ column < column') ∧
      Cursor.Passes written ⟨written ++ rest, index, line, column⟩ ⟨rest, index', line', column'⟩ := by
  cases gap with
  | spaces count =>
    have passed : Cursor.Passes (spaces (count + 1)) ⟨spaces (count + 1) ++ rest, index, line, column⟩ _ := Cursor.passes_inline
    rw [length_spaces] at passed
    exact ⟨_, _, _, _, scanPlainSpaces_spaces opens (count + 1), .inr (by omega), passed⟩
  | fold count =>
    rw [List.append_assoc, List.cons_append]
    exact ⟨_, _, _, _, scanPlainSpaces_fold opens count inside, .inl rfl, Cursor.passes_feed (by simp) (Nat.le_add_right line _)⟩

theorem Gap.ne_nil (gap : Gap margin meant written) : meant ≠ [] := by
  cases gap <;> simp [spaces_succ]

theorem plainRun_gap (gap : Gap margin meant written) : plainRun false (written ++ rest) = 0 := by
  cases gap with
  | spaces count => exact plainRun_space
  | fold count =>
    cases count with
    | zero => exact plainRun_feed
    | succ count => exact plainRun_space

/-- A text is read back from its lines. -/
theorem scanPlain_lines {indent : Int} (lines : PlainLines margin text written) (halts : Halts indent rest) (inside : 0 < margin)
    (further : indent ≤ margin) {ended : Bool} {fuel index line column : Nat} (enough : written.length ≤ fuel)
    (placed : indent ≤ column + 1) :
    ∃ index' line' column', scanPlain false indent ended fuel ⟨written ++ rest, index, line, column⟩ =
        (text, (scanPlainSpaces ⟨rest, index', line', column'⟩).2) ∧
      Cursor.Passes written ⟨written ++ rest, index, line, column⟩ ⟨rest, index', line', column'⟩ := by
  induction lines generalizing ended fuel index line column with
  | @word word here =>
    have filled := List.length_pos_of_ne_nil here.filled
    obtain ⟨more, rfl⟩ : ∃ more, fuel = more + 1 := ⟨fuel - 1, by omega⟩
    refine ⟨index + word.length, line, column + word.length, ?_, Cursor.passes_inline⟩
    rw [scanPlain_word here halts.stops]
    rcases halts.leaves (index + word.length) line (column + word.length) with none | left
    · simp [none]
    · simp [left]
  | @gap word meant written text lines here gap more ih =>
    have filled := List.length_pos_of_ne_nil here.filled
    obtain ⟨fewer, rfl⟩ : ∃ fewer, fuel = fewer + 1 := ⟨fuel - 1, by simp at enough; omega⟩
    obtain ⟨folds, index₁, line₁, column₁, spaced, shifted, crossed⟩ :
        ∃ folds index₁ line₁ column₁, scanPlainSpaces ⟨written ++ (lines ++ rest), index + word.length, line, column + word.length⟩ =
          (meant, folds, ⟨lines ++ rest, index₁, line₁, column₁⟩) ∧ _ :=
      scanPlainSpaces_gap gap (more.opens.append (by obtain ⟨c, rest, rfl, -⟩ := more.exists_cons; simp) rest) inside
    obtain ⟨index₂, line₂, column₂, read, behind⟩ :
        ∃ index₂ line₂ column₂, scanPlain false indent folds fewer ⟨lines ++ rest, index₁, line₁, column₁⟩ = _ ∧ _ :=
      ih (by simp at enough; omega) (by omega)
    have some := more.filled
    obtain ⟨c, others, rfl, solid, comment⟩ := more.exists_cons
    have inner : ¬(column₁ : Int) < indent := by omega
    rw [List.append_assoc, List.append_assoc]
    refine ⟨index₂, line₂, column₂, ?_, Cursor.passes_inline.append (crossed.append behind)⟩
    rw [scanPlain_word here (plainRun_gap gap), spaced]
    simp only [List.cons_append] at read ⊢
    simp [read, gap.ne_nil, comment, inner, some]

/-- A text that is written on one line is written as it is. -/
theorem PlainLines.flat (lines : PlainLines margin text written) (unbroken : '\n' ∉ written) : written = text := by
  induction lines with
  | word here => rfl
  | gap here gap more ih =>
    simp only [List.mem_append, not_or] at unbroken
    rw [ih unbroken.2.2]
    cases gap with
    | spaces count => rfl
    | fold count => simp at unbroken

/-- The rest of a word is never broken. -/
theorem plainFrom_run (place : Place) (column : Nat) (solid : ∀ c ∈ word, c ≠ ' ') :
    plainFrom place column false (word ++ rest) = word ++ plainFrom place (column + word.length) false rest := by
  induction word generalizing column with
  | nil => rfl
  | cons c word ih =>
    have space : (c == ' ') = false := beq_eq_false_iff_ne.mpr (solid c List.mem_cons_self)
    rw [List.cons_append, plainFrom, ih (column + 1) fun d member => solid d (List.mem_cons_of_mem c member)]
    simp [space, Nat.add_comm, Nat.add_left_comm]

/-- A word that would cross the line's width starts a new line. -/
theorem plainFrom_word {place : Place} (left : place.margin = some margin) (column : Nat) (here : Word word)
    (ends : Stops (· != ' ') rest) :
    ∃ lead after, plainFrom place column true (word ++ rest) = lead ++ (word ++ plainFrom place after false rest) ∧
      (lead = [] ∧ after = column + word.length ∨ lead = place.newLine ∧ margin < column) := by
  obtain ⟨c, others, rfl, solid, -⟩ := here.exists_cons
  have all : ∀ d ∈ others, (d != ' ') = true :=
    fun d member => bne_iff_ne.mpr (here.no_space d (List.mem_cons_of_mem c member))
  have space : (c == ' ') = false := beq_eq_false_iff_ne.mpr (solid_cases solid).2.1
  have run : ∀ column, plainFrom place column false (others ++ rest) = others ++ plainFrom place (column + others.length) false rest :=
    fun column => plainFrom_run place column fun d member => here.no_space d (List.mem_cons_of_mem c member)
  rw [List.cons_append, plainFrom, (takeWhile_append_of_stops all ends).1]
  simp only [space, left, Bool.false_eq_true, if_false, Bool.true_and, Option.any_some, Bool.and_eq_true, decide_eq_true_eq,
    gt_iff_lt, run, List.length_cons]
  have first : 1 + others.length = others.length + 1 := Nat.add_comm _ _
  rw [first]
  split
  next folded => exact ⟨place.newLine, _, rfl, .inr ⟨rfl, folded.2⟩⟩
  next => exact ⟨[], _, rfl, .inl ⟨rfl, by omega⟩⟩

/-- A single space beyond the line's width becomes a line break. -/
theorem plainFrom_spaces {place : Place} (left : place.margin = some margin) (column count : Nat) (opens : Opens text) :
    ∃ written after, plainFrom place column false (spaces (count + 1) ++ text) = written ++ plainFrom place after true text ∧
      (written = spaces (count + 1) ∧ after = column + (count + 1) ∨
        written = place.newLine ∧ after = margin ∧ count = 0) := by
  have rest : ∀ count column, plainFrom place column true (spaces count ++ text) =
      spaces count ++ plainFrom place (column + count) true text := by
    intro count
    induction count with
    | zero => exact fun column => rfl
    | succ count ih =>
      intro column
      rw [spaces_succ, List.cons_append, plainFrom]
      simp [ih, Nat.add_comm, Nat.add_left_comm]
  rw [spaces_succ, List.cons_append, plainFrom, rest count (column + 1)]
  by_cases folded : count = 0 ∧ lineWidth ≤ column ∧ place.folds = true
  · obtain ⟨rfl, wide, folds⟩ := folded
    have next : (text.head? != some ' ') = true := by
      cases text with
      | nil => rfl
      | cons c text => simpa using (opens c rfl).1
    exact ⟨place.newLine, margin, by simp [next, Place.left, left, wide, folds], .inr ⟨rfl, rfl, rfl⟩⟩
  · have kept : (!false && decide (column ≥ lineWidth) && place.folds && (spaces count ++ text).head? != some ' ') = false := by
      rw [Bool.eq_false_iff]
      intro all
      simp only [Bool.not_false, Bool.true_and, Bool.and_eq_true, decide_eq_true_eq, bne_iff_ne] at all
      cases count with
      | zero => exact folded ⟨rfl, all.1.1, all.1.2⟩
      | succ count => exact all.2 rfl
    refine ⟨' ' :: spaces count, column + (count + 1), ?_, .inl ⟨rfl, rfl⟩⟩
    simp only [beq_self_eq_true, if_true, kept, Bool.false_eq_true, if_false, List.cons_append]
    rw [Nat.add_assoc, Nat.add_comm 1 count]

theorem Spaced.opens (spaced : Spaced text) : Opens text := by
  cases spaced with
  | word here => exact here.opens_here
  | gap here _ _ => exact here.opens_here.append here.filled _

theorem stops_spaces (count : Nat) : Stops (· != ' ') (spaces (count + 1) ++ rest) := by
  intro c member
  cases member
  rfl

/-- The lines that a text is written in, where none of them ends in more than one space. A first line break may stand in front
of the text. -/
theorem plainFrom_lines {place : Place} (spaced : Spaced text) (left : place.margin = some margin) (column : Nat)
    (narrow : ¬ [' ', ' ', '\n'] <:+: plainFrom place column true text) :
    ∃ lead lines, plainFrom place column true text = lead ++ lines ∧ PlainLines margin text lines ∧
      (lead = [] ∨ lead = place.newLine ∧ margin < column) := by
  induction spaced generalizing column with
  | @word word here =>
    obtain ⟨lead, after, written, lead_cases⟩ :
        ∃ lead after, plainFrom place column true (word ++ []) = lead ++ (word ++ plainFrom place after false []) ∧ _ :=
      plainFrom_word left column here (by intro c member; cases member)
    rw [plainFrom, List.append_nil] at written
    exact ⟨lead, word, written, .word here, lead_cases.imp_left And.left⟩
  | @gap word text here count more ih =>
    obtain ⟨lead, after, started, lead_cases⟩ :
        ∃ lead after, plainFrom place column true (word ++ (spaces (count + 1) ++ text)) = _ ∧ _ :=
      plainFrom_word left column here (stops_spaces count)
    obtain ⟨gap, next, spaced, gap_cases⟩ := plainFrom_spaces left after count more.opens
    rw [started, spaced] at narrow ⊢
    obtain ⟨lead', lines, written, spelled, lead'_cases⟩ : ∃ lead' lines, plainFrom place next true text = lead' ++ lines ∧ _ := by
      refine ih next fun wide => narrow ?_
      rw [← List.append_assoc, ← List.append_assoc]
      exact wide.trans (List.suffix_append _ _).isInfix
    rw [written] at narrow ⊢
    have gap_written : Gap margin (spaces (count + 1)) (gap ++ lead') := by
      rcases gap_cases with ⟨rfl, -⟩ | ⟨rfl, rfl, rfl⟩
      · rcases lead'_cases with rfl | ⟨rfl, -⟩
        · rw [List.append_nil]
          exact .spaces count
        · cases count with
          | zero =>
            rw [Place.newLine, left]
            exact .fold 1
          | succ count =>
            refine absurd ⟨lead ++ (word ++ spaces count), spaces margin ++ lines, ?_⟩ narrow
            rw [Place.newLine, left, spaces_add count 2]
            simp [spaces_succ]
      · rcases lead'_cases with rfl | ⟨-, behind⟩
        · rw [List.append_nil, Place.newLine, left]
          exact .fold 0
        · omega
    refine ⟨lead, word ++ ((gap ++ lead') ++ lines), ?_, .gap here gap_written spelled, lead_cases.imp_left And.left⟩
    rw [List.append_assoc]

theorem hasInnerIndicator_append (before : List Char) {previous : Char} (clear : hasInnerIndicator previous (before ++ c :: rest) = false) :
    hasInnerIndicator c rest = false ∧ (c = ':' → opensGap rest = false) := by
  induction before generalizing previous with
  | nil =>
    simp only [List.nil_append, hasInnerIndicator, Bool.or_eq_false_iff, Bool.and_eq_false_iff, beq_eq_false_iff_ne] at clear
    exact ⟨clear.2, fun colon => clear.1.1.resolve_left (not_not.mpr colon)⟩
  | cons d before ih =>
    simp only [List.cons_append, hasInnerIndicator, Bool.or_eq_false_iff] at clear
    exact ih clear.2

/-- A character that is shown, other than a space, is a break or can stand in a word. -/
theorem solid_of_shown (shown : isShown c = true) (flat : isBreak c = false) (ink : c ≠ ' ') : isGap c = false := by
  have nul : c ≠ '\x00' := by rintro rfl; exact absurd shown (by decide)
  have tab : c ≠ '\t' := by rintro rfl; exact absurd shown (by decide)
  have back : c ≠ '\r' := by rintro rfl; exact absurd shown (by decide)
  simp [isGap, flat, ink, nul, tab, back]

theorem exists_word (text : List Char) :
    ∃ word rest, text = word ++ rest ∧ (∀ c ∈ word, c ≠ ' ') ∧ (rest = [] ∨ ∃ more, rest = ' ' :: more) := by
  induction text with
  | nil => exact ⟨[], [], rfl, by simp, .inl rfl⟩
  | cons c text ih =>
    by_cases space : c = ' '
    · exact ⟨[], c :: text, rfl, by simp, .inr ⟨text, by rw [space]⟩⟩
    · obtain ⟨word, rest, rfl, ink, ends⟩ := ih
      exact ⟨c :: word, rest, rfl, List.forall_mem_cons.mpr ⟨space, ink⟩, ends⟩

theorem exists_spaces (text : List Char) : ∃ count rest, text = spaces count ++ rest ∧ rest.head? ≠ some ' ' := by
  induction text with
  | nil => exact ⟨0, [], rfl, by simp⟩
  | cons c text ih =>
    by_cases space : c = ' '
    · obtain ⟨count, rest, rfl, ends⟩ := ih
      exact ⟨count + 1, rest, by rw [space]; rfl, ends⟩
    · exact ⟨0, c :: text, rfl, by simpa using space⟩

theorem spaced_of_clear (filled : text ≠ []) (shown : ∀ c ∈ text, isShown c = true) (flat : ∀ c ∈ text, isBreak c = false)
    (first : text.head? ≠ some ' ') (opens : text.head? ≠ some '#') (last : text.getLast? ≠ some ' ')
    {previous : Char} (clear : hasInnerIndicator previous text = false) : Spaced text := by
  induction size : text.length using Nat.strongRecOn generalizing text previous with
  | ind size ih =>
    obtain ⟨word, rest, rfl, ink, ends⟩ := exists_word text
    have word_filled : word ≠ [] := by
      rintro rfl
      rcases ends with rfl | ⟨more, rfl⟩
      · exact filled rfl
      · exact first rfl
    have no_key : opensGap rest = true → word.getLast? ≠ some ':' := by
      intro gap key
      obtain ⟨before, rfl⟩ := List.getLast?_eq_some_iff.mp key
      rw [List.append_assoc] at clear
      rw [List.singleton_append] at clear
      rw [(hasInnerIndicator_append before clear).2 rfl] at gap
      cases gap
    have here : opensGap rest = true → Word word := fun gap => {
      filled := word_filled
      shown := fun c member => shown c (List.mem_append_left rest member)
      solid := fun c member => solid_of_shown (shown c (List.mem_append_left rest member)) (flat c (List.mem_append_left rest member))
        (ink c member)
      opens := by rwa [List.head?_append_of_ne_nil _ word_filled] at opens
      ends := no_key gap }
    rcases ends with rfl | ⟨others, rfl⟩
    · rw [List.append_nil]
      exact .word (here rfl)
    · obtain ⟨count, more, rfl, stops⟩ := exists_spaces others
      have front : word ++ ' ' :: (spaces count ++ more) = word ++ spaces count ++ ' ' :: more := by
        rw [List.append_assoc, ← List.singleton_append, ← List.append_assoc [' '], List.singleton_append, ← spaces_succ,
          spaces_add, List.append_assoc]
        rfl
      rw [front] at last clear shown flat size
      have spaced := (hasInnerIndicator_append _ clear).1
      have more_filled : more ≠ [] := by
        rintro rfl
        exact last List.getLast?_concat
      have comment : more.head? ≠ some '#' := by
        intro opens
        obtain ⟨rest, rfl⟩ := List.head?_eq_some_iff.mp opens
        simp [hasInnerIndicator, isGap] at spaced
      have member : ∀ c ∈ more, c ∈ word ++ spaces count ++ ' ' :: more := fun c member =>
        List.mem_append_right _ (List.mem_cons_of_mem ' ' member)
      rw [← List.cons_append, ← spaces_succ]
      refine .gap (here rfl) count (ih more.length ?_ more_filled (fun c inside => shown c (member c inside))
        (fun c inside => flat c (member c inside)) stops comment ?_ spaced rfl)
      · rw [← size]
        simp
        omega
      · rwa [List.getLast?_append_of_ne_nil _ (by simp), List.getLast?_cons_of_ne_nil more_filled] at last

theorem canBePlain_cases (plain : canBePlain text = true) :
    (text.head?.any isEdge = false ∧ text.getLast?.any isEdge = false) ∧ text.any isSpecial = false ∧ isMultiline text = false ∧
      startsWithMarker text = false ∧ startsWithIndicator text = false ∧
      ∀ c rest, text = c :: rest → hasInnerIndicator c rest = false := by
  simp only [canBePlain, hasIndicator, Bool.not_eq_true', Bool.or_eq_false_iff] at plain
  obtain ⟨⟨⟨edges, special⟩, flat⟩, ⟨marker, indicator⟩, inner⟩ := plain
  refine ⟨edges, special, flat, marker, indicator, ?_⟩
  rintro c rest rfl
  exact inner

/-- A text that can be written without quotes is words with spaces between them. -/
theorem spaced_of_canBePlain (plain : canBePlain text = true) (filled : text ≠ []) : Spaced text := by
  obtain ⟨⟨first, last⟩, special, flat, -, indicator, inner⟩ := canBePlain_cases plain
  obtain ⟨c, rest, rfl⟩ := List.exists_cons_of_ne_nil filled
  have each : ∀ d ∈ c :: rest, isBreak d = false := by
    intro d member
    simpa using (List.any_eq_false.mp flat) d member
  have shown : ∀ d ∈ c :: rest, isShown d = true := by
    intro d member
    have ordinary := (List.any_eq_false.mp special) d member
    simp only [isSpecial, Bool.and_eq_true, bne_iff_ne, not_and, Bool.not_eq_true', Bool.not_eq_false] at ordinary
    apply ordinary
    rintro rfl
    exact absurd (each _ member) (by decide)
  simp only [startsWithIndicator, Bool.or_eq_false_iff, Bool.and_eq_false_iff] at indicator
  have comment : c ≠ '#' := by
    rintro rfl
    exact absurd indicator.1 (by decide)
  -- The first character is no colon that ends a key, and nothing stands before it.
  have clear : hasInnerIndicator 'a' (c :: rest) = false := by
    simp only [hasInnerIndicator, inner c rest rfl, Bool.or_false, Bool.or_eq_false_iff, Bool.and_eq_false_iff,
      beq_eq_false_iff_ne]
    refine ⟨?_, .inl comment⟩
    rcases indicator.2 with other | going
    · simp only [beq_eq_false_iff_ne] at other
      exact .inl other.1.2
    · exact .inr going
  refine spaced_of_clear filled shown each ?_ ?_ ?_ clear
  · intro space
    simp_all [isEdge]
  · simpa using comment
  · intro space
    rw [space] at last
    cases last

end

end WorkflowCompiler.Yaml
