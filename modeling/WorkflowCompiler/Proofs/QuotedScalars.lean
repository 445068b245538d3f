import WorkflowCompiler.Proofs.PlainScalars
import Mathlib.Algebra.Group.Nat.Defs
import Mathlib.Data.List.Basic

/-! Texts in quotes. A single space may be written as a line break, line separators are followed by the margin of the
next line, and inside double quotes there are escapes. -/

namespace WorkflowCompiler.Yaml
open Proofs (Stops takeWhile_append_of_stops takeWhile_of_stops)

/-- Neither a blank nor a break stands first. -/
def Inked (text : List Char) : Prop := ∀ c ∈ text.head?, c ≠ ' ' ∧ c ≠ '\t' ∧ isAnyBreak c = false

/-- What follows a backslash to spell a character. -/
structure Escape (code : List Char) (c : Char) : Prop where
  filled : code ≠ []
  shown : ∀ d ∈ code, isShown d = true
  reads : ∀ rest index line column, scanEscape ⟨code ++ rest, index, line, column⟩ =
    some ([c], ⟨rest, index + code.length, line, column + code.length⟩)

def isSeparator (c : Char) : Bool := c == '\u2028' || c == '\u2029'

/-- How a text may be written between quotes: the text, and what is written. -/
inductive QuotedLines (quote : Char) (margin : Nat) : List Char → List Char → Prop
  | nil : QuotedLines quote margin [] []
  | char {c : Char} {text lines : List Char} (solid : isGap c = false) (shown : isShown c = true) (other : c ≠ quote)
      (unescaped : c ≠ '\\' ∨ quote = '\'') (more : QuotedLines quote margin text lines) :
      QuotedLines quote margin (c :: text) (c :: lines)
  | spaces {text lines : List Char} (count : Nat) (inked : Inked lines) (more : QuotedLines quote margin text lines) :
      QuotedLines quote margin (spaces (count + 1) ++ text) (spaces (count + 1) ++ lines)
  | fold {text lines : List Char} (inked : Inked lines) (more : QuotedLines quote margin text lines) :
      QuotedLines quote margin (' ' :: text) ('\n' :: (Yaml.spaces margin ++ lines))
  | separators {breaks text lines : List Char} (filled : breaks ≠ []) (all : ∀ c ∈ breaks, isSeparator c = true) (inked : Inked lines)
      (more : QuotedLines quote margin text lines) :
      QuotedLines quote margin (breaks ++ text) (breaks ++ (Yaml.spaces margin ++ lines))
  | escape {code text lines : List Char} {c : Char} (double : quote = '"') (spells : Escape code c)
      (more : QuotedLines quote margin text lines) : QuotedLines quote margin (c :: text) ('\\' :: (code ++ lines))
  | escapedFold {text lines : List Char} (double : quote = '"') (inked : Inked lines) (more : QuotedLines quote margin text lines) :
      QuotedLines quote margin text ('\\' :: '\n' :: (Yaml.spaces margin ++ lines))

/-- Inside double quotes no line break is written where it would be read as a space that is not there, or would lose one
that is. -/
def foldsAtSpaces (place : Place) (column : Nat) (previous : Option Char) (fresh : Bool) : List Char → Bool
  | [] => true
  | c :: rest =>
    let mayFold := place.folds && previous.isSome && !rest.isEmpty
    let escaped := breakNeedsEscape (previous.getD ' ') (c :: rest)
    if (escapeOf c).isEmpty then
      if mayFold && (c == ' ' || fresh) && column > lineWidth then
        if c != ' ' then escaped && foldsAtSpaces place (place.left + 1) (some c) false rest
        else if escaped then foldsAtSpaces place (place.left + 2) (some c) false rest
        else foldsAtSpaces place place.left (some c) true rest
      else foldsAtSpaces place (column + 1) (some c) false rest
    else
      let column := column + (escapeOf c).length
      if mayFold && column > lineWidth + 1 then
        escaped &&
          if rest.head? == some ' ' then place.left < lineWidth && foldsAtSpaces place (place.left + 1) (some c) true rest
          else foldsAtSpaces place place.left (some c) true rest
      else foldsAtSpaces place column (some c) true rest

section
variable {text lines written rest breaks code : List Char} {margin : Nat} {c quote : Char}

theorem inked_nil : Inked [] := by
  intro c member
  cases member

theorem inked_cons (ink : c ≠ ' ' ∧ c ≠ '\t' ∧ isAnyBreak c = false) : Inked (c :: rest) := by
  intro d member
  cases member
  exact ink

theorem inked_solid (solid : isGap c = false) : Inked (c :: rest) :=
  inked_cons ⟨(solid_cases solid).2.1, (solid_cases solid).2.2.1, isAnyBreak_solid solid⟩

theorem inked_escape : Inked ('\\' :: rest) := inked_solid rfl

theorem Inked.append (inked : Inked text) (ends : Inked rest) : Inked (text ++ rest) := by
  cases text with
  | nil => exact ends
  | cons c text => exact inked_cons (inked c rfl)

theorem Inked.stops (inked : Inked text) : Stops isSpaceOrTab text := by
  intro c member
  obtain ⟨space, tab, -⟩ := inked c member
  simp [isSpaceOrTab, space, tab]

theorem Inked.peek (inked : Inked text) (index line column : Nat) : isAnyBreak (Cursor.peek ⟨text, index, line, column⟩) = false := by
  cases text with
  | nil => rfl
  | cons c text => exact (inked c rfl).2.2

theorem separator_cases (separator : isSeparator c = true) : c = '\u2028' ∨ c = '\u2029' := by
  simpa [isSeparator] using separator

theorem blank_separator (separator : isSeparator c = true) :
    isSpaceOrTab c = false ∧ isAnyBreak c = true ∧ ([c] != ['\n']) = true ∧ isGap c = true := by
  rcases separator_cases separator with rfl | rfl <;> decide

theorem scanBreak_separator (separator : isSeparator c = true) {index line column : Nat} :
    scanBreak ⟨c :: rest, index, line, column⟩ = ([c], ⟨rest, index + 1, line, column + 1⟩) := by
  rcases separator_cases separator with rfl | rfl <;> rfl

/-- Line separators are read as they are, and the margin of the next line is skipped. -/
theorem scanQuotedBreaks_margin (all : ∀ c ∈ breaks, isSeparator c = true) (inked : Inked rest) (inside : 0 < margin)
    {fuel index line column : Nat} (enough : breaks.length < fuel) :
    scanQuotedBreaks fuel ⟨breaks ++ (spaces margin ++ rest), index, line, column⟩ =
      some (breaks, ⟨rest, index + breaks.length + margin, line, column + breaks.length + margin⟩) := by
  induction breaks generalizing fuel index column with
  | nil =>
    obtain ⟨more, rfl⟩ : ∃ more, fuel = more + 1 := ⟨fuel - 1, by simp at enough; omega⟩
    obtain ⟨fewer, rfl⟩ : ∃ fewer, margin = fewer + 1 := ⟨margin - 1, by omega⟩
    have unmarked : atAnyMarker ⟨spaces (fewer + 1) ++ rest, index, line, column⟩ = false := atAnyMarker_space
    rw [List.nil_append, scanQuotedBreaks, unmarked]
    simp only [Bool.false_eq_true, if_false]
    rw [Cursor.skipWhile_spaces rfl _ inked.stops, inked.peek]
    rfl
  | cons c breaks ih =>
    obtain ⟨more, rfl⟩ : ∃ more, fuel = more + 1 := ⟨fuel - 1, by simp at enough; omega⟩
    have here := all c List.mem_cons_self
    have unmarked : atAnyMarker ⟨c :: (breaks ++ (spaces margin ++ rest)), index, line, column⟩ = false := by
      rcases separator_cases here with rfl | rfl <;> rfl
    have stops : Stops isSpaceOrTab (c :: (breaks ++ (spaces margin ++ rest))) := by
      rcases separator_cases here with rfl | rfl <;> (intro d member; cases member; rfl)
    have ends : isAnyBreak c = true := by
      rcases separator_cases here with rfl | rfl <;> rfl
    rw [List.cons_append, scanQuotedBreaks, unmarked]
    simp only [Bool.false_eq_true, if_false]
    rw [Cursor.skipWhile_nothing stops, Cursor.peek_cons, ends, scanBreak_separator here]
    simp only [if_true]
    rw [ih (fun d member => all d (List.mem_cons_of_mem c member)) (by simp at enough; omega)]
    simp
    omega

theorem scanQuotedSpaces_spaces (inked : Inked rest) (going : rest ≠ []) (count : Nat) {index line column : Nat} :
    scanQuotedSpaces ⟨spaces count ++ rest, index, line, column⟩ =
      some (spaces count, ⟨rest, index + count, line, column + count⟩) := by
  have all : ∀ c ∈ spaces count, isSpaceOrTab c = true := by
    intro c member
    rw [eq_of_mem_spaces member]
    rfl
  obtain ⟨c, others, rfl⟩ := List.exists_cons_of_ne_nil going
  rw [scanQuotedSpaces, Cursor.taken, (takeWhile_append_of_stops all inked.stops).1, length_spaces, Cursor.skip_spaces]
  simp only [Cursor.atEnd_cons, inked.peek, Bool.false_eq_true, if_false]

/-- Reading a break with the line separators and the margin behind it. -/
theorem scanQuotedSpaces_break {c : Char} {line₁ column₁ : Nat} {piece : List Char} {index line column : Nat}
    (blank : isSpaceOrTab c = false) (ends : isAnyBreak c = true)
    (broken : ∀ rest, scanBreak ⟨c :: rest, index, line, column⟩ = (piece, ⟨rest, index + 1, line₁, column₁⟩))
    (all : ∀ c ∈ breaks, isSeparator c = true) (inked : Inked rest) (inside : 0 < margin) :
    scanQuotedSpaces ⟨c :: (breaks ++ (spaces margin ++ rest)), index, line, column⟩ =
      some (foldBreak piece breaks,
        ⟨rest, index + 1 + breaks.length + margin, line₁, column₁ + breaks.length + margin⟩) := by
  have stops : Stops isSpaceOrTab (c :: (breaks ++ (spaces margin ++ rest))) := by
    intro d member
    cases member
    exact blank
  rw [scanQuotedSpaces, Cursor.taken, takeWhile_of_stops stops]
  simp only [List.length_nil, Cursor.skip, Cursor.atEnd_cons, Cursor.peek_cons, ends, broken, Bool.false_eq_true, if_false,
    if_true]
  rw [scanQuotedBreaks_margin all inked inside (by rw [List.length_append, List.length_append, length_spaces]; omega)]
  rfl

/-- A backslash in front of a break takes the break and the margin away. -/
theorem scanEscape_fold (inked : Inked rest) (inside : 0 < margin) {index line column : Nat} :
    scanEscape ⟨'\n' :: (spaces margin ++ rest), index, line, column⟩ = some ([], ⟨rest, index + 1 + 0 + margin, line + 1, 0 + 0 + margin⟩) := by
  have none : ∀ c ∈ ([] : List Char), isSeparator c = true := fun c member => absurd member List.not_mem_nil
  exact scanQuotedBreaks_margin none inked inside (by simp)

theorem inked_close (solid : isGap quote = false) (inked : Inked lines) : Inked (lines ++ quote :: rest) :=
  inked.append (inked_solid solid)

/-- What is read at one place between quotes, unless the text ends there. -/
def quotedPiece (quote : Char) (cursor : Cursor) : Option (List Char × Cursor) :=
  if cursor.peek == '\\' && quote == '"' then scanEscape cursor.next
  else if isSpaceOrTab cursor.peek || isAnyBreak cursor.peek then scanQuotedSpaces cursor
  else some ([cursor.peek], cursor.next)

theorem scanQuoted_piece {piece more : List Char} {fuel : Nat} {cursor after final : Cursor} (going : cursor.atEnd = false)
    (other : cursor.peek ≠ quote) (read : quotedPiece quote cursor = some (piece, after))
    (others : scanQuoted quote fuel after = some (more, final)) :
    scanQuoted quote (fuel + 1) cursor = some (piece ++ more, final) := by
  have doubled : (cursor.peek == '\'' && quote == '\'' && cursor.peekAt 1 == '\'') = false := by
    by_cases same : cursor.peek = '\'' <;> by_cases single : quote = '\''
    · exact absurd (same.trans single.symm) other
    all_goals simp [same, single]
  have unquoted : (cursor.peek == quote) = false := beq_eq_false_iff_ne.mpr other
  rw [quotedPiece] at read
  rw [scanQuoted]
  simp only [going, doubled, unquoted, Bool.false_eq_true, if_false, Option.bind_eq_bind, Option.pure_def]
  by_cases escapes : (cursor.peek == '\\' && quote == '"') = true
  · rw [if_pos escapes] at read ⊢
    simp [read, others]
  · rw [if_neg escapes] at read ⊢
    by_cases blank : (isSpaceOrTab cursor.peek || isAnyBreak cursor.peek) = true
    · rw [if_pos blank] at read ⊢
      simp [read, others]
    · rw [if_neg blank] at read ⊢
      cases read
      simp [others]

/-- From wherever it stands, the front is read as a piece of the text. -/
def ReadsPiece (quote : Char) (front piece rest : List Char) : Prop :=
  ∀ index line column, ∃ index' line' column',
    quotedPiece quote ⟨front ++ rest, index, line, column⟩ = some (piece, ⟨rest, index', line', column'⟩) ∧
      Cursor.Passes front ⟨front ++ rest, index, line, column⟩ ⟨rest, index', line', column'⟩

theorem readsPiece_char (solid : isGap c = false) (shown : isShown c = true) (unescaped : c ≠ '\\' ∨ quote = '\'') :
    ReadsPiece quote [c] [c] rest := by
  intro index line column
  have escapes : (c == '\\' && quote == '"') = false := by
    rcases unescaped with plain | rfl
    · simp [plain]
    · simp
  refine ⟨_, _, _, ?_, Cursor.passes_inline⟩
  simp [quotedPiece, escapes, isSpaceOrTab, solid_cases solid, isAnyBreak_solid solid, Cursor.next_inline (inline_of_shown shown)]

theorem quotedPiece_gap (gap : isGap c = true) (blank : (isSpaceOrTab c || isAnyBreak c) = true) {index line column : Nat} :
    quotedPiece quote ⟨c :: rest, index, line, column⟩ = scanQuotedSpaces ⟨c :: rest, index, line, column⟩ := by
  have other : (c == '\\') = false := by
    rw [beq_eq_false_iff_ne]
    rintro rfl
    cases gap
  rw [quotedPiece]
  simp only [Cursor.peek_cons, other, blank, Bool.false_and, Bool.false_eq_true, if_false, if_true]

theorem readsPiece_spaces (inked : Inked rest) (going : rest ≠ []) (count : Nat) :
    ReadsPiece quote (spaces (count + 1)) (spaces (count + 1)) rest := by
  intro index line column
  refine ⟨_, _, _, ?_, Cursor.passes_inline⟩
  rw [length_spaces]
  exact (quotedPiece_gap rfl rfl).trans (scanQuotedSpaces_spaces inked going (count + 1))

theorem readsPiece_fold (inked : Inked rest) (inside : 0 < margin) : ReadsPiece quote ('\n' :: spaces margin) [' '] rest := by
  intro index line column
  have none : ∀ c ∈ ([] : List Char), isSeparator c = true := fun c member => absurd member List.not_mem_nil
  have folded : scanQuotedSpaces ⟨'\n' :: ([] ++ (spaces margin ++ rest)), index, line, column⟩ = some (foldBreak ['\n'] [], _) :=
    scanQuotedSpaces_break rfl rfl (fun _ => scanBreak_feed) none inked inside
  exact ⟨_, _, _, (quotedPiece_gap rfl rfl).trans folded, Cursor.passes_feed List.mem_cons_self (Nat.le_succ line)⟩

theorem readsPiece_separators (filled : breaks ≠ []) (all : ∀ c ∈ breaks, isSeparator c = true) (inked : Inked rest)
    (inside : 0 < margin) : ReadsPiece quote (breaks ++ spaces margin) breaks rest := by
  intro index line column
  obtain ⟨c, others, rfl⟩ := List.exists_cons_of_ne_nil filled
  obtain ⟨blank, ends, unfed, gap⟩ := blank_separator (all c List.mem_cons_self)
  have separated : scanQuotedSpaces ⟨c :: (others ++ (spaces margin ++ rest)), index, line, column⟩ = some (foldBreak [c] others, _) :=
    scanQuotedSpaces_break blank ends (fun _ => scanBreak_separator (all c List.mem_cons_self))
      (fun d member => all d (List.mem_cons_of_mem c member)) inked inside
  have unfolded : foldBreak [c] others = c :: others := by rw [foldBreak, unfed]; rfl
  rw [unfolded] at separated
  rw [List.append_assoc]
  refine ⟨_, _, _, (quotedPiece_gap gap (by rw [ends, Bool.or_true])).trans separated, Nat.le_refl _, fun _ => ?_⟩
  simp
  omega

/-- What is escaped is read as the character it spells. -/
theorem Escape.readsPiece (spells : Escape code c) : ReadsPiece '"' ('\\' :: code) [c] rest := by
  intro index line column
  refine ⟨_, _, _, spells.reads rest (index + 1) line (column + 1), Nat.le_refl _, fun _ => ?_⟩
  simp
  omega

theorem readsPiece_escapedFold (inked : Inked rest) (inside : 0 < margin) :
    ReadsPiece '"' ('\\' :: '\n' :: spaces margin) [] rest := by
  intro index line column
  exact ⟨_, _, _, scanEscape_fold inked inside, Cursor.passes_feed (by simp) (Nat.le_succ line)⟩

/-- From wherever it stands, what is written is read as the text, up to the closing quote. -/
def Encloses (quote : Char) (rest text written : List Char) : Prop :=
  ∀ fuel index line column : Nat, written.length < fuel →
    ∃ index' line' column', scanQuoted quote fuel ⟨written ++ quote :: rest, index, line, column⟩ =
        some (text, ⟨rest, index', line', column'⟩) ∧
      Cursor.Passes (written ++ [quote]) ⟨written ++ quote :: rest, index, line, column⟩ ⟨rest, index', line', column'⟩

theorem encloses_nil (kind : quote = '\'' ∨ quote = '"') (closed : rest.head? ≠ some '\'') : Encloses quote rest [] [] := by
  intro fuel index line column enough
  obtain ⟨more, rfl⟩ : ∃ more, fuel = more + 1 := ⟨fuel - 1, by simp at enough; omega⟩
  refine ⟨index + 1, line, column + 1, ?_, Cursor.passes_inline⟩
  have undoubled : (Cursor.peekAt ⟨quote :: rest, index, line, column⟩ 1 == '\'') = false := by
    rw [beq_eq_false_iff_ne]
    cases rest with
    | nil =>
      show ('\x00' : Char) ≠ '\''
      decide
    | cons c rest => exact fun same => closed (congrArg some same)
  have moved : Cursor.next ⟨quote :: rest, index, line, column⟩ = _ :=
    Cursor.next_inline (by rcases kind with rfl | rfl <;> rfl)
  rw [List.nil_append, scanQuoted]
  simp [undoubled, moved]

/-- One piece more may stand in front. -/
theorem Encloses.piece {front piece : List Char} (more : Encloses quote rest text written) (other : ∃ c ∈ front.head?, c ≠ quote)
    (reads : ReadsPiece quote front piece (written ++ quote :: rest)) : Encloses quote rest (piece ++ text) (front ++ written) := by
  intro fuel index line column enough
  obtain ⟨fewer, rfl⟩ : ∃ fewer, fuel = fewer + 1 := ⟨fuel - 1, by omega⟩
  obtain ⟨c, first, other⟩ := other
  obtain ⟨front, rfl⟩ := List.head?_eq_some_iff.mp first
  obtain ⟨index₁, line₁, column₁, here, passed⟩ := reads index line column
  obtain ⟨index₂, line₂, column₂, others, behind⟩ :
      ∃ index₂ line₂ column₂, scanQuoted quote fewer ⟨written ++ quote :: rest, index₁, line₁, column₁⟩ = _ ∧ _ :=
    more fewer _ _ _ (by simp at enough; omega)
  rw [List.append_assoc, List.append_assoc]
  exact ⟨index₂, line₂, column₂, scanQuoted_piece rfl other here others, passed.append behind⟩

/-- A text in quotes is read back up to its closing quote. -/
theorem scanQuoted_lines (lines : QuotedLines quote margin text written) (kind : quote = '\'' ∨ quote = '"') (inside : 0 < margin)
    (closed : rest.head? ≠ some '\'') : Encloses quote rest text written := by
  have solid : isGap quote = false := by rcases kind with rfl | rfl <;> rfl
  have gap : ∀ c, isGap c = true → c ≠ quote := by
    rintro c blank rfl
    rw [solid] at blank
    cases blank
  have slash : quote = '"' → '\\' ≠ quote := by
    rintro rfl
    decide
  induction lines with
  | nil => exact encloses_nil kind closed
  | char here shown other unescaped more ih => exact ih.piece ⟨_, rfl, other⟩ (readsPiece_char here shown unescaped)
  | spaces count inked more ih =>
    exact ih.piece ⟨' ', rfl, gap ' ' rfl⟩ (readsPiece_spaces (inked_close solid inked) (by simp) count)
  | fold inked more ih => exact ih.piece ⟨'\n', rfl, gap '\n' rfl⟩ (readsPiece_fold (inked_close solid inked) inside)
  | @separators breaks text lines filled all inked more ih =>
    obtain ⟨c, others, rfl⟩ := List.exists_cons_of_ne_nil filled
    have here := (blank_separator (all c List.mem_cons_self)).2.2.2
    rw [← List.append_assoc]
    exact ih.piece ⟨c, rfl, gap c here⟩ (readsPiece_separators filled all (inked_close solid inked) inside)
  | escape double spells more ih =>
    subst double
    exact ih.piece ⟨'\\', rfl, by decide⟩ spells.readsPiece
  | escapedFold double inked more ih =>
    subst double
    exact ih.piece ⟨'\\', rfl, by decide⟩ (readsPiece_escapedFold (inked_close solid inked) inside)

theorem hexDigit (digit : Fin 16) :
    isHex (Nat.digitChar digit).toUpper = true ∧ hexValue (Nat.digitChar digit).toUpper = digit ∧
      isShown (Nat.digitChar digit).toUpper = true := by
  revert digit
  decide

theorem hexUpper_reads (width code : Nat) :
    (hexUpper width code).length = width ∧ (∀ d ∈ hexUpper width code, isHex d = true ∧ isShown d = true) ∧
      (hexUpper width code).foldl (fun value digit => 16 * value + hexValue digit) 0 = code % 16 ^ width := by
  induction width generalizing code with
  | zero => simp [hexUpper, Nat.mod_one]
  | succ width ih =>
    obtain ⟨long, each, value⟩ := ih (code / 16)
    obtain ⟨hex, same, shown⟩ := hexDigit ⟨code % 16, Nat.mod_lt _ (by decide)⟩
    refine ⟨by simp [hexUpper, long], ?_, ?_⟩
    · intro d member
      rcases List.mem_append.mp member with inside | last
      · exact each d inside
      · rw [List.mem_singleton.mp last]
        exact ⟨hex, shown⟩
    · rw [hexUpper, List.foldl_append, value, Nat.pow_succ, Nat.mul_comm (16 ^ width), Nat.mod_mul]
      simp only [List.foldl_cons, List.foldl_nil, same]
      omega

theorem ofCode_toNat (c : Char) : ofCode? c.toNat = some c := by
  have valid : c.toNat.isValidChar := c.valid
  rw [ofCode?, if_pos valid, Char.ofNat_toNat]

/-- An escape by number spells the character with that number. -/
theorem escape_hex {mark : Char} {width : Nat} (named : escaped? mark = none) (wide : escapeWidth? mark = some width)
    (shown : isShown mark = true) (small : c.toNat < 16 ^ width) : Escape (mark :: hexUpper width c.toNat) c := by
  obtain ⟨long, each, value⟩ := hexUpper_reads width c.toNat
  rw [Nat.mod_eq_of_lt small] at value
  generalize hexUpper width c.toNat = digits at long each value ⊢
  subst long
  have all : ∀ d ∈ mark :: digits, isShown d = true :=
    List.forall_mem_cons.mpr ⟨shown, fun d member => (each d member).2⟩
  refine ⟨by simp, all, ?_⟩
  intro rest index line column
  have moved : Cursor.skip ⟨mark :: (digits ++ rest), index, line, column⟩ (mark :: digits).length = _ :=
    Cursor.skip_inline fun d member => inline_of_shown (all d member)
  have next : Cursor.next ⟨mark :: (digits ++ rest), index, line, column⟩ = _ := Cursor.next_inline (inline_of_shown shown)
  have hex : digits.all isHex = true := List.all_eq_true.mpr fun d member => (each d member).1
  rw [List.length_cons] at moved
  rw [List.cons_append, scanEscape]
  simp only [Cursor.peek_cons, named, wide, next, List.take_left, hex, value, ofCode_toNat, moved, and_self, if_true,
    Option.bind_eq_bind, Option.bind_some, Option.pure_def, List.length_cons]

/-- An escape of one letter. -/
theorem escape_letter {letter : Char} (named : escaped? letter = some c) (shown : isShown letter = true) : Escape [letter] c := by
  refine ⟨by simp, by simpa using shown, ?_⟩
  intro rest index line column
  have next : Cursor.next ⟨letter :: rest, index, line, column⟩ = _ := Cursor.next_inline (inline_of_shown shown)
  rw [List.singleton_append, scanEscape]
  simp only [Cursor.peek_cons, named, Cursor.atEnd_cons, Bool.false_eq_true, if_false, next, List.length_singleton]

theorem escapeOf_spells (c : Char) :
    escapeOf c = [] ∧ isShown c = true ∨ ∃ code, escapeOf c = '\\' :: code ∧ Escape code c ∧ code.length ≤ 5 := by
  have spelled : ∀ code, c.toNat = code → c = Char.ofNat code := by
    rintro code rfl
    exact (Char.ofNat_toNat c).symm
  unfold escapeOf
  dsimp only
  split
  case h_16 =>
    by_cases shown : isShown c = true
    · exact .inl ⟨if_pos shown, shown⟩
    · right
      have long : ∀ width, (hexUpper width c.toNat).length = width := fun width => (hexUpper_reads width _).1
      have small : c.toNat ≤ 0xFFFF := by
        by_contra large
        apply shown
        simp only [isShown, Bool.and_eq_true, Bool.or_eq_true, decide_eq_true_eq, bne_iff_ne]
        omega
      rw [if_neg shown, if_pos small]
      split
      next byte => exact ⟨_, rfl, escape_hex rfl rfl rfl (by omega), by simp [long]⟩
      next => exact ⟨_, rfl, escape_hex rfl rfl rfl (by omega), by simp [long]⟩
  all_goals
    next same => exact .inr ⟨_, rfl, escape_letter (by rw [spelled _ same]; rfl) rfl, by simp⟩

/-- A character between double quotes is written as it is, or spelled by an escape. -/
theorem escapeOf_cases (c : Char) :
    escapeOf c = [] ∧ isShown c = true ∧ c ≠ '"' ∧ c ≠ '\\' ∧ (c = ' ' ∨ isGap c = false) ∨
      ∃ code, escapeOf c = '\\' :: code ∧ Escape code c ∧ code.length ≤ 5 := by
  rcases escapeOf_spells c with ⟨raw, shown⟩ | spelled
  · have named : ∀ d, escapeOf d ≠ [] → c ≠ d := by
      rintro d written rfl
      exact written raw
    refine .inl ⟨raw, shown, named '"' (by decide), named '\\' (by decide), ?_⟩
    by_cases space : c = ' '
    · exact .inl space
    · right
      simp [isGap, isBreak, space, named '\x00' (by decide), named '\t' (by decide), named '\r' (by decide),
        named '\n' (by decide), named '\x85' (by decide), named '\u2028' (by decide), named '\u2029' (by decide)]
  · exact .inr spelled

theorem hasPair_cons {first second : Char → Bool} (clear : hasPair first second (c :: text) = false) :
    hasPair first second text = false ∧ (first c = true → ∀ d ∈ text.head?, second d = false) := by
  cases text with
  | nil => exact ⟨rfl, fun _ d member => by cases member⟩
  | cons d text =>
    simp only [hasPair, Bool.or_eq_false_iff, Bool.and_eq_false_iff] at clear
    refine ⟨clear.2, fun here e member => ?_⟩
    cases member
    exact clear.1.resolve_left (by simp [here])

/-- A space in front of what does not start with a break joins the spaces there. -/
theorem QuotedLines.space (lines : QuotedLines quote margin text written) (unbroken : ∀ c ∈ written.head?, isAnyBreak c = false) :
    QuotedLines quote margin (' ' :: text) (' ' :: written) := by
  have alone : Inked written → QuotedLines quote margin (' ' :: text) (' ' :: written) := fun inked => .spaces 0 inked lines
  cases lines with
  | nil => exact alone inked_nil
  | char solid _ _ _ _ => exact alone (inked_solid solid)
  | spaces count inked more => exact .spaces (count + 1) inked more
  | fold => exact absurd (unbroken '\n' rfl) (by decide)
  | separators filled all _ _ =>
    obtain ⟨c, others, rfl⟩ := List.exists_cons_of_ne_nil filled
    have ends := unbroken c rfl
    rw [(blank_separator (all c List.mem_cons_self)).2.1] at ends
    cases ends
  | escape => exact alone inked_escape
  | escapedFold => exact alone inked_escape

/-- A line separator in front of another one shares its margin. -/
theorem QuotedLines.separator (lines : QuotedLines '\'' margin text written) (here : isSeparator c = true)
    (next : ∃ d ∈ text.head?, isSeparator d = true) : QuotedLines '\'' margin (c :: text) (c :: written) := by
  obtain ⟨d, first, separator⟩ := next
  have gap := (blank_separator separator).2.2.2
  have blank := (blank_separator separator).1
  cases lines with
  | nil => cases first
  | char solid _ _ _ _ =>
    cases first
    rw [solid] at gap
    cases gap
  | spaces count _ _ =>
    cases first
    cases blank
  | fold =>
    cases first
    cases blank
  | @separators breaks rest lines filled all inked more =>
    exact .separators (List.cons_ne_nil c breaks) (List.forall_mem_cons.mpr ⟨here, all⟩) inked more
  | escape double => cases double
  | escapedFold double => cases double

theorem separator_of_break (shown : isShown c = true) (same : '\x85' ≠ c) (ends : isBreak c = true) : isSeparator c = true := by
  have feed : c ≠ '\n' := by rintro rfl; exact absurd shown (by decide)
  simpa [isBreak, isSeparator, feed, Ne.symm same] using ends

/-- What is written starts as the text does, unless the text starts with a space that became a line break. -/
def StartsAs (previous : Option Char) (text written : List Char) : Prop :=
  written.head? = text.head? ∨ written.head? = some '\n' ∧ text.head? = some ' ' ∧ previous ≠ some ' '

theorem StartsAs.inked {previous : Option Char} (starts : StartsAs previous text written) (shown : ∀ d ∈ text, isShown d = true)
    (ink : ∀ d ∈ text.head?, d ≠ ' ' ∧ isBreak d = false) : Inked written := by
  intro d member
  rcases starts with head | ⟨-, space, -⟩
  · rw [head] at member
    have solid := solid_of_shown (shown d (List.mem_of_mem_head? member)) (ink d member).2 (ink d member).1
    exact ⟨(ink d member).1, (solid_cases solid).2.2.1, isAnyBreak_solid solid⟩
  · exact absurd rfl (ink ' ' space).1

theorem StartsAs.unbroken (starts : StartsAs (some ' ') text written) (shown : ∀ d ∈ text, isShown d = true)
    (flat : ∀ d ∈ text.head?, isBreak d = false) : ∀ d ∈ written.head?, isAnyBreak d = false := by
  intro d member
  rcases starts with head | ⟨-, -, fresh⟩
  · rw [head] at member
    have back : d ≠ '\r' := by
      rintro rfl
      exact absurd (shown _ (List.mem_of_mem_head? member)) (by decide)
    have unbroken := flat d member
    simp only [isBreak, Bool.or_eq_false_iff, beq_eq_false_iff_ne] at unbroken
    simp [isAnyBreak, back, unbroken]
  · exact absurd rfl fresh

/-- A text in single quotes is written so that it can be read back. Its first character stays, unless it is
a space that becomes a line break. -/
theorem singleQuotedFrom_lines {place : Place} (left : place.margin = some margin) (shown : ∀ c ∈ text, isShown c = true)
    (unquoted : '\'' ∉ text) (same : '\x85' ∉ text) (after : hasPair isBreak isSpace text = false)
    (before : hasPair isSpace isBreak text = false) (column : Nat) (previous : Option Char) :
    QuotedLines '\'' margin text (singleQuotedFrom place column previous text) ∧
      StartsAs previous text (singleQuotedFrom place column previous text) := by
  induction text generalizing column previous with
  | nil => exact ⟨.nil, .inl rfl⟩
  | cons c text ih =>
    rw [List.mem_cons, not_or] at unquoted same
    obtain ⟨after, no_space⟩ := hasPair_cons after
    obtain ⟨before, no_break⟩ := hasPair_cons before
    have here := shown c List.mem_cons_self
    have others : ∀ d ∈ text, isShown d = true := fun d member => shown d (List.mem_cons_of_mem c member)
    have rest := fun column previous => ih others unquoted.2 same.2 after before column previous
    have separates : ∀ d ∈ text.head?, isBreak d = true → isSeparator d = true := fun d member =>
      separator_of_break (others d (List.mem_of_mem_head? member)) fun line => same.2 (line ▸ List.mem_of_mem_head? member)
    rw [singleQuotedFrom]
    by_cases ends : isBreak c = true
    · have separator := separator_of_break here same.1 ends
      rw [if_pos ends]
      refine ⟨?_, .inl rfl⟩
      by_cases more : text.head?.any isBreak = true
      · obtain ⟨d, first, breaks⟩ : ∃ d ∈ text.head?, isBreak d = true := by
          cases text with
          | nil => cases more
          | cons d text => exact ⟨d, rfl, more⟩
        simp only [more, if_true, List.cons_append]
        exact (rest _ _).1.separator separator ⟨d, first, separates d first breaks⟩
      · have ink : ∀ d ∈ text.head?, d ≠ ' ' ∧ isBreak d = false := by
          intro d member
          rw [Option.mem_def.mp member] at more
          exact ⟨by simpa [isSpace] using no_space ends d member, by simpa using more⟩
        have all : ∀ d ∈ [c], isSeparator d = true := by simpa using separator
        have margin_left : place.left = margin := by rw [Place.left, left]; rfl
        simp only [more, Bool.false_eq_true, if_false, length_spaces, margin_left, List.cons_append]
        exact .separators (List.cons_ne_nil c []) all ((rest _ _).2.inked others ink) (rest _ _).1
    · rw [if_neg ends]
      by_cases space : c = ' '
      · subst space
        have flat : ∀ d ∈ text.head?, isBreak d = false := fun d member => no_break rfl d member
        split
        next folds =>
          simp only [Bool.and_eq_true, decide_eq_true_eq] at folds
          obtain ⟨⟨-, fresh⟩, further⟩ := folds
          have ink : ∀ d ∈ text.head?, d ≠ ' ' ∧ isBreak d = false := by
            intro d member
            rw [Option.mem_def.mp member] at further
            exact ⟨by simpa using further, flat d member⟩
          have fresh' : previous ≠ some ' ' := by
            rintro rfl
            cases fresh
          simp only [Place.newLine, left, Option.getD_some, List.cons_append]
          exact ⟨.fold ((rest _ _).2.inked others ink) (rest _ _).1, .inr ⟨rfl, rfl, fresh'⟩⟩
        next => exact ⟨(rest _ _).1.space ((rest _ _).2.unbroken others flat), .inl rfl⟩
      · have solid := solid_of_shown here (by simpa using ends) space
        have unfolded : (c == ' ') = false := beq_eq_false_iff_ne.mpr space
        simp only [unfolded, Bool.false_and, Bool.false_eq_true, if_false]
        exact ⟨.char solid here (Ne.symm unquoted.1) (.inr rfl) (rest _ _).1, .inl rfl⟩

/-- Without folding, a text of one line stays as it is in single quotes. -/
theorem singleQuotedFrom_unfolded {place : Place} (unfolded : place.folds = false) (flat : ∀ c ∈ text, isBreak c = false)
    (column : Nat) (previous : Option Char) : singleQuotedFrom place column previous text = text := by
  induction text generalizing column previous with
  | nil => rfl
  | cons c text ih =>
    have here := flat c List.mem_cons_self
    rw [singleQuotedFrom]
    simp [here, unfolded, ih fun d member => flat d (List.mem_cons_of_mem c member)]

theorem foldsAtSpaces_unfolded {place : Place} (unfolded : place.folds = false) (column : Nat) (previous : Option Char) (fresh : Bool) :
    foldsAtSpaces place column previous fresh text = true := by
  induction text generalizing column previous fresh with
  | nil => rfl
  | cons c text ih =>
    rw [foldsAtSpaces]
    simp only [unfolded, Bool.false_and, Bool.false_eq_true, if_false, ih, ite_self]

section
variable {place : Place} {column : Nat} {previous : Option Char} {fresh : Bool}

/-- Whether a line break may be written before or behind a character. -/
def mayFold (place : Place) (previous : Option Char) (rest : List Char) : Bool := place.folds && previous.isSome && !rest.isEmpty

theorem doubleQuotedFrom_raw (raw : escapeOf c = []) (stays : (mayFold place previous text && (c == ' ' || fresh) && decide (column > lineWidth)) = false) :
    doubleQuotedFrom place column previous fresh false (c :: text) = c :: doubleQuotedFrom place (column + 1) (some c) false false text ∧
      foldsAtSpaces place column previous fresh (c :: text) = foldsAtSpaces place (column + 1) (some c) false text := by
  rw [mayFold] at stays
  constructor
  · rw [doubleQuotedFrom]
    simp only [Bool.false_and, Bool.false_eq_true, if_false, raw, List.isEmpty_nil, if_true, stays]
  · rw [foldsAtSpaces]
    simp only [Bool.false_eq_true, if_false, raw, List.isEmpty_nil, if_true, stays]

/-- A space becomes a line break, which is escaped where it would not read as one space. -/
theorem doubleQuotedFrom_fold (folds : (mayFold place previous text && (' ' == ' ' || fresh) && decide (column > lineWidth)) = true) :
    (doubleQuotedFrom place column previous fresh false (' ' :: text) =
        '\\' :: (place.newLine ++ '\\' :: ' ' :: doubleQuotedFrom place (place.left + 2) (some ' ') false false text) ∧
      foldsAtSpaces place column previous fresh (' ' :: text) = foldsAtSpaces place (place.left + 2) (some ' ') false text) ∨
      (doubleQuotedFrom place column previous fresh false (' ' :: text) =
          place.newLine ++ doubleQuotedFrom place place.left (some ' ') true false text ∧
        foldsAtSpaces place column previous fresh (' ' :: text) = foldsAtSpaces place place.left (some ' ') true text) ∧
        text.head? ≠ some ' ' ∧ previous ≠ some ' ' := by
  have raw : escapeOf ' ' = [] := by decide
  rw [mayFold] at folds
  by_cases escaped : breakNeedsEscape (previous.getD ' ') (' ' :: text) = true
  · left
    rw [doubleQuotedFrom, foldsAtSpaces]
    simp only [Bool.false_and, Bool.false_eq_true, if_false, raw, List.isEmpty_nil, if_true, folds, escaped]
    simp
  · right
    refine ⟨?_, ?_, ?_⟩
    · rw [doubleQuotedFrom, foldsAtSpaces]
      simp only [Bool.false_and, Bool.false_eq_true, if_false, raw, List.isEmpty_nil, if_true, folds, escaped]
      simp
    · intro space
      apply escaped
      simp [breakNeedsEscape, space]
    · rintro rfl
      apply escaped
      simp [breakNeedsEscape]

/-- Behind an escape another character may start a line, behind a line break that is escaped. -/
theorem doubleQuotedFrom_start (raw : escapeOf c = []) (ink : c ≠ ' ')
    (folds : (mayFold place previous text && (c == ' ' || fresh) && decide (column > lineWidth)) = true)
    (kept : foldsAtSpaces place column previous fresh (c :: text) = true) :
    doubleQuotedFrom place column previous fresh false (c :: text) =
        '\\' :: (place.newLine ++ c :: doubleQuotedFrom place (place.left + 1) (some c) false false text) ∧
      foldsAtSpaces place (place.left + 1) (some c) false text = true := by
  have other : (c != ' ') = true := bne_iff_ne.mpr ink
  rw [mayFold] at folds
  rw [foldsAtSpaces] at kept
  simp only [raw, List.isEmpty_nil, if_true, folds, other, Bool.and_eq_true] at kept
  refine ⟨?_, kept.2⟩
  rw [doubleQuotedFrom]
  simp only [Bool.false_and, Bool.false_eq_true, if_false, raw, List.isEmpty_nil, if_true, folds, other, kept.1]
  simp

theorem doubleQuotedFrom_escape (spelled : escapeOf c ≠ [])
    (stays : (mayFold place previous text && decide (column + (escapeOf c).length > lineWidth + 1)) = false) :
    doubleQuotedFrom place column previous fresh false (c :: text) =
        escapeOf c ++ doubleQuotedFrom place (column + (escapeOf c).length) (some c) true false text ∧
      foldsAtSpaces place column previous fresh (c :: text) = foldsAtSpaces place (column + (escapeOf c).length) (some c) true text := by
  have written : (escapeOf c).isEmpty = false := by simpa using spelled
  rw [mayFold] at stays
  constructor
  · rw [doubleQuotedFrom]
    simp only [Bool.false_and, Bool.false_eq_true, if_false, written, stays]
  · rw [foldsAtSpaces]
    simp only [Bool.false_eq_true, if_false, written, stays]

/-- Behind an escape a line may end, in a line break that is escaped. A space on the next line is then escaped too. -/
theorem doubleQuotedFrom_end (spelled : escapeOf c ≠ [])
    (folds : (mayFold place previous text && decide (column + (escapeOf c).length > lineWidth + 1)) = true)
    (kept : foldsAtSpaces place column previous fresh (c :: text) = true) :
    (text.head? ≠ some ' ' ∧ doubleQuotedFrom place column previous fresh false (c :: text) =
        escapeOf c ++ '\\' :: (place.newLine ++ doubleQuotedFrom place place.left (some c) true false text) ∧
      foldsAtSpaces place place.left (some c) true text = true) ∨
      ∃ rest, text = ' ' :: rest ∧ doubleQuotedFrom place column previous fresh false (c :: text) =
          escapeOf c ++ '\\' :: (place.newLine ++ '\\' :: ' ' :: doubleQuotedFrom place (place.left + 2) (some ' ') false false rest) ∧
        foldsAtSpaces place (place.left + 2) (some ' ') false rest = true := by
  have written : (escapeOf c).isEmpty = false := by simpa using spelled
  rw [mayFold] at folds
  rw [foldsAtSpaces] at kept
  simp only [written, Bool.false_eq_true, if_false, folds, if_true, Bool.and_eq_true] at kept
  obtain ⟨escaped, kept⟩ := kept
  by_cases space : text.head? = some ' '
  · right
    obtain ⟨rest, rfl⟩ := List.head?_eq_some_iff.mp space
    simp only [List.head?_cons, beq_self_eq_true, if_true, Bool.and_eq_true, decide_eq_true_eq] at kept
    have stays : (mayFold place (some c) rest && (' ' == ' ' || true) && decide (place.left + 1 > lineWidth)) = false := by
      have near : ¬ place.left + 1 > lineWidth := by omega
      simp [near]
    obtain ⟨more, same⟩ : doubleQuotedFrom place (place.left + 1) (some c) true false (' ' :: rest) = _ ∧ _ :=
      doubleQuotedFrom_raw (by decide) stays
    refine ⟨rest, rfl, ?_, same ▸ kept.2⟩
    rw [doubleQuotedFrom]
    simp only [Bool.false_and, Bool.false_eq_true, if_false, written, folds, if_true, escaped, List.head?_cons, beq_self_eq_true,
      Bool.and_self, List.length_singleton, Bool.not_true, more]
    simp
  · left
    have other : (text.head? == some ' ') = false := beq_eq_false_iff_ne.mpr space
    simp only [other, Bool.false_eq_true, if_false] at kept
    refine ⟨space, ?_, kept⟩
    rw [doubleQuotedFrom]
    simp only [Bool.false_and, Bool.false_eq_true, if_false, written, folds, if_true, escaped, other, Bool.and_false]
    simp

/-- A text in double quotes is written so that it can be read back. -/
theorem doubleQuotedFrom_lines (left : place.margin = some margin) (kept : foldsAtSpaces place column previous fresh text = true) :
    QuotedLines '"' margin text (doubleQuotedFrom place column previous fresh false text) ∧
      (text.head? ≠ some ' ' → Inked (doubleQuotedFrom place column previous fresh false text)) ∧
      (previous = some ' ' → ∀ d ∈ (doubleQuotedFrom place column previous fresh false text).head?, isAnyBreak d = false) := by
  induction size : text.length using Nat.strongRecOn generalizing text column previous fresh with
  | ind size ih =>
    have margin_left : place.newLine = '\n' :: spaces margin := by rw [Place.newLine, left]; rfl
    cases text with
    | nil => exact ⟨.nil, fun _ => inked_nil, fun _ d member => by cases member⟩
    | cons c text =>
      rw [List.length_cons] at size
      rcases escapeOf_cases c with ⟨raw, shown, close, slash, blank⟩ | ⟨code, spelled, spells, -⟩
      · by_cases folds : (mayFold place previous text && (c == ' ' || fresh) && decide (column > lineWidth)) = true
        · rcases blank with rfl | solid
          · rcases doubleQuotedFrom_fold folds with ⟨written, same⟩ | ⟨⟨written, same⟩, other, fresh⟩
            · obtain ⟨more, -, -⟩ : QuotedLines '"' margin text (doubleQuotedFrom place _ (some ' ') false false text) ∧ _ :=
                ih _ (by omega) (same ▸ kept) rfl
              rw [written, margin_left]
              exact ⟨.escapedFold rfl inked_escape (.escape rfl (escape_letter rfl rfl) more), fun _ => inked_escape,
                fun _ d member => by cases member; rfl⟩
            · obtain ⟨more, inked, -⟩ : QuotedLines '"' margin text (doubleQuotedFrom place _ (some ' ') true false text) ∧ _ :=
                ih _ (by omega) (same ▸ kept) rfl
              rw [written, margin_left]
              exact ⟨.fold (inked other) more, fun other => absurd rfl other, fun same => absurd same fresh⟩
          · obtain ⟨written, later⟩ := doubleQuotedFrom_start raw (solid_cases solid).2.1 folds kept
            obtain ⟨more, -, -⟩ : QuotedLines '"' margin text (doubleQuotedFrom place _ (some c) false false text) ∧ _ :=
              ih _ (by omega) later rfl
            rw [written, margin_left]
            exact ⟨.escapedFold rfl (inked_solid solid) (.char solid shown close (.inl slash) more), fun _ => inked_escape,
              fun _ d member => by cases member; rfl⟩
        · rw [Bool.not_eq_true] at folds
          obtain ⟨written, same⟩ := doubleQuotedFrom_raw raw folds
          obtain ⟨more, -, unbroken⟩ : QuotedLines '"' margin text (doubleQuotedFrom place (column + 1) (some c) false false text) ∧ _ :=
            ih _ (by omega) (same ▸ kept) rfl
          rw [written]
          rcases blank with rfl | solid
          · exact ⟨more.space (unbroken rfl), fun other => absurd rfl other, fun _ d member => by cases member; rfl⟩
          · exact ⟨.char solid shown close (.inl slash) more, fun _ => inked_solid solid,
              fun _ d member => by cases member; exact isAnyBreak_solid solid⟩
      · have some : escapeOf c ≠ [] := by simp [spelled]
        suffices read : ∃ more, doubleQuotedFrom place column previous fresh false (c :: text) = escapeOf c ++ more ∧ QuotedLines '"' margin text more by
          obtain ⟨more, written, read⟩ := read
          rw [written, spelled]
          exact ⟨.escape rfl spells read, fun _ => inked_escape, fun _ d member => by cases member; rfl⟩
        by_cases folds : (mayFold place previous text && decide (column + (escapeOf c).length > lineWidth + 1)) = true
        · rcases doubleQuotedFrom_end some folds kept with ⟨other, written, later⟩ | ⟨rest, rfl, written, later⟩
          · obtain ⟨more, inked, -⟩ : QuotedLines '"' margin text (doubleQuotedFrom place _ (Option.some c) true false text) ∧ _ :=
              ih _ (by omega) later rfl
            rw [margin_left] at written
            exact ⟨_, written, .escapedFold rfl (inked other) more⟩
          · obtain ⟨more, -, -⟩ : QuotedLines '"' margin rest (doubleQuotedFrom place _ (Option.some ' ') false false rest) ∧ _ :=
              ih _ (by rw [List.length_cons] at size; omega) later rfl
            rw [margin_left] at written
            exact ⟨_, written, .escapedFold rfl inked_escape (.escape rfl (escape_letter rfl rfl) more)⟩
        · rw [Bool.not_eq_true] at folds
          obtain ⟨written, same⟩ := doubleQuotedFrom_escape some folds
          obtain ⟨more, -, -⟩ : QuotedLines '"' margin text (doubleQuotedFrom place _ (Option.some c) true false text) ∧ _ :=
            ih _ (by omega) (same ▸ kept) rfl
          exact ⟨_, written, more⟩

/-- Without folding a text stays on its line in double quotes, and an escape takes at most six characters. -/
theorem doubleQuotedFrom_unfolded (unfolded : place.folds = false) :
    '\n' ∉ doubleQuotedFrom place column previous fresh false text ∧
      (doubleQuotedFrom place column previous fresh false text).length ≤ 6 * text.length := by
  induction text generalizing column previous fresh with
  | nil => exact ⟨List.not_mem_nil, Nat.le_refl _⟩
  | cons c text ih =>
    rcases escapeOf_cases c with ⟨raw, shown, -⟩ | ⟨code, spelled, spells, short⟩
    · have feed : '\n' ≠ c := by rintro rfl; exact absurd shown (by decide)
      obtain ⟨unbroken, bounded⟩ :
          '\n' ∉ doubleQuotedFrom place (column + 1) (some c) false false text ∧ _ := ih
      rw [(doubleQuotedFrom_raw raw (by simp [mayFold, unfolded])).1]
      refine ⟨by simp [feed, unbroken], ?_⟩
      simp
      omega
    · obtain ⟨unbroken, bounded⟩ :
          '\n' ∉ doubleQuotedFrom place (column + (escapeOf c).length) (some c) true false text ∧ _ := ih
      have inside : '\n' ∉ code := fun member => absurd (spells.shown _ member) (by decide)
      rw [(doubleQuotedFrom_escape (by simp [spelled]) (by simp [mayFold, unfolded])).1]
      simp only [spelled, List.length_cons] at unbroken bounded ⊢
      refine ⟨by simp [inside, unbroken], ?_⟩
      simp
      omega

end

end

end WorkflowCompiler.Yaml
