import WorkflowCompiler.Proofs.ScalarScanning
import WorkflowCompiler.Yaml.Document

/-! Scalars in the style that is chosen for them. Not every text can be read back from every place: a literal block cannot hold
every character, a line break inside double quotes may be read as a space too many, and one between words that are more
than a space apart as a space too few. -/

namespace WorkflowCompiler.Yaml

/-- What the choice of a style tells of a text. -/
def Suits (text : List Char) : Style → Prop
  | .plain => canBePlain text = true ∧ text ≠ []
  | .singleQuoted => canBeSingleQuoted text = true ∧ '\'' ∉ text ∧ '\n' ∉ text
  | .doubleQuoted => True
  | .literal => '\n' ∈ text

/-- A character that a literal block can hold. -/
def isBlockChar (c : Char) : Bool := c == '\n' || (isReadable c && !isBreak c && c != '\r')

/-- A text in that style is read back from that place. -/
def Kept (place : Place) (text : List Char) : Style → Prop
  | .plain => ¬ [' ', ' ', '\n'] <:+: plainFrom place place.column true text
  | .singleQuoted => '\x85' ∉ text
  | .doubleQuoted => foldsAtSpaces place (place.column + 1) none false text = true
  | .literal => ∀ c ∈ text, isBlockChar c = true

instance (place : Place) (text : List Char) (style : Style) : Decidable (Kept place text style) :=
  match style with
  | .plain => @instDecidableNot _ (List.instDecidableIsInfixOfDecidableEq _ _)
  | .singleQuoted => inferInstanceAs (Decidable (¬_))
  | .doubleQuoted => inferInstanceAs (Decidable (_ = _))
  | .literal => List.decidableBAll _ text

/-- A character that is read as it is. -/
def isClean (c : Char) : Bool := isReadable c && c != '\r'

def Clean (text : List Char) : Prop := ∀ c ∈ text, isClean c = true

section
variable {text lines written : List Char} {margin : Nat} {quote c : Char}

theorem suits_keyStyle (text : String) : Suits text.toList (keyStyle text) := by
  simp only [keyStyle]
  split
  next plain =>
    simp only [Bool.and_eq_true, decide_eq_true_eq] at plain
    refine ⟨plain.2, fun none => ?_⟩
    rw [String.toList_eq_nil_iff.mp none] at plain
    exact absurd plain.1 (by decide)
  next =>
    split
    next => trivial
    next bare =>
      simp only [Bool.or_eq_true, List.contains_iff_mem, not_or] at bare
      split
      next single => exact ⟨single, bare⟩
      next => trivial

theorem suits_valueStyle (text : String) : Suits text.toList (valueStyle text) := by
  rw [valueStyle]
  split
  next feed => exact List.contains_iff_mem.mp feed
  next => exact suits_keyStyle text

theorem isClean_shown (shown : isShown c = true) : isClean c = true := by
  have back : c ≠ '\r' := by rintro rfl; exact absurd shown (by decide)
  simp [isClean, isReadable, shown, back]

theorem clean_nil : Clean [] := fun _ member => nomatch member

theorem Clean.cons (here : isClean c = true) (clean : Clean text) : Clean (c :: text) := List.forall_mem_cons.mpr ⟨here, clean⟩

theorem Clean.append (front : Clean text) (back : Clean written) : Clean (text ++ written) := List.forall_mem_append.mpr ⟨front, back⟩

theorem clean_spaces (count : Nat) : Clean (spaces count) := by
  intro c member
  rw [eq_of_mem_spaces member]
  rfl

theorem PlainLines.clean (lines : PlainLines margin text written) : Clean written := by
  induction lines with
  | word here => exact fun c member => isClean_shown (here.shown c member)
  | gap here gap more ih =>
    have word : Clean _ := fun c member => isClean_shown (here.shown c member)
    cases gap with
    | spaces count => exact word.append ((clean_spaces _).append ih)
    | fold count => exact word.append (((clean_spaces count).append ((clean_spaces margin).cons rfl)).append ih)

theorem isClean_separator (separator : isSeparator c = true) : isClean c = true := by
  rcases separator_cases separator with rfl | rfl <;> rfl

theorem QuotedLines.clean (lines : QuotedLines quote margin text written) : Clean written := by
  induction lines with
  | nil => exact clean_nil
  | char solid shown other unescaped more ih => exact ih.cons (isClean_shown shown)
  | spaces count inked more ih => exact (clean_spaces _).append ih
  | fold inked more ih => exact ((clean_spaces margin).append ih).cons rfl
  | separators filled all inked more ih =>
    have breaks : Clean _ := fun c member => isClean_separator (all c member)
    exact breaks.append ((clean_spaces margin).append ih)
  | escape double spells more ih =>
    have code : Clean _ := fun c member => isClean_shown (spells.shown c member)
    exact (code.append ih).cons rfl
  | escapedFold double inked more ih => exact (((clean_spaces margin).append ih).cons rfl).cons rfl

theorem isClean_block (block : isBlockChar c = true) : isClean c = true := by
  simp only [isBlockChar, Bool.or_eq_true, beq_iff_eq, Bool.and_eq_true] at block
  rcases block with rfl | ⟨⟨readable, -⟩, back⟩
  · rfl
  · rw [isClean, readable, back]
    rfl

theorem clean_literalLines (margin : Nat) (starts : Bool) (clean : Clean text) : Clean (literalLines margin starts text) := by
  induction text generalizing starts with
  | nil =>
    cases starts with
    | false => exact clean_nil.cons rfl
    | true => exact clean_nil
  | cons c text ih =>
    obtain ⟨here, later⟩ := List.forall_mem_cons.mp clean
    rw [literalLines]
    split
    next => exact (ih true later).cons here
    next =>
      have lead : Clean (if starts then spaces margin else []) := by
        cases starts with
        | false => exact clean_nil
        | true => exact clean_spaces margin
      exact lead.append ((ih false later).cons here)

theorem clean_literalHeader (text : List Char) : Clean (literalHeader text) := by
  intro c member
  have sign : c = '|' ∨ c = '2' ∨ c = '-' ∨ c = '+' := by
    rcases List.mem_cons.mp member with rfl | member
    · exact .inl rfl
    · rcases List.mem_append.mp member with hint | ending
      · split at hint
        · exact .inr (.inl (List.mem_singleton.mp hint))
        · cases hint
      · unfold chomping at ending
        split at ending
        all_goals grind
  rcases sign with rfl | rfl | rfl | rfl <;> rfl

theorem blockable_of_kept (kept : ∀ c ∈ text, isBlockChar c = true) : Blockable text := by
  intro c member
  have block := kept c member
  simp only [isBlockChar, Bool.or_eq_true, beq_iff_eq, Bool.and_eq_true, Bool.not_eq_true', bne_iff_ne] at block
  rcases block with feed | ⟨⟨readable, flat⟩, back⟩
  · exact .inl feed
  · refine .inr ⟨flat, back, ?_⟩
    rintro rfl
    exact absurd readable (by decide)

theorem shown_of_canBeSingleQuoted (single : canBeSingleQuoted text = true) (flat : '\n' ∉ text) : ∀ c ∈ text, isShown c = true := by
  intro c member
  simp only [canBeSingleQuoted, Bool.not_eq_true', Bool.or_eq_false_iff] at single
  have ordinary := (List.any_eq_false.mp single.1.1) c member
  have other : c ≠ '\n' := by rintro rfl; exact flat member
  simpa [isSpecial, other] using ordinary

/-- How a text is written up to the end of its line, in each style; the flag tells that it has no quotes. -/
inductive Line (margin : Nat) (text : List Char) : Bool → List Char → Prop
  | plain {lead lines : List Char} (start : lead = [] ∨ lead = '\n' :: spaces margin) (plain : canBePlain text = true)
      (read : PlainLines margin text lines) : Line margin text true (lead ++ (lines ++ ['\n']))
  | quoted {quote : Char} {written : List Char} (kind : quote = '\'' ∨ quote = '"') (lines : QuotedLines quote margin text written) :
      Line margin text false (quote :: (written ++ [quote, '\n']))
  | literal (feed : '\n' ∈ text) (block : ∀ c ∈ text, isBlockChar c = true) :
      Line margin text false (literalHeader text ++ '\n' :: literalLines margin true text)

theorem line_of_kept {place : Place} {style : Style} (left : place.margin = some margin) (suits : Suits text style)
    (kept : Kept place text style) : Line margin text (style == .plain) (scalarLine place (String.ofList text) style) := by
  rw [scalarLine, String.toList_ofList]
  cases style with
  | plain =>
    obtain ⟨plain, filled⟩ := suits
    obtain ⟨lead, lines, written, read, start⟩ : ∃ lead lines, plainFrom place place.column true text = lead ++ lines ∧ _ :=
      plainFrom_lines (spaced_of_canBePlain plain filled) left place.column kept
    have newLine : place.newLine = '\n' :: spaces margin := by rw [Place.newLine, left]; rfl
    have same : styledText .plain place text ++ ['\n'] = lead ++ (lines ++ ['\n']) := by
      rw [styledText, written, List.append_assoc]
    rw [newLine] at start
    exact same ▸ .plain (start.imp_right And.left) plain read
  | singleQuoted =>
    obtain ⟨single, unquoted, flat⟩ := suits
    have edges := single
    simp only [canBeSingleQuoted, Bool.not_eq_true', Bool.or_eq_false_iff] at edges
    have read := singleQuotedFrom_lines left (shown_of_canBeSingleQuoted single flat) unquoted kept edges.1.2 edges.2 (place.column + 1) none
    have same : styledText .singleQuoted place text ++ ['\n'] =
        '\'' :: (singleQuotedFrom place (place.column + 1) none text ++ ['\'', '\n']) := by
      simp [styledText]
    exact same ▸ .quoted (.inl rfl) read.1
  | doubleQuoted =>
    have read : QuotedLines '"' margin text (doubleQuotedFrom place (place.column + 1) none false false text) ∧ _ :=
      doubleQuotedFrom_lines left kept
    have same : styledText .doubleQuoted place text ++ ['\n'] =
        '"' :: (doubleQuotedFrom place (place.column + 1) none false false text ++ ['"', '\n']) := by
      simp [styledText]
    exact same ▸ .quoted (.inr rfl) read.1
  | literal =>
    have same : styledText .literal place text ++ [] = literalHeader text ++ '\n' :: literalLines margin true text := by
      rw [styledText, Place.left, left, List.append_nil]
      rfl
    exact same ▸ .literal suits kept

theorem Line.clean {plain : Bool} (line : Line margin text plain written) : Clean written := by
  have feed : Clean ['\n'] := clean_nil.cons rfl
  cases line with
  | plain start plain read =>
    rcases start with rfl | rfl
    · exact read.clean.append feed
    · exact ((clean_spaces margin).cons rfl).append (read.clean.append feed)
  | @quoted quote written kind lines =>
    have close : isClean quote = true := by
      rcases kind with rfl | rfl <;> rfl
    exact (lines.clean.append (feed.cons close)).cons close
  | literal _ block =>
    have lines := clean_literalLines margin true fun c member => isClean_block (block c member)
    exact (clean_literalHeader text).append (lines.cons rfl)

/-- A short key in that style stays on its line. -/
def KeptKey (indent : Nat) (text : List Char) (style : Style) : Prop := '\n' ∉ styledText style ⟨indent, some (indent + 2), false⟩ text

instance (indent : Nat) (text : List Char) (style : Style) : Decidable (KeptKey indent text style) :=
  inferInstanceAs (Decidable (¬_))

/-- How a short key is written, its colon apart. -/
inductive KeyLine (margin : Nat) (text : List Char) : Bool → List Char → Prop
  | plain (plain : canBePlain text = true) (read : PlainLines margin text text) (flat : '\n' ∉ text) : KeyLine margin text true text
  | quoted {quote : Char} {written : List Char} (kind : quote = '\'' ∨ quote = '"') (lines : QuotedLines quote margin text written)
      (flat : '\n' ∉ written) (short : written.length ≤ 6 * text.length) : KeyLine margin text false (quote :: (written ++ [quote]))

theorem keyLine_of_kept {indent : Nat} {style : Style} (suits : Suits text style) (flat : isMultiline text = false)
    (kept : KeptKey indent text style) :
    KeyLine (indent + 2) text (style == .plain) (styledText style ⟨indent, some (indent + 2), false⟩ text) := by
  have unbroken : ∀ c ∈ text, isBreak c = false := by simpa [isMultiline] using flat
  have feed : '\n' ∉ text := fun member => absurd (unbroken _ member) (by decide)
  cases style with
  | plain =>
    obtain ⟨plain, filled⟩ := suits
    have narrow : ¬ [' ', ' ', '\n'] <:+: plainFrom ⟨indent, some (indent + 2), false⟩ indent true text :=
      fun wide => kept (wide.subset (by simp))
    obtain ⟨lead, lines, written, read, start⟩ : ∃ lead lines, plainFrom ⟨indent, some (indent + 2), false⟩ indent true text = lead ++ lines ∧ _ :=
      plainFrom_lines (spaced_of_canBePlain plain filled) rfl indent narrow
    obtain rfl : lead = [] := start.resolve_right fun folded => by omega
    rw [KeptKey, styledText, written] at kept
    obtain rfl : lines = text := read.flat kept
    rw [styledText, written]
    exact .plain plain read feed
  | singleQuoted =>
    obtain ⟨single, unquoted, -⟩ := suits
    have edges := single
    simp only [canBeSingleQuoted, Bool.not_eq_true', Bool.or_eq_false_iff] at edges
    have same : '\x85' ∉ text := fun member => absurd (unbroken _ member) (by decide)
    have read : QuotedLines '\'' (indent + 2) text (singleQuotedFrom ⟨indent, some (indent + 2), false⟩ (indent + 1) none text) ∧ _ :=
      singleQuotedFrom_lines rfl (shown_of_canBeSingleQuoted single feed) unquoted same edges.1.2 edges.2 (indent + 1) none
    have whole : singleQuotedFrom ⟨indent, some (indent + 2), false⟩ (indent + 1) none text = text :=
      singleQuotedFrom_unfolded rfl unbroken (indent + 1) none
    rw [whole] at read
    rw [styledText, whole]
    exact .quoted (.inl rfl) read.1 feed (by omega)
  | doubleQuoted =>
    have read : QuotedLines '"' (indent + 2) text (doubleQuotedFrom ⟨indent, some (indent + 2), false⟩ (indent + 1) none false false text) ∧ _ :=
      doubleQuotedFrom_lines rfl (foldsAtSpaces_unfolded rfl _ _ _)
    have stays : '\n' ∉ doubleQuotedFrom ⟨indent, some (indent + 2), false⟩ (indent + 1) none false false text ∧ _ :=
      doubleQuotedFrom_unfolded rfl
    rw [styledText]
    exact .quoted (.inr rfl) read.1 stays.1 stays.2
  | literal => exact absurd suits feed

theorem KeyLine.clean {plain : Bool} (key : KeyLine margin text plain written) : Clean written := by
  cases key with
  | plain plain read flat => exact read.clean
  | @quoted quote written kind lines flat short =>
    have close : isClean quote = true := by
      rcases kind with rfl | rfl <;> rfl
    exact (lines.clean.append (clean_nil.cons close)).cons close

theorem KeyLine.opens {plain : Bool} (key : KeyLine margin text plain written) (rest : List Char) : Opens (written ++ rest) := by
  cases key with
  | plain plain read flat => exact read.opens.append read.filled rest
  | quoted kind lines flat short => exact opens_cons (by rcases kind with rfl | rfl <;> decide)

namespace Scan
variable {next rest : List Char} {index line column place behind : Nat} {indent : Int} {outer outer' : List Int} {allowed plain : Bool}
  {reversed reversed' : List Token}

/-- A short key is read together with its colon. -/
theorem reads_key (key : KeyLine (column + 2) text plain written) (short : text.length ≤ 128)
    (gap : endsLineOrGap (rest.headD '\x00') = true) (opening : Opening .blockMapping column indent outer reversed outer' reversed') :
    (stand ⟨written ++ ':' :: rest, index, line, column⟩ indent outer true [] reversed).Reads
      (stand ⟨rest, index + written.length + 1, line, column + written.length + 1⟩ column outer' false []
        (.value :: .scalar (String.ofList text) plain :: .key :: reversed')) := by
  have deeper := opening.deeper
  have colon : Opens (':' :: rest) := opens_cons (by decide)
  cases key with
  | plain plain read flat =>
    have ends : ∀ index line column, scanPlainSpaces ⟨':' :: rest, index, line, column⟩ = ([], false, ⟨':' :: rest, index, line, column⟩) :=
      fun index line column => scanPlainSpaces_spaces colon 0
    have halts : Halts (indent + 1) (':' :: rest) := ⟨plainRun_colon gap, fun index line column => .inl (by rw [ends])⟩
    obtain ⟨-, -, -, marker, -⟩ := canBePlain_cases plain
    have plainly : Plainly (text ++ ':' :: rest) column :=
      plainly_of_lines plain read _ fun margin index line => atAnyMarker_key read.filled marker index line column
    obtain ⟨index', line', column', fetched, passed⟩ :
        ∃ index' line' column', (stand ⟨text ++ ':' :: rest, index + 0, line, column + 0⟩ indent outer true [] reversed).fetch =
          some (stand (scanPlainSpaces ⟨':' :: rest, index', line', column'⟩).2.2 indent outer _ _ _) ∧ _ :=
      fetch_plain read plainly halts (by omega) (by omega) (by omega)
    obtain ⟨rfl, rfl, rfl⟩ := passed.columns flat
    rw [ends] at fetched
    have filled := List.length_pos_of_ne_nil read.filled
    refine reads_short plainly.opens plainly.filled opening fetched ?_ (by omega) gap
    rw [List.length_append, List.length_cons]
    omega
  | @quoted quote written kind lines flat bounded =>
    obtain ⟨index', line', column', fetched, passed⟩ :
        ∃ index' line' column', (stand ⟨quote :: (written ++ quote :: ':' :: rest), index + 0, line, column + 0⟩ indent outer true []
          reversed).fetch = some (stand ⟨':' :: rest, index', line', column'⟩ indent outer false _ _) ∧ _ :=
      fetch_quoted lines kind (by omega) (by simp)
    have unbroken : '\n' ∉ quote :: (written ++ [quote]) := by
      rcases kind with rfl | rfl <;> simp [flat]
    obtain ⟨rfl, rfl, rfl⟩ := passed.columns unbroken
    have first : Opens (quote :: (written ++ quote :: ':' :: rest)) :=
      opens_cons (by rcases kind with rfl | rfl <;> decide)
    have apart : quote :: (written ++ [quote]) ++ ':' :: rest = quote :: (written ++ quote :: ':' :: rest) := by simp
    have length : (quote :: (written ++ [quote])).length = written.length + 2 := by simp
    rw [length] at fetched
    rw [apart, length]
    refine reads_short first (List.cons_ne_nil _ _) opening fetched ?_ (by omega) gap
    rw [List.length_cons, List.length_append, List.length_cons, List.length_cons]
    omega

/-- A text behind its key or dash is read back from its place. -/
theorem reaches_text {place : Nat} (scalar : Line (place + 2) text plain written) (opens : Opens next) (outside : behind ≤ place)
    (deeper : place ≤ column) :
    (stand ⟨' ' :: (written ++ (spaces behind ++ next)), index, line, column⟩ place outer allowed [] reversed).Reaches
      next behind place outer (.scalar (String.ofList text) plain :: reversed) := by
  cases scalar with
  | @plain lead lines start plain read =>
    have apart : ' ' :: (lead ++ (lines ++ ['\n']) ++ (spaces behind ++ next)) = ' ' :: (lead ++ (lines ++ '\n' :: (spaces behind ++ next))) := by
      simp
    have placed : ∀ column, column ≠ 0 → Plainly (lines ++ '\n' :: (spaces behind ++ next)) column := fun column further =>
      plainly_of_lines plain read _ fun margin => absurd margin further
    rw [apart]
    rcases start with rfl | rfl
    · have plainly := placed (column + 1) (by omega)
      exact (reads_spaces plainly.opens stale_nil 1).reaches (reaches_plain read plainly opens outside (by omega))
    · have plainly := placed (place + 2) (by omega)
      have shape : ' ' :: ('\n' :: spaces (place + 2) ++ (lines ++ '\n' :: (spaces behind ++ next))) =
        spaces 1 ++ '\n' :: (spaces (place + 2) ++ (lines ++ '\n' :: (spaces behind ++ next))) := rfl
      rw [shape]
      exact (reads_line plainly.opens stale_nil 1 (place + 2)).reaches (reaches_plain read plainly opens outside (by omega))
  | @quoted quote written kind lines =>
    have apart : ' ' :: (quote :: (written ++ [quote, '\n']) ++ (spaces behind ++ next)) =
        spaces 1 ++ quote :: (written ++ quote :: '\n' :: (spaces behind ++ next)) := by
      simp [spaces_succ]
    have first : Opens (quote :: (written ++ quote :: '\n' :: (spaces behind ++ next))) :=
      opens_cons (by rcases kind with rfl | rfl <;> decide)
    rw [apart]
    exact (reads_spaces first stale_nil 1).reaches (reaches_quoted lines kind opens (by omega))
  | literal feed block =>
    have apart : ' ' :: (literalHeader text ++ '\n' :: literalLines (place + 2) true text ++ (spaces behind ++ next)) =
        spaces 1 ++ (literalHeader text ++ '\n' :: (literalLines (place + 2) true text ++ (spaces behind ++ next))) := by
      simp [spaces_succ]
    have first : Opens (literalHeader text ++ '\n' :: (literalLines (place + 2) true text ++ (spaces behind ++ next))) :=
      opens_cons (by decide)
    rw [apart]
    exact (reads_spaces first stale_nil 1).reaches (reaches_literal (blockable_of_kept block) feed opens outside (by omega))

end Scan

end

end WorkflowCompiler.Yaml
