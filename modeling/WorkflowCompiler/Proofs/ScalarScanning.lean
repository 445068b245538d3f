import WorkflowCompiler.Proofs.TokenScanning

/-! Scalars as tokens. Each style of writing is read back as the text that it holds, as a value together with the end of its
line and as a short key together with its colon. -/

namespace WorkflowCompiler.Yaml
open Proofs (Stops takeWhile_of_stops)

/-- A plain text may start here: no indicator stands first. -/
structure Plainly (text : List Char) (column : Nat) : Prop where
  filled : text ≠ []
  solid : ∀ c ∈ text.head?, isGap c = false ∧
    c ∉ [',', '[', ']', '\x7b', '\x7d', '#', '&', '*', '!', '|', '>', '\'', '"', '%', '@', '\x60']
  going : ∀ c ∈ text.head?, c = '-' ∨ c = '?' ∨ c = ':' → endsLineOrGap (text.tail.headD '\x00') = false
  unmarked : column = 0 → ∀ index line, atAnyMarker ⟨text, index, line, column⟩ = false

theorem Plainly.opens {text : List Char} {column : Nat} (plainly : Plainly text column) : Opens text := by
  intro c member
  obtain ⟨solid, ordinary⟩ := plainly.solid c member
  have cases := solid_cases solid
  exact ⟨cases.2.1, cases.2.2.1, fun comment => ordinary (by simp [comment]), isAnyBreak_solid solid⟩

/-- The second character of a text stays where it is written if it is none of the blanks. -/
theorem PlainLines.second {margin : Nat} {text written : List Char} (lines : PlainLines margin text written) :
    ∃ c rest rest', text = c :: rest ∧ written = c :: rest' ∧ (opensGap rest = false → ∃ d more, rest' = d :: more ∧ isGap d = false) := by
  have first : ∀ {word : List Char} (rest rest' : List Char), Word word → (rest = [] ∨ rest.head? = some ' ') →
      ∃ c front front', word ++ rest = c :: front ∧ word ++ rest' = c :: front' ∧
        (opensGap front = false → ∃ d more, front' = d :: more ∧ isGap d = false) := by
    intro word rest rest' here gap
    obtain ⟨c, others, rfl, -⟩ := here.exists_cons
    refine ⟨c, others ++ rest, others ++ rest', rfl, rfl, fun going => ?_⟩
    cases others with
    | nil =>
      rcases gap with rfl | space
      · cases going
      · obtain ⟨more, rfl⟩ := List.head?_eq_some_iff.mp space
        cases going
    | cons d others => exact ⟨d, others ++ rest', rfl, here.solid d (by simp)⟩
  cases lines with
  | word here =>
    obtain ⟨c, front, front', same, same', going⟩ := first [] [] here (.inl rfl)
    rw [List.append_nil] at same same'
    exact ⟨c, front, front', same, same', going⟩
  | gap here gap more =>
    apply first _ _ here
    right
    cases gap <;> rfl

/-- A text that can be written without quotes is read as one. -/
theorem plainly_of_lines {margin column : Nat} {text written : List Char} (plain : canBePlain text = true)
    (lines : PlainLines margin text written) (rest : List Char)
    (unmarked : column = 0 → ∀ index line, atAnyMarker ⟨written ++ rest, index, line, column⟩ = false) :
    Plainly (written ++ rest) column := by
  obtain ⟨-, -, -, -, indicator, -⟩ := canBePlain_cases plain
  obtain ⟨c, front, front', rfl, rfl, going⟩ := lines.second
  obtain ⟨_, _, same, solid, comment⟩ := lines.exists_cons
  obtain ⟨rfl, rfl⟩ := List.cons.inj same
  simp only [startsWithIndicator, Bool.or_eq_false_iff] at indicator
  refine ⟨List.cons_ne_nil _ _, ?_, ?_, unmarked⟩
  · intro d member
    cases member
    refine ⟨solid, ?_⟩
    rw [← List.contains_iff_mem, indicator.1]
    exact Bool.false_ne_true
  · intro d member sign
    cases member
    obtain ⟨d, more, rfl, solid⟩ := going (by
      have gap := indicator.2
      rcases sign with rfl | rfl | rfl <;> simpa using gap)
    exact endsLineOrGap_solid solid

/-- No document marker stands where a key does. -/
theorem atAnyMarker_key {text rest : List Char} (filled : text ≠ []) (unmarked : startsWithMarker text = false) (index line column : Nat) :
    atAnyMarker ⟨text ++ ':' :: rest, index, line, column⟩ = false := by
  match text with
  | [a] => simp [atAnyMarker, atMarker, Cursor.peekAt]
  | [a, b] => simp [atAnyMarker, atMarker, Cursor.peekAt]
  | a :: b :: c :: text =>
    have dots : ¬(a = '.' ∧ b = '.' ∧ c = '.') := by
      rintro ⟨rfl, rfl, rfl⟩
      cases unmarked
    have dashes : ¬(a = '-' ∧ b = '-' ∧ c = '-') := by
      rintro ⟨rfl, rfl, rfl⟩
      cases unmarked
    simp [atAnyMarker, atMarker, Cursor.peekAt]
    grind

namespace Scan
section
variable {next rest : List Char} {index line column : Nat} {indent : Int} {outer outer' : List Int} {allowed : Bool}
  {starts : List KeyStart} {reversed reversed' : List Token}
  {written text : List Char} {margin : Nat} {quote : Char}

theorem fetch_plainly (plainly : Plainly next column) :
    (stand ⟨next, index, line, column⟩ indent outer allowed starts reversed).fetch =
      (stand ⟨next, index, line, column⟩ indent outer allowed starts reversed).fetchPlain := by
  obtain ⟨c, rest, rfl⟩ := List.exists_cons_of_ne_nil plainly.filled
  obtain ⟨solid, ordinary⟩ := plainly.solid c rfl
  have going : c = '-' ∨ c = '?' ∨ c = ':' → endsLineOrGap (rest.headD '\x00') = false := plainly.going c rfl
  have unmarked := plainly.unmarked
  simp only [List.mem_cons, List.not_mem_nil, or_false, not_or] at ordinary
  obtain ⟨comma, square, squared, curly, curled, comment, anchor, reference, tag, bar, folded, single, double, directive, at_, tick⟩ := ordinary
  have percent : (c == '%') = false := beq_eq_false_iff_ne.mpr directive
  have literal : (c == '|') = false := beq_eq_false_iff_ne.mpr bar
  have greater : (c == '>') = false := beq_eq_false_iff_ne.mpr folded
  have following : Cursor.peekAt ⟨c :: rest, index, line, column⟩ 1 = rest.headD '\x00' := by simp [Cursor.peekAt]
  have alone : ∀ mark, mark = '-' ∨ mark = '?' ∨ mark = ':' → (c == mark && endsLineOrGap (rest.headD '\x00')) = false := by
    intro mark kind
    by_cases same : c = mark
    · subst same
      rw [going kind, Bool.and_false]
    · rw [beq_eq_false_iff_ne.mpr same, Bool.false_and]
  have marks : (column == 0 && atMarker ⟨c :: rest, index, line, column⟩ '-') = false ∧
      (column == 0 && atMarker ⟨c :: rest, index, line, column⟩ '.') = false := by
    by_cases margin : column = 0
    · have none := plainly.unmarked margin index line
      simp only [atAnyMarker, Bool.or_eq_false_iff] at none
      simp [none]
    · simp [margin]
  have opens : (stand ⟨c :: rest, index, line, column⟩ indent outer allowed starts reversed).opensPlain = true := by
    have flat : endsLineOrGap c = false ∧ isAnyBreak c = false := ⟨endsLineOrGap_solid solid, isAnyBreak_solid solid⟩
    by_cases sign : c = '-' ∨ c = '?' ∨ c = ':'
    · have going := going sign
      rcases sign with rfl | rfl | rfl <;> simpa [opensPlain, stand, following, inFlow] using going
    · simp only [not_or] at sign
      simp [opensPlain, stand, flat, comma, square, squared, curly, curled, comment, anchor, reference, tag, bar, folded, single,
        double, directive, at_, tick, sign]
  have dash := alone '-' (.inl rfl)
  have question := alone '?' (.inr (.inl rfl))
  have colon := alone ':' (.inr (.inr rfl))
  rw [fetch]
  simp only [stand, Cursor.peek_cons, opensKey, opensValue, inFlow, following, List.isEmpty_nil, Bool.not_true, Bool.false_or] at opens ⊢
  simp only [percent, Bool.false_and, Bool.false_eq_true, if_false, marks, dash, question, colon, literal, greater, opens, if_true]

theorem fetch_plain (lines : PlainLines margin text written) (plainly : Plainly (written ++ rest) column)
    (halts : Halts (indent + 1) rest) (inside : 0 < margin) (further : indent + 1 ≤ margin) (deeper : indent ≤ column) :
    ∃ index' line' column', (stand ⟨written ++ rest, index, line, column⟩ indent outer allowed [] reversed).fetch =
        some (stand (scanPlainSpaces ⟨rest, index', line', column'⟩).2.2 indent outer
          (scanPlainSpaces ⟨rest, index', line', column'⟩).2.1
          (startsHere ⟨written ++ rest, index, line, column⟩ indent allowed reversed) (.scalar (String.ofList text) true :: reversed)) ∧
      Cursor.Passes written ⟨written ++ rest, index, line, column⟩ ⟨rest, index', line', column'⟩ := by
  obtain ⟨index', line', column', read, passed⟩ :
      ∃ index' line' column', scanPlain false (indent + 1) false ((written ++ rest).length + 1) ⟨written ++ rest, index, line, column⟩ =
        (text, (scanPlainSpaces ⟨rest, index', line', column'⟩).2) ∧ _ :=
    scanPlain_lines lines halts inside further (by simp; omega) (by omega)
  refine ⟨index', line', column', ?_, passed⟩
  rw [fetch_plainly plainly, fetchPlain, saveStart_stand]
  simp only [Option.bind_eq_bind, Option.bind_some]
  simp only [stand, inFlow, List.isEmpty_nil, Bool.not_true, read]
  rfl

theorem fetch_quoted (lines : QuotedLines quote margin text written) (kind : quote = '\'' ∨ quote = '"') (inside : 0 < margin)
    (closed : rest.head? ≠ some '\'') :
    ∃ index' line' column', (stand ⟨quote :: (written ++ quote :: rest), index, line, column⟩ indent outer allowed [] reversed).fetch =
        some (stand ⟨rest, index', line', column'⟩ indent outer false
          (startsHere ⟨quote :: (written ++ quote :: rest), index, line, column⟩ indent allowed reversed)
          (.scalar (String.ofList text) false :: reversed)) ∧
      Cursor.Passes (quote :: (written ++ [quote])) ⟨quote :: (written ++ quote :: rest), index, line, column⟩
        ⟨rest, index', line', column'⟩ := by
  obtain ⟨index', line', column', read, passed⟩ :
      ∃ index' line' column', scanQuoted quote ((quote :: (written ++ quote :: rest)).length + 1)
        ⟨written ++ quote :: rest, index + 1, line, column + 1⟩ = some (text, ⟨rest, index', line', column'⟩) ∧ _ :=
    scanQuoted_lines lines kind inside closed _ _ _ _ (by simp; omega)
  have entered : Cursor.next ⟨quote :: (written ++ quote :: rest), index, line, column⟩ =
      ⟨written ++ quote :: rest, index + 1, line, column + 1⟩ :=
    Cursor.next_inline (by rcases kind with rfl | rfl <;> rfl)
  have dispatch : (stand ⟨quote :: (written ++ quote :: rest), index, line, column⟩ indent outer allowed [] reversed).fetch =
      (stand ⟨quote :: (written ++ quote :: rest), index, line, column⟩ indent outer allowed [] reversed).fetchQuoted quote := by
    rcases kind with rfl | rfl <;> rfl
  have opened : Cursor.Passes [quote] ⟨quote :: (written ++ quote :: rest), index, line, column⟩ _ := Cursor.passes_inline
  refine ⟨index', line', column', ?_, opened.append passed⟩
  rw [dispatch, fetchQuoted, saveStart_stand]
  simp only [Option.bind_eq_bind, Option.bind_some]
  simp only [stand, entered, read, Option.bind_some]
  rfl

theorem fetch_literal (blockable : Blockable text) (feed : '\n' ∈ text) (opens : Opens next) {behind place : Nat}
    (outside : behind < place + 2) :
    ∃ index' line', (stand ⟨literalHeader text ++ '\n' :: (literalLines (place + 2) true text ++ (spaces behind ++ next)), index, line, column⟩
        place outer allowed [] reversed).fetch =
      some (stand ⟨next, index', line', behind⟩ place outer true [] (.scalar (String.ofList text) false :: reversed)) := by
  obtain ⟨index', line', read, -⟩ : ∃ index' line', scanBlock false place
      ⟨(if needsIndentHint text then ['2'] else []) ++ (chomping text ++ '\n' :: (literalLines (place + 2) true text ++
        (spaces behind ++ next))), index + 1, line, column + 1⟩ = some (text, ⟨next, index', line', behind⟩) ∧ _ :=
    scanBlock_literal blockable feed opens place outside
  refine ⟨index', line', ?_⟩
  simp only [literalHeader, List.cons_append, List.append_assoc]
  have dispatch : ∀ rest, (stand ⟨'|' :: rest, index, line, column⟩ place outer allowed [] reversed).fetch =
      (stand ⟨'|' :: rest, index, line, column⟩ place outer allowed [] reversed).fetchBlock false := by
    intro rest
    simp [fetch, stand, atMarker, inFlow]
  have entered : ∀ rest, Cursor.next ⟨'|' :: rest, index, line, column⟩ = ⟨rest, index + 1, line, column + 1⟩ :=
    fun rest => Cursor.next_inline rfl
  rw [dispatch, fetchBlock]
  simp only [stand, dropStart, keyStart?, List.find?_nil, Option.any_none, Bool.false_eq_true, if_false, Option.bind_eq_bind,
    Option.bind_some, entered, read]
  rfl

/-- Behind a text the end of its line is read with it, up to the next line or a document marker. -/
theorem scanPlainSpaces_end (opens : Opens next) (behind : Nat) :
    (scanPlainSpaces ⟨'\n' :: (spaces behind ++ next), index, line, column⟩).2 =
      (true, ⟨next, index + 1 + behind, line + 1, behind⟩) := by
  have none : Stops (· == ' ') ('\n' :: (spaces behind ++ next)) := by
    intro c member
    cases member
    rfl
  have feed : isAnyBreak '\n' = true := rfl
  rw [scanPlainSpaces, Cursor.taken, takeWhile_of_stops none]
  simp only [List.length_nil, Cursor.skip, Cursor.peek_cons, feed, if_true, scanBreak_feed]
  cases marked : atAnyMarker ⟨spaces behind ++ next, index + 1, line + 1, 0⟩ with
  | true =>
    cases behind with
    | zero => rfl
    | succ behind => cases marked
  | false =>
    rw [breaks_spaces opens behind (by rw [List.length_append, length_spaces]; omega), Nat.zero_add]
    rfl

theorem halts_end (opens : Opens next) {behind place : Nat} (outside : behind ≤ place) :
    Halts (place + 1) ('\n' :: (spaces behind ++ next)) where
  stops := plainRun_feed
  leaves index line column := by
    right
    rw [scanPlainSpaces_end opens]
    simp only
    omega

/-- A plain text is read together with the end of its line. -/
theorem reaches_plain {place behind : Nat} (lines : PlainLines (place + 2) text written)
    (plainly : Plainly (written ++ '\n' :: (spaces behind ++ next)) column)
    (opens : Opens next) (outside : behind ≤ place) (deeper : place < column) :
    (stand ⟨written ++ '\n' :: (spaces behind ++ next), index, line, column⟩ place outer allowed [] reversed).Reaches
      next behind place outer (.scalar (String.ofList text) true :: reversed) := by
  obtain ⟨index', line', column', fetched, passed⟩ :
      ∃ index' line' column', (stand ⟨written ++ '\n' :: (spaces behind ++ next), index + 0, line, column + 0⟩ place outer allowed []
        reversed).fetch = some (stand (scanPlainSpaces ⟨'\n' :: (spaces behind ++ next), index', line', column'⟩).2.2 place outer
          (scanPlainSpaces ⟨'\n' :: (spaces behind ++ next), index', line', column'⟩).2.1 _ _) ∧ _ :=
    fetch_plain lines plainly (halts_end opens outside) (by omega) (by omega) (by omega)
  rw [scanPlainSpaces_end opens] at fetched
  have later : line ≤ line' := passed.later
  have read := reads_token plainly.opens plainly.filled stale_nil 0 (by omega) fetched (by
    simp [stand]
    omega)
  exact read.reaches (reaches_here opens (startsHere_stale (by omega) (by omega)))

/-- A text in quotes is read together with the end of its line. -/
theorem reaches_quoted {place behind : Nat} (lines : QuotedLines quote (place + 2) text written) (kind : quote = '\'' ∨ quote = '"')
    (opens : Opens next) (deeper : place < column) :
    (stand ⟨quote :: (written ++ quote :: '\n' :: (spaces behind ++ next)), index, line, column⟩ place outer allowed [] reversed).Reaches
      next behind place outer (.scalar (String.ofList text) false :: reversed) := by
  obtain ⟨index', line', column', fetched, passed⟩ :
      ∃ index' line' column', (stand ⟨quote :: (written ++ quote :: '\n' :: (spaces behind ++ next)), index + 0, line, column + 0⟩ place
        outer allowed [] reversed).fetch = some (stand ⟨'\n' :: (spaces behind ++ next), index', line', column'⟩ place outer false _ _) ∧ _ :=
    fetch_quoted lines kind (by omega) (by simp)
  have later : line ≤ line' := passed.later
  have first : Opens (quote :: (written ++ quote :: '\n' :: (spaces behind ++ next))) :=
    opens_cons (by rcases kind with rfl | rfl <;> decide)
  have read := reads_token first (List.cons_ne_nil _ _) stale_nil 0 (by omega) fetched (by
    simp [stand]
    omega)
  exact read.reaches (reaches_line opens (startsHere_stale (by omega) (by omega)) 0 behind)

/-- A literal block is read up to the line behind it. -/
theorem reaches_literal {place behind : Nat} (blockable : Blockable text) (feed : '\n' ∈ text) (opens : Opens next)
    (outside : behind ≤ place) (deeper : place < column) :
    (stand ⟨literalHeader text ++ '\n' :: (literalLines (place + 2) true text ++ (spaces behind ++ next)), index, line, column⟩
      place outer allowed [] reversed).Reaches next behind place outer (.scalar (String.ofList text) false :: reversed) := by
  obtain ⟨index', line', fetched⟩ :
      ∃ index' line', (stand ⟨literalHeader text ++ '\n' :: (literalLines (place + 2) true text ++ (spaces behind ++ next)), index + 0, line,
        column + 0⟩ place outer allowed [] reversed).fetch = some (stand ⟨next, index', line', behind⟩ place outer true [] _) :=
    fetch_literal blockable feed opens (by omega)
  have first : Opens (literalHeader text ++ '\n' :: (literalLines (place + 2) true text ++ (spaces behind ++ next))) :=
    opens_cons (by decide)
  exact ⟨_, _, reads_token first (List.cons_ne_nil _ _) stale_nil 0 (by omega) fetched (by
    simp [stand, literalHeader]
    omega)⟩

/-- A short key: its scalar stays on the line, so that the colon behind it opens its value. -/
theorem reads_short {scalar : Token} {length : Nat} (opens : Opens next) (going : next ≠ [])
    (opening : Opening .blockMapping column indent outer reversed outer' reversed')
    (fetched : (stand ⟨next, index, line, column⟩ indent outer true [] reversed).fetch =
      some (stand ⟨':' :: rest, index + length, line, column + length⟩ indent outer false
        (startsHere ⟨next, index, line, column⟩ indent true reversed) (scalar :: reversed)))
    (shorter : rest.length + 1 < next.length) (near : length ≤ 1024) (gap : endsLineOrGap (rest.headD '\x00') = true) :
    (stand ⟨next, index, line, column⟩ indent outer true [] reversed).Reads
      (stand ⟨rest, index + length + 1, line, column + length + 1⟩ column outer' false [] (.value :: scalar :: .key :: reversed')) := by
  have first := reads_token opens going stale_nil 0 opening.deeper fetched (by
    simp only [stand, List.length_cons]
    omega)
  have colon : Opens (':' :: rest) := opens_cons (by decide)
  have settled : (stand ⟨':' :: rest, index + length, line, column + length⟩ indent outer false
      (startsHere ⟨next, index, line, column⟩ indent true reversed) (scalar :: reversed)).ready = _ :=
    ready_fresh colon rfl (by simp [startHere, near]) (by have := opening.deeper; omega)
  exact first.trans (reads_of_fetch settled (List.cons_ne_nil _ _) (fetch_value_behind gap scalar opening) (by simp [stand]))

end

end Scan

end WorkflowCompiler.Yaml
