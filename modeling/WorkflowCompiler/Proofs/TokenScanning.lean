import WorkflowCompiler.Proofs.BlockScanning
import Mathlib.Data.List.Basic

/-! The tokens of a block layout, one at a time: dashes, keys with their colons, empty brackets, and scalars with the end of
their lines. -/

namespace WorkflowCompiler.Yaml
open Proofs (Stops)

namespace Scan

/-- A block collection stands at `column`: it is open, or the token that opens it is put in. -/
inductive Opening (token : Token) (column : Nat) : Int → List Int → List Token → List Int → List Token → Prop
  | inside {outer : List Int} {reversed : List Token} : Opening token column column outer reversed outer reversed
  | fresh {indent : Int} {outer : List Int} {reversed : List Token} (deeper : indent < column) :
      Opening token column indent outer reversed (indent :: outer) (token :: reversed)

section
variable {next rest : List Char} {index line line' column : Nat} {indent : Int} {outer outer' : List Int} {allowed : Bool}
  {starts : List KeyStart} {reversed reversed' : List Token} {token : Token} {cursor : Cursor}

/-- The token behind some spaces is read next. -/
theorem reads_token (opens : Opens next) (going : next ≠ []) (stale : Stale starts line) (count : Nat)
    (inside : indent ≤ (column + count : Nat)) {after : Scan}
    (fetched : (stand ⟨next, index + count, line, column + count⟩ indent outer allowed [] reversed).fetch = some after)
    (shorter : after.cursor.rest.length < next.length) :
    (stand ⟨spaces count ++ next, index, line, column⟩ indent outer allowed starts reversed).Reads after := by
  apply reads_of_fetch (ready_opens opens stale count inside) going fetched
  simp only [stand, List.length_append, length_spaces]
  omega

theorem Opening.openBlock (opening : Opening token cursor.column indent outer reversed outer' reversed') :
    (stand cursor indent outer true [] reversed).openBlock token = some (stand cursor cursor.column outer' true [] reversed') := by
  cases opening with
  | inside => simp [Scan.openBlock, stand, inFlow, indentTo]
  | fresh deeper => simp [Scan.openBlock, stand, inFlow, indentTo, emit, deeper]

theorem Opening.deeper (opening : Opening token column indent outer reversed outer' reversed') : indent ≤ column := by
  cases opening with
  | inside => exact Int.le_refl _
  | fresh deeper => exact Int.le_of_lt deeper

/-- A dash opens an item. -/
theorem fetch_entry (opening : Opening .blockSequence column indent outer reversed outer' reversed') :
    (stand ⟨'-' :: ' ' :: rest, index, line, column⟩ indent outer true [] reversed).fetch =
      some (stand ⟨' ' :: rest, index + 1, line, column + 1⟩ column outer' true [] (.entry :: reversed')) := by
  have dispatch : (stand ⟨'-' :: ' ' :: rest, index, line, column⟩ indent outer true [] reversed).fetch =
      (stand ⟨'-' :: ' ' :: rest, index, line, column⟩ indent outer true [] reversed).fetchEntry := by
    simp [fetch, stand, atMarker, Cursor.peekAt, endsLineOrGap]
  have opened : (stand ⟨'-' :: ' ' :: rest, index, line, column⟩ indent outer true [] reversed).openBlock .blockSequence = _ :=
    opening.openBlock
  rw [dispatch, fetchEntry, opened]
  rfl

/-- A question mark opens a long key. -/
theorem fetch_key (opening : Opening .blockMapping column indent outer reversed outer' reversed') :
    (stand ⟨'?' :: ' ' :: rest, index, line, column⟩ indent outer true [] reversed).fetch =
      some (stand ⟨' ' :: rest, index + 1, line, column + 1⟩ column outer' true [] (.key :: reversed')) := by
  have dispatch : (stand ⟨'?' :: ' ' :: rest, index, line, column⟩ indent outer true [] reversed).fetch =
      (stand ⟨'?' :: ' ' :: rest, index, line, column⟩ indent outer true [] reversed).fetchKey := by
    simp [fetch, stand, atMarker, Cursor.peekAt, endsLineOrGap, opensKey]
  have opened : (stand ⟨'?' :: ' ' :: rest, index, line, column⟩ indent outer true [] reversed).openBlock .blockMapping = _ :=
    opening.openBlock
  rw [dispatch, fetchKey, opened]
  rfl

theorem fetch_colon (gap : endsLineOrGap (rest.headD '\x00') = true) :
    (stand ⟨':' :: rest, index, line, column⟩ indent outer allowed starts reversed).fetch =
      (stand ⟨':' :: rest, index, line, column⟩ indent outer allowed starts reversed).fetchValue := by
  have following : endsLineOrGap (Cursor.peekAt ⟨':' :: rest, index, line, column⟩ 1) = true := by
    simpa [Cursor.peekAt] using gap
  simp [fetch, stand, atMarker, opensValue, following]

/-- A colon on a line of its own opens the value of a long key. -/
theorem fetch_value (gap : endsLineOrGap (rest.headD '\x00') = true) :
    (stand ⟨':' :: rest, index, line, column⟩ column outer true [] reversed).fetch =
      some (stand ⟨rest, index + 1, line, column + 1⟩ column outer true [] (.value :: reversed)) := by
  have opened : (stand ⟨':' :: rest, index, line, column⟩ column outer true [] reversed).openBlock .blockMapping = _ :=
    Opening.inside.openBlock
  rw [fetch_colon gap, fetchValue]
  simp only [keyStart?, stand, List.find?_nil]
  rw [stand] at opened
  rw [opened]
  rfl

/-- Where a key may start. -/
def startHere (cursor : Cursor) (indent : Int) (reversed : List Token) : KeyStart :=
  ⟨0, reversed.length, indent == cursor.column, cursor.line, cursor.index, cursor.column⟩

def startsHere (cursor : Cursor) (indent : Int) (allowed : Bool) (reversed : List Token) : List KeyStart :=
  if allowed then [startHere cursor indent reversed] else []

theorem saveStart_stand : (stand cursor indent outer allowed [] reversed).saveStart =
    some (stand cursor indent outer allowed (startsHere cursor indent allowed reversed) reversed) := by
  cases allowed <;> rfl

/-- A scalar that is indented further than its collection may start a key, but need not. -/
theorem startsHere_stale (deeper : indent < column) (later : line < line') :
    Stale (startsHere ⟨rest, index, line, column⟩ indent allowed reversed) line' := by
  intro start member
  cases allowed with
  | false => cases member
  | true =>
    obtain rfl := List.mem_singleton.mp member
    exact ⟨beq_eq_false_iff_ne.mpr (Int.ne_of_lt deeper), later⟩

/-- A colon behind a short key: the token that opens the key is put in before its scalar. -/
theorem fetch_value_behind (gap : endsLineOrGap (rest.headD '\x00') = true) {key : Cursor} (scalar : Token)
    (opening : Opening .blockMapping key.column indent outer reversed outer' reversed') :
    (stand ⟨':' :: rest, index, line, column⟩ indent outer allowed [startHere key indent reversed] (scalar :: reversed)).fetch =
      some (stand ⟨rest, index + 1, line, column + 1⟩ key.column outer' false [] (.value :: scalar :: .key :: reversed')) := by
  have moved : Cursor.next ⟨':' :: rest, index, line, column⟩ = ⟨rest, index + 1, line, column + 1⟩ := Cursor.next_inline rfl
  rw [fetch_colon gap, fetchValue]
  cases opening with
  | inside =>
    simp [keyStart?, stand, startHere, level, inFlow, indentTo, insertAt, emit, Scan.skip, Cursor.skip, moved]
  | fresh deeper =>
    simp [keyStart?, stand, startHere, level, inFlow, indentTo, insertAt, emit, Scan.skip, Cursor.skip, moved, deeper]

/-- The scan goes on at the start of a token, with no key begun before it. -/
def Reaches (scan : Scan) (next : List Char) (column : Nat) (indent : Int) (outer : List Int) (reversed : List Token) : Prop :=
  ∃ index line, scan.Reads (stand ⟨next, index, line, column⟩ indent outer true [] reversed)

theorem Reads.reaches {first second : Scan} (before : first.Reads second) (after : second.Reaches next column indent outer reversed) :
    first.Reaches next column indent outer reversed := by
  obtain ⟨index, line, read⟩ := after
  exact ⟨index, line, before.trans read⟩

/-- The line may go on with spaces. -/
theorem reaches_line (opens : Opens next) (stale : Stale starts (line + 1)) (count behind : Nat) :
    (stand ⟨spaces count ++ '\n' :: (spaces behind ++ next), index, line, column⟩ indent outer allowed starts reversed).Reaches
      next behind indent outer reversed :=
  ⟨_, _, reads_line opens stale count behind⟩

theorem reaches_here (opens : Opens next) (stale : Stale starts line) :
    (stand ⟨next, index, line, column⟩ indent outer true starts reversed).Reaches next column indent outer reversed :=
  ⟨_, _, reads_spaces opens stale 0⟩

/-- Brackets with the tokens that they are. -/
inductive Brackets : Char → Char → Token → Token → Prop
  | square : Brackets '[' ']' .flowSequence .flowSequenceEnd
  | curly : Brackets '\x7b' '\x7d' .flowMapping .flowMappingEnd

/-- The scan between brackets that hold nothing. -/
def between (cursor : Cursor) (bracket : Char) (indent : Int) (outer : List Int) (starts : List KeyStart) (reversed : List Token) : Scan :=
  { cursor, reversed, count := reversed.length, flow := [bracket], indent, outer, starts, keyAllowed := true }

variable {opener closer : Char} {ender : Token}

theorem ready_between (brackets : Brackets opener closer token ender) (column' : Nat) :
    (between ⟨closer :: rest, index + 1, line, column'⟩ opener indent outer
        (startsHere ⟨opener :: next, index, line, column⟩ indent allowed reversed') reversed).ready =
      some (between ⟨closer :: rest, index + 1, line, column'⟩ opener indent outer
        (startsHere ⟨opener :: next, index, line, column⟩ indent allowed reversed') reversed) := by
  have plain : closer ≠ ' ' ∧ closer ≠ '\t' ∧ closer ≠ '#' ∧ isAnyBreak closer = false := by
    cases brackets <;> decide
  have settled : (between ⟨closer :: rest, index + 1, line, column'⟩ opener indent outer
      (startsHere ⟨opener :: next, index, line, column⟩ indent allowed reversed') reversed).settle =
        between ⟨closer :: rest, index + 1, line, column'⟩ opener indent outer
          (startsHere ⟨opener :: next, index, line, column⟩ indent allowed reversed') reversed := by
    have stops : Stops (fun c => c == ' ' || c == '\t') (closer :: rest) := by
      intro c member
      cases member
      simp [plain]
    rw [settle, between, toNextToken]
    simp [inFlow, Cursor.skipWhile_nothing stops, plain]
  rw [ready, settled]
  cases allowed with
  | false => rfl
  | true => simp [dropStale, startsHere, startHere, between, unwind, inFlow]

/-- Empty brackets are two tokens. -/
theorem reads_brackets (brackets : Brackets opener closer token ender) (deeper : indent ≤ column) :
    (stand ⟨opener :: closer :: rest, index, line, column⟩ indent outer allowed [] reversed).Reads
      (stand ⟨rest, index + 2, line, column + 2⟩ indent outer false
        (startsHere ⟨opener :: closer :: rest, index, line, column⟩ indent allowed reversed) (ender :: token :: reversed)) := by
  have opened : (stand ⟨opener :: closer :: rest, index, line, column⟩ indent outer allowed [] reversed).fetch =
      some (between ⟨closer :: rest, index + 1, line, column + 1⟩ opener indent outer
        (startsHere ⟨opener :: closer :: rest, index, line, column⟩ indent allowed reversed) (token :: reversed)) := by
    have dispatch : (stand ⟨opener :: closer :: rest, index, line, column⟩ indent outer allowed [] reversed).fetch =
        (stand ⟨opener :: closer :: rest, index, line, column⟩ indent outer allowed [] reversed).openFlow opener token := by
      cases brackets <;> rfl
    rw [dispatch, openFlow, saveStart_stand]
    cases brackets <;> rfl
  have closed : (between ⟨closer :: rest, index + 1, line, column + 1⟩ opener indent outer
        (startsHere ⟨opener :: closer :: rest, index, line, column⟩ indent allowed reversed) (token :: reversed)).fetch =
      some (stand ⟨rest, index + 2, line, column + 2⟩ indent outer false
        (startsHere ⟨opener :: closer :: rest, index, line, column⟩ indent allowed reversed) (ender :: token :: reversed)) := by
    cases brackets <;> cases allowed <;> rfl
  have opens : Opens (opener :: closer :: rest) := opens_cons (by cases brackets <;> decide)
  have first := reads_token opens (List.cons_ne_nil _ _) stale_nil 0 deeper opened (by simp [between])
  exact first.trans (reads_of_fetch (ready_between brackets _) (List.cons_ne_nil _ _) closed (by simp [stand, between]))

theorem reaches_brackets (brackets : Brackets opener closer token ender) (opens : Opens next) (count behind : Nat)
    (deeper : indent < (column + count : Nat)) :
    (stand ⟨spaces count ++ opener :: closer :: '\n' :: (spaces behind ++ next), index, line, column⟩ indent outer allowed [] reversed).Reaches
      next behind indent outer (ender :: token :: reversed) := by
  have first : Opens (opener :: closer :: '\n' :: (spaces behind ++ next)) := opens_cons (by cases brackets <;> decide)
  apply (reads_spaces first stale_nil count).reaches
  apply (reads_brackets brackets (Int.le_of_lt deeper)).reaches
  exact reaches_line opens (startsHere_stale deeper (Nat.lt_succ_self line)) 0 behind

end

end Scan

end WorkflowCompiler.Yaml
