import WorkflowCompiler.Proofs.LiteralBlocks
import WorkflowCompiler.Proofs.QuotedScalars
import Mathlib.Data.List.Basic

/-! Scanning inside block collections. Between two tokens blanks and line breaks are skipped, starts of keys on earlier lines
are forgotten and collections that are indented further are closed; a scan is read as another one if it goes on like
that one from there. A scalar is read together with the end of its line. -/

namespace WorkflowCompiler.Yaml
open Proofs (Stops)

namespace Scan

/-- Where the next token stands. -/
def settle (scan : Scan) : Scan := scan.toNextToken (scan.cursor.rest.length + 1)

/-- The scan as it is when the next token is read. -/
def ready (scan : Scan) : Option Scan := do
  let scan ← scan.settle.dropStale
  return scan.unwind scan.cursor.column

/-- A scan outside all brackets. -/
def stand (cursor : Cursor) (indent : Int) (outer : List Int) (allowed : Bool) (starts : List KeyStart)
    (reversed : List Token) : Scan :=
  { cursor, reversed, count := reversed.length, indent, outer, starts, keyAllowed := allowed }

/-- The first scan goes on like the second one once it has read up to there. -/
def Reads (before after : Scan) : Prop :=
  ∃ cost, cost + after.cursor.rest.length ≤ before.cursor.rest.length ∧ ∀ fuel, before.finish (fuel + cost) = after.finish fuel

theorem Reads.trans {first second third : Scan} (before : first.Reads second) (after : second.Reads third) : first.Reads third := by
  obtain ⟨cost, shorter, same⟩ := before
  obtain ⟨more, shorter', same'⟩ := after
  refine ⟨more + cost, by omega, fun fuel => ?_⟩
  rw [← Nat.add_assoc, same, same']

theorem finish_succ (fuel : Nat) (scan : Scan) :
    scan.finish (fuel + 1) = scan.ready.bind fun scan =>
      if scan.cursor.atEnd then (scan.unwind (-1)).dropStart.bind fun scan => some scan.reversed.reverse
      else scan.fetch.bind fun scan => scan.finish fuel := by
  rw [finish, ready, settle]
  cases (scan.toNextToken (scan.cursor.rest.length + 1)).dropStale with
  | none => rfl
  | some scan => rfl

theorem reads_of_ready {before after : Scan} (same : before.ready = after.ready)
    (shorter : after.cursor.rest.length ≤ before.cursor.rest.length) : before.Reads after := by
  refine ⟨0, by omega, fun fuel => ?_⟩
  cases fuel with
  | zero => rfl
  | succ fuel => rw [Nat.add_zero, finish_succ, finish_succ, same]

theorem reads_of_fetch {before here after : Scan} (settled : before.ready = some here) (going : here.cursor.rest ≠ [])
    (fetched : here.fetch = some after) (shorter : after.cursor.rest.length < before.cursor.rest.length) : before.Reads after := by
  refine ⟨1, by omega, fun fuel => ?_⟩
  have inside : here.cursor.atEnd = false := by simpa [Cursor.atEnd] using going
  rw [finish_succ, settled, Option.bind_some, inside, fetched]
  rfl

section
variable {next rest : List Char} {index line column : Nat} {indent : Int} {outer : List Int} {allowed : Bool}
  {starts : List KeyStart} {reversed : List Token}

theorem toNextToken_opens (opens : Opens next) (count fuel : Nat) :
    (stand ⟨spaces count ++ next, index, line, column⟩ indent outer allowed starts reversed).toNextToken (fuel + 1) =
      stand ⟨next, index + count, line, column + count⟩ indent outer allowed starts reversed := by
  have skipped : Cursor.skipWhile (fun c => c == ' ' || (false && c == '\t')) ⟨spaces count ++ next, index, line, column⟩ = _ :=
    Cursor.skipWhile_spaces rfl count (by
      intro c member
      simpa using (opens c member).1)
  obtain ⟨-, comment, going⟩ := opens.peek (index + count) line (column + count)
  rw [stand, toNextToken]
  simp only [inFlow, List.isEmpty_nil, Bool.not_true, skipped, comment, going, Bool.false_eq_true, if_false]
  rfl

theorem settle_opens (opens : Opens next) (count : Nat) :
    (stand ⟨spaces count ++ next, index, line, column⟩ indent outer allowed starts reversed).settle =
      stand ⟨next, index + count, line, column + count⟩ indent outer allowed starts reversed :=
  toNextToken_opens opens count _

/-- The end of a line is skipped together with the margin of the next one, and a key may start there. -/
theorem settle_line (opens : Opens next) (count behind : Nat) :
    (stand ⟨spaces count ++ '\n' :: (spaces behind ++ next), index, line, column⟩ indent outer allowed starts reversed).settle =
      stand ⟨next, index + count + 1 + behind, line + 1, behind⟩ indent outer true starts reversed := by
  have skipped : Cursor.skipWhile (fun c => c == ' ' || (false && c == '\t'))
      ⟨spaces count ++ '\n' :: (spaces behind ++ next), index, line, column⟩ = _ :=
    Cursor.skipWhile_spaces rfl count (by
      intro c member
      cases member
      rfl)
  have feed : isAnyBreak '\n' = true := rfl
  have comment : ('\n' == '#') = false := rfl
  obtain ⟨fuel, enough⟩ : ∃ fuel, (spaces count ++ '\n' :: (spaces behind ++ next)).length = fuel + 1 := ⟨_, by simp; rfl⟩
  have moved : (stand ⟨spaces behind ++ next, index + count + 1, line + 1, 0⟩ indent outer true starts reversed).toNextToken
      (fuel + 1) = _ := toNextToken_opens opens behind fuel
  rw [Nat.zero_add] at moved
  rw [settle, stand, toNextToken]
  simp only [inFlow, List.isEmpty_nil, Bool.not_true, skipped, Cursor.peek_cons, comment, Bool.false_eq_true, if_false, feed,
    if_true, scanBreak_feed, Bool.not_false, Bool.or_true]
  rw [enough]
  exact moved

/-- Starts of keys that nothing needs, on earlier lines. -/
def Stale (starts : List KeyStart) (line : Nat) : Prop := ∀ start ∈ starts, start.required = false ∧ start.line < line

theorem stale_nil : Stale [] line := by
  intro start member
  cases member

theorem dropStale_stale (stale : Stale starts line) :
    (stand ⟨next, index, line, column⟩ indent outer allowed starts reversed).dropStale =
      some (stand ⟨next, index, line, column⟩ indent outer allowed [] reversed) := by
  have unneeded : (starts.any fun start => (start.line != line || decide (index - start.index > 1024)) && start.required) = false := by
    rw [List.any_eq_false]
    intro start member
    simp [(stale start member).1]
  have dropped : (starts.filter fun start => !(start.line != line || decide (index - start.index > 1024))) = [] := by
    rw [List.filter_eq_nil_iff]
    intro start member
    have earlier := (stale start member).2
    simp [Nat.ne_of_lt earlier]
  rw [stand, dropStale]
  simp only [unneeded, dropped, Bool.false_eq_true, if_false]
  rfl

/-- A key may have started on this line, not too far back. -/
theorem dropStale_fresh {start : KeyStart} (same : start.line = line) (near : index - start.index ≤ 1024) :
    (stand ⟨next, index, line, column⟩ indent outer allowed [start] reversed).dropStale =
      some (stand ⟨next, index, line, column⟩ indent outer allowed [start] reversed) := by
  have within : ¬1024 < index - start.index := by omega
  simp [stand, dropStale, same, within]

theorem unwind_inside (inside : indent ≤ column) :
    (stand ⟨next, index, line, column⟩ indent outer allowed starts reversed).unwind column =
      stand ⟨next, index, line, column⟩ indent outer allowed starts reversed := by
  have kept : ¬indent > column := by omega
  rw [unwind, stand]
  cases outer with
  | nil => rfl
  | cons lower outer => simp [inFlow, unwind.go, kept]

/-- What stands behind a collection closes it. -/
theorem unwind_outside {lower : Int} (outside : column < indent) :
    (stand ⟨next, index, line, column⟩ indent (lower :: outer) allowed starts reversed).unwind column =
      (stand ⟨next, index, line, column⟩ lower outer allowed starts (.blockEnd :: reversed)).unwind column := by
  have closed : indent > (column : Int) := outside
  rw [unwind, unwind]
  simp only [stand, inFlow, List.isEmpty_nil, Bool.not_true, Bool.false_eq_true, if_false, unwind.go, if_pos closed]
  rfl

theorem ready_opens (opens : Opens next) (stale : Stale starts line) (count : Nat) (inside : indent ≤ (column + count : Nat)) :
    (stand ⟨spaces count ++ next, index, line, column⟩ indent outer allowed starts reversed).ready =
      some (stand ⟨next, index + count, line, column + count⟩ indent outer allowed [] reversed) := by
  rw [ready, settle_opens opens, dropStale_stale stale]
  exact congrArg some (unwind_inside inside)

/-- A position is as good as the one behind the spaces that follow it. -/
theorem ready_behind (opens : Opens next) (stale : Stale starts line) (count : Nat) :
    (stand ⟨spaces count ++ next, index, line, column⟩ indent outer allowed starts reversed).ready =
      some ((stand ⟨next, index + count, line, column + count⟩ indent outer allowed [] reversed).unwind (column + count : Nat)) := by
  rw [ready, settle_opens opens, dropStale_stale stale]
  rfl

theorem ready_here (opens : Opens next) (stale : Stale starts line) :
    (stand ⟨next, index, line, column⟩ indent outer allowed starts reversed).ready =
      some ((stand ⟨next, index, line, column⟩ indent outer allowed [] reversed).unwind column) :=
  ready_behind opens stale 0

theorem ready_fresh {start : KeyStart} (opens : Opens next) (same : start.line = line) (near : index - start.index ≤ 1024)
    (inside : indent ≤ column) :
    (stand ⟨next, index, line, column⟩ indent outer allowed [start] reversed).ready =
      some (stand ⟨next, index, line, column⟩ indent outer allowed [start] reversed) := by
  have settled : (stand ⟨spaces 0 ++ next, index, line, column⟩ indent outer allowed [start] reversed).settle = _ := settle_opens opens 0
  rw [spaces_zero, List.nil_append] at settled
  rw [ready, settled]
  simp only [Nat.add_zero, dropStale_fresh same near]
  exact congrArg some (unwind_inside inside)

/-- Behind a token that ends its line the scan goes on with the next line. -/
theorem reads_line (opens : Opens next) (stale : Stale starts (line + 1)) (count behind : Nat) :
    (stand ⟨spaces count ++ '\n' :: (spaces behind ++ next), index, line, column⟩ indent outer allowed starts reversed).Reads
      (stand ⟨next, index + count + 1 + behind, line + 1, behind⟩ indent outer true [] reversed) := by
  apply reads_of_ready
  · rw [ready, settle_line opens, dropStale_stale stale, ready_here opens stale_nil]
    rfl
  · simp [stand]
    omega

/-- What stands further out closes the collection before it. -/
theorem reads_outside {lower : Int} (opens : Opens next) (stale : Stale starts line) (outside : column < indent) :
    (stand ⟨next, index, line, column⟩ indent (lower :: outer) allowed starts reversed).Reads
      (stand ⟨next, index, line, column⟩ lower outer allowed starts (.blockEnd :: reversed)) := by
  apply reads_of_ready
  · rw [ready_here opens stale, ready_here opens stale, unwind_outside outside]
  · exact Nat.le_refl _

/-- A position is as good as the one behind the spaces that follow it, and old starts of keys may be forgotten. -/
theorem reads_spaces (opens : Opens next) (stale : Stale starts line) (count : Nat) :
    (stand ⟨spaces count ++ next, index, line, column⟩ indent outer allowed starts reversed).Reads
      (stand ⟨next, index + count, line, column + count⟩ indent outer allowed [] reversed) := by
  apply reads_of_ready
  · rw [ready_behind opens stale, ready_here opens stale_nil]
  · simp [stand]

end

end Scan

end WorkflowCompiler.Yaml
