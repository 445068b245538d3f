import WorkflowCompiler.Proofs.TextRuns
import WorkflowCompiler.Yaml.ScalarText
import WorkflowCompiler.Yaml.Tokens

/-! How the position in a document moves. Characters of one line take a column each; a line feed
goes to the next line. What stands at the start of a line, behind its indentation, is text that
opens: reading spaces or a line break in front of it stops there. -/

namespace WorkflowCompiler.Yaml
open Proofs (Stops takeWhile_append_of_stops takeWhile_of_stops)

/-- A character that takes one column of its line. -/
def isInline (c : Char) : Bool := c != '\n' && c != '\r' && c != '\uFEFF'

/-- Neither a blank nor a break nor a comment stands first. -/
def Opens (text : List Char) : Prop := ∀ c ∈ text.head?, c ≠ ' ' ∧ c ≠ '\t' ∧ c ≠ '#' ∧ isAnyBreak c = false

theorem opens_nil : Opens [] := by
  intro c member
  cases member

theorem opens_cons {c : Char} {rest : List Char} (ink : c ≠ ' ' ∧ c ≠ '\t' ∧ c ≠ '#' ∧ isAnyBreak c = false) :
    Opens (c :: rest) := by
  intro d member
  cases member
  exact ink

theorem Opens.append {text : List Char} (opens : Opens text) (some : text ≠ []) (rest : List Char) : Opens (text ++ rest) := by
  cases text with
  | nil => exact absurd rfl some
  | cons c text => exact opens_cons (opens c rfl)

@[simp] theorem length_spaces (count : Nat) : (spaces count).length = count := List.length_replicate

theorem eq_of_mem_spaces {c : Char} {count : Nat} (member : c ∈ spaces count) : c = ' ' := List.eq_of_mem_replicate member

@[simp] theorem spaces_zero : spaces 0 = [] := rfl

theorem spaces_succ (count : Nat) : spaces (count + 1) = ' ' :: spaces count := rfl

theorem spaces_add (first second : Nat) : spaces (first + second) = spaces first ++ spaces second :=
  List.replicate_append_replicate.symm

namespace Cursor
section
variable {text rest : List Char} {c : Char} {index line column : Nat}

@[simp] theorem peek_cons : peek ⟨c :: rest, index, line, column⟩ = c := rfl

@[simp] theorem peek_nil : peek ⟨[], index, line, column⟩ = '\x00' := rfl

@[simp] theorem atEnd_cons : atEnd ⟨c :: rest, index, line, column⟩ = false := rfl

theorem next_inline (inline : isInline c = true) :
    next ⟨c :: rest, index, line, column⟩ = ⟨rest, index + 1, line, column + 1⟩ := by
  simp only [isInline, Bool.and_eq_true, bne_iff_ne] at inline
  simp [next, inline.1.1, inline.1.2, inline.2]

@[simp] theorem next_feed : next ⟨'\n' :: rest, index, line, column⟩ = ⟨rest, index + 1, line + 1, 0⟩ := rfl

@[simp] theorem next_space : next ⟨' ' :: rest, index, line, column⟩ = ⟨rest, index + 1, line, column + 1⟩ := rfl

theorem skip_inline (inline : ∀ c ∈ text, isInline c = true) :
    skip ⟨text ++ rest, index, line, column⟩ text.length = ⟨rest, index + text.length, line, column + text.length⟩ := by
  induction text generalizing index column with
  | nil => rfl
  | cons c text ih =>
    rw [List.length_cons, skip, List.cons_append, next_inline (inline c List.mem_cons_self)]
    rw [ih fun d member => inline d (List.mem_cons_of_mem c member)]
    congr 1 <;> omega

/-- Reading what is written goes back no line, and where no line ends in it each character takes a column. -/
structure Passes (written : List Char) (before after : Cursor) : Prop where
  later : before.line ≤ after.line
  exactly : '\n' ∉ written → after.index = before.index + written.length ∧ after.line = before.line ∧
    after.column = before.column + written.length

theorem passes_inline : Passes text ⟨text ++ rest, index, line, column⟩ ⟨rest, index + text.length, line, column + text.length⟩ :=
  ⟨Nat.le_refl _, fun _ => ⟨rfl, rfl, rfl⟩⟩

theorem passes_feed {before after : Cursor} (feed : '\n' ∈ text) (later : before.line ≤ after.line) : Passes text before after :=
  ⟨later, fun unbroken => absurd feed unbroken⟩

theorem Passes.columns {before : List Char} {index' line' column' : Nat}
    (passes : Passes text ⟨before, index, line, column⟩ ⟨rest, index', line', column'⟩) (unbroken : '\n' ∉ text) :
    index' = index + text.length ∧ line' = line ∧ column' = column + text.length := passes.exactly unbroken

theorem Passes.append {front back : List Char} {before middle after : Cursor} (first : Passes front before middle)
    (second : Passes back middle after) : Passes (front ++ back) before after := by
  refine ⟨Nat.le_trans first.later second.later, fun unbroken => ?_⟩
  rw [List.mem_append, not_or] at unbroken
  obtain ⟨index, line, column⟩ := first.exactly unbroken.1
  obtain ⟨index', line', column'⟩ := second.exactly unbroken.2
  rw [List.length_append]
  omega

/-- A byte order mark takes no column, but it ends no line either. -/
theorem skip_within_line (within : ∀ c ∈ text, c ≠ '\n' ∧ c ≠ '\r') :
    ∃ after, skip ⟨text ++ rest, index, line, column⟩ text.length = ⟨rest, index + text.length, line, after⟩ := by
  induction text generalizing index column with
  | nil => exact ⟨column, rfl⟩
  | cons c text ih =>
    have here := within c List.mem_cons_self
    obtain ⟨after, same⟩ : ∃ after, next ⟨c :: (text ++ rest), index, line, column⟩ = ⟨text ++ rest, index + 1, line, after⟩ := by
      by_cases mark : c = '\uFEFF'
      · exact ⟨column, by simp [next, mark]⟩
      · exact ⟨column + 1, next_inline (by simp [isInline, here, mark])⟩
    obtain ⟨final, moved⟩ : ∃ final, skip ⟨text ++ rest, index + 1, line, after⟩ text.length = _ :=
      ih fun d member => within d (List.mem_cons_of_mem c member)
    refine ⟨final, ?_⟩
    rw [List.length_cons, skip, List.cons_append, same, moved]
    congr 1
    omega

theorem inline_spaces (count : Nat) : ∀ c ∈ spaces count, isInline c = true := by
  intro c member
  rw [eq_of_mem_spaces member]
  rfl

theorem skip_spaces (count : Nat) :
    skip ⟨spaces count ++ rest, index, line, column⟩ count = ⟨rest, index + count, line, column + count⟩ := by
  have moved : skip ⟨spaces count ++ rest, index, line, column⟩ (spaces count).length = _ := skip_inline (inline_spaces count)
  simpa using moved

theorem skipWhile_spaces {accepts : Char → Bool} (accepted : accepts ' ' = true) (count : Nat)
    (stops : Stops accepts rest) :
    skipWhile accepts ⟨spaces count ++ rest, index, line, column⟩ = ⟨rest, index + count, line, column + count⟩ := by
  have all : ∀ c ∈ spaces count, accepts c = true := by
    intro c member
    rw [eq_of_mem_spaces member]
    exact accepted
  rw [skipWhile, (takeWhile_append_of_stops all stops).1, length_spaces, skip_spaces]

theorem skipWhile_nothing {accepts : Char → Bool} (stops : Stops accepts rest) :
    skipWhile accepts ⟨rest, index, line, column⟩ = ⟨rest, index, line, column⟩ := by
  rw [skipWhile, takeWhile_of_stops stops]
  rfl

end

end Cursor

@[simp] theorem scanBreak_feed {rest : List Char} {index line column : Nat} :
    scanBreak ⟨'\n' :: rest, index, line, column⟩ = (['\n'], ⟨rest, index + 1, line + 1, 0⟩) := rfl

theorem Opens.not_space {text : List Char} (opens : Opens text) : Stops (· == ' ') text := by
  intro c member
  exact beq_eq_false_iff_ne.mpr (opens c member).1

theorem Opens.peek {text : List Char} (opens : Opens text) (index line column : Nat) :
    (Cursor.peek ⟨text, index, line, column⟩ == ' ') = false ∧ (Cursor.peek ⟨text, index, line, column⟩ == '#') = false ∧
      isAnyBreak (Cursor.peek ⟨text, index, line, column⟩) = false := by
  cases text with
  | nil => exact ⟨rfl, rfl, rfl⟩
  | cons c text =>
    obtain ⟨space, -, comment, ends⟩ := opens c rfl
    exact ⟨beq_eq_false_iff_ne.mpr space, beq_eq_false_iff_ne.mpr comment, ends⟩

end WorkflowCompiler.Yaml
