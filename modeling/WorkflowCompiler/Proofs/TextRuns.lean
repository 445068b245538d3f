import Mathlib.Data.List.TakeDrop

/-! Runs of characters at the start of a text. A run of one kind ends where the rest of the text does not
go on with that kind. -/

namespace WorkflowCompiler.Proofs

/-- The rest of a text does not go on with a character of the kind given. -/
def Stops (kind : Char → Bool) (rest : List Char) : Prop := ∀ c ∈ rest.head?, kind c = false

theorem takeWhile_append_of_stops {kind : Char → Bool} {word rest : List Char}
    (all : ∀ c ∈ word, kind c) (stops : Stops kind rest) :
    (word ++ rest).takeWhile kind = word ∧ (word ++ rest).dropWhile kind = rest := by
  rw [List.takeWhile_append_of_pos all, List.dropWhile_append_of_pos all]
  cases rest with
  | nil => simp
  | cons c rest =>
    have other : kind c = false := stops c rfl
    simp [other]

/-- A run that is empty. -/
theorem takeWhile_of_stops {kind : Char → Bool} {rest : List Char} (stops : Stops kind rest) : rest.takeWhile kind = [] := by
  have none : ∀ c ∈ ([] : List Char), kind c := fun _ member => absurd member List.not_mem_nil
  simpa using (takeWhile_append_of_stops none stops).1

end WorkflowCompiler.Proofs
