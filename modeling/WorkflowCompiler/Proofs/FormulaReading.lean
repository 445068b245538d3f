import WorkflowCompiler.Proofs.FormulaTokens

/-! The runner reads the text of a formula as the term that the formula stands for. What a reader
needs is that it may nest twice as deep as it has tokens to read, and that no operator follows. -/

namespace WorkflowCompiler.Proofs.FormulaReading
open RunnerGrammar

/-- What may come after a whole expression. -/
def Closes (rest : List Token) : Prop := ∀ token ∈ rest.head?, token = .closing ∨ token = .comma

/-- What may come after an operand. -/
def Follows (rest : List Token) : Prop :=
  ∀ token ∈ rest.head?, token = .closing ∨ token = .comma ∨ ∃ operator, token = .operator operator

theorem Closes.follows {rest : List Token} (closes : Closes rest) : Follows rest := by
  intro token head
  rcases closes token head with same | same
  · exact .inl same
  · exact .inr (.inl same)

/-- The tokens are an operand for every reader that may nest deep enough. -/
def Reads (read : List Token) (term : Term) : Prop :=
  ∀ depth rest, 2 * read.length ≤ depth → Follows rest → operand depth (read ++ rest) = some (term, rest)

/-- The tokens are an expression for every reader that may nest deep enough. -/
def ReadsWhole (read : List Token) (term : Term) : Prop :=
  ∀ depth rest, 2 * read.length < depth → Closes rest → expression depth 0 (read ++ rest) = some (term, rest)

theorem expressionAfter_closes {rest : List Token} (closes : Closes rest) (depth weakest : Nat) (term : Term) :
    expressionAfter (depth + 1) weakest term rest = some (term, rest) := by
  cases rest with
  | nil => rfl
  | cons token rest =>
    rcases closes token rfl with rfl | rfl
    · rfl
    · rfl

theorem Reads.expression {read : List Token} {term : Term} (reads : Reads read term) (nonempty : read ≠ [])
    {depth : Nat} {rest : List Token} (weakest : Nat) (enough : 2 * read.length < depth) (closes : Closes rest) :
    expression depth weakest (read ++ rest) = some (term, rest) := by
  have length := List.length_pos_iff.mpr nonempty
  obtain ⟨depth, rfl⟩ : ∃ inner, depth = inner + 2 := ⟨depth - 2, by omega⟩
  rw [RunnerGrammar.expression, reads _ _ (by omega) closes.follows]
  exact expressionAfter_closes closes _ _ _

theorem Reads.whole {read : List Token} {term : Term} (reads : Reads read term) (nonempty : read ≠ []) :
    ReadsWhole read term :=
  fun _ _ enough closes => reads.expression nonempty 0 enough closes

theorem Reads.binary {left right : List Token} {leftTerm rightTerm : Term} (operator : Operator)
    (first : Reads left leftTerm) (second : Reads right rightTerm) (nonempty : left ≠ []) (nonemptyRight : right ≠ []) :
    ReadsWhole (left ++ .operator operator :: right) (.binary operator leftTerm rightTerm) := by
  intro depth rest enough closes
  have length := List.length_pos_iff.mpr nonempty
  simp only [List.length_append, List.length_cons] at enough
  obtain ⟨depth, rfl⟩ : ∃ inner, depth = inner + 3 := ⟨depth - 3, by omega⟩
  rw [RunnerGrammar.expression, List.append_assoc, List.cons_append,
    first _ _ (by omega) (by intro token head; cases head; exact .inr (.inr ⟨operator, rfl⟩))]
  simp only [Option.bind_eq_bind, Option.bind_some, expressionAfter, Nat.not_lt_zero, if_false]
  rw [second.expression nonemptyRight _ (by omega) closes]
  exact expressionAfter_closes closes _ _ _

theorem ReadsWhole.enclosed {read : List Token} {term : Term} (inner : ReadsWhole read term) :
    Reads (.opening :: read ++ [.closing]) term := by
  intro depth rest enough _
  simp only [List.length_append, List.length_cons, List.length_nil] at enough
  obtain ⟨depth, rfl⟩ : ∃ inner, depth = inner + 1 := ⟨depth - 1, by omega⟩
  have closing : Closes (.closing :: rest) := by intro token head; cases head; exact .inl rfl
  simp only [List.cons_append, List.append_assoc, List.nil_append, operand]
  rw [inner _ _ (by omega) closing]
  rfl

theorem Reads.negation {read : List Token} {term : Term} (inner : Reads read term) :
    Reads (.negation :: read) (.negation term) := by
  intro depth rest enough follows
  simp only [List.length_cons] at enough
  obtain ⟨depth, rfl⟩ : ∃ inner, depth = inner + 1 := ⟨depth - 1, by omega⟩
  simp only [List.cons_append, operand]
  rw [inner _ _ (by omega) follows]
  rfl

theorem segmentsAfter_follows {rest : List Token} (follows : Follows rest) : segmentsAfter rest = ([], rest) := by
  unfold segmentsAfter
  split
  · rcases follows _ rfl with same | same | ⟨_, same⟩ <;> cases same
  · rfl

theorem segmentsAfter_names (names : List String) {rest : List Token} (follows : Follows rest) :
    segmentsAfter (names.flatMap (fun name => [.dot, .name name]) ++ rest) = (names, rest) := by
  induction names with
  | nil => exact segmentsAfter_follows follows
  | cons name names ih => simp [segmentsAfter, ih]

theorem operand_name {first : String} (word : first ∉ keywords) {rest : List Token}
    (called : rest.head? ≠ some .opening) (depth : Nat) :
    operand (depth + 1) (.name first :: rest) =
      some (.reference (first :: (segmentsAfter rest).1), (segmentsAfter rest).2) := by
  unfold operand
  split <;> simp_all [keywords]

theorem operand_call {function : String} (word : function ∉ keywords) (depth : Nat) (rest : List Token) :
    operand (depth + 1) (.name function :: .opening :: rest) =
      (arguments depth rest).bind fun (arguments, rest) => some (.call function arguments, rest) := by
  simp only [keywords, List.mem_cons, List.not_mem_nil, or_false, not_or] at word
  obtain ⟨noNull, noTrue, noFalse⟩ := word
  rw [operand.eq_7 depth function rest noNull noTrue noFalse]
  rfl

theorem reads_path {first : String} (word : first ∉ keywords) (more : List String) :
    Reads (.name first :: more.flatMap fun name => [.dot, .name name]) (.reference (first :: more)) := by
  intro depth rest enough follows
  obtain ⟨depth, rfl⟩ : ∃ inner, depth = inner + 1 := ⟨depth - 1, by simp at enough; omega⟩
  have called : (more.flatMap (fun name => [Token.dot, .name name]) ++ rest).head? ≠ some .opening := by
    cases more with
    | cons => simp
    | nil =>
      intro head
      rcases follows _ head with same | same | ⟨_, same⟩ <;> cases same
  rw [List.cons_append, operand_name word called, segmentsAfter_names more follows]

theorem intercalate_cons (separator : α) (first : List α) (more : List (List α)) :
    [separator].intercalate (first :: more) = first ++ more.flatMap (separator :: ·) := by
  induction more generalizing first with
  | nil => simp
  | cons second more ih => simp [List.intercalate_cons_cons, ih]

theorem expression_closing (depth weakest : Nat) (rest : List Token) :
    expression depth weakest (.closing :: rest) = none := by
  cases depth with
  | zero => rfl
  | succ depth =>
    have none : operand depth (.closing :: rest) = none := by cases depth <;> rfl
    simp [expression, none]

theorem arguments_expression {read rest : List Token} {term : Term} {depth : Nat}
    (found : expression depth 0 read = some (term, rest)) :
    arguments (depth + 1) read = (argumentsAfter depth rest).bind fun (more, rest) => some (term :: more, rest) := by
  have other : ∀ rest, read = .closing :: rest → False := by
    rintro rest rfl
    simp [expression_closing] at found
  rw [arguments.eq_3 read depth other, found]
  rfl

theorem tokens_ne_nil {formula : Formula} (valid : formula.WellFormed) : formula.tokens ≠ [] := by
  cases formula with
  | path segments =>
    obtain ⟨first, head, -⟩ := valid.2
    cases segments with
    | nil => cases head
    | cons => simp [Formula.tokens, intercalate_cons]
  | _ => simp [Formula.tokens, Formula.enclosed]

theorem enclosed_ne_nil {formula : Formula} (valid : formula.WellFormed) :
    Formula.enclosed Token.opening .closing formula.isCompound formula.tokens ≠ [] := by
  cases compound : formula.isCompound with
  | false => exact tokens_ne_nil valid
  | true => simp [Formula.enclosed]

theorem function_ne_keyword (function : RunnerFunction) : function.name ∉ keywords := by
  cases function <;> decide

/-- A formula is read as it is meant: wherever an expression may stand, and also wherever an operand
may stand if it is not compound. -/
structure Readable (formula : Formula) : Prop where
  whole : ReadsWhole formula.tokens formula.meaning
  operand : formula.isCompound = false → Reads formula.tokens formula.meaning

theorem Readable.ofOperand {formula : Formula} (valid : formula.WellFormed)
    (reads : Reads formula.tokens formula.meaning) : Readable formula :=
  ⟨reads.whole (tokens_ne_nil valid), fun _ => reads⟩

theorem Readable.enclosed {formula : Formula} (readable : Readable formula) :
    Reads (Formula.enclosed .opening .closing formula.isCompound formula.tokens) formula.meaning := by
  cases compound : formula.isCompound with
  | false => exact readable.operand compound
  | true => exact readable.whole.enclosed

theorem reads_word {token : Token} {term : Term}
    (read : ∀ depth rest, operand (depth + 1) (token :: rest) = some (term, rest)) : Reads [token] term := by
  intro depth rest enough _
  obtain ⟨depth, rfl⟩ : ∃ inner, depth = inner + 1 := ⟨depth - 1, by simp at enough; omega⟩
  exact read depth rest

theorem closes_arguments (formulas : List Formula) (rest : List Token) :
    Closes ((Formula.allTokens formulas).flatMap (.comma :: ·) ++ .closing :: rest) := by
  intro token head
  cases formulas with
  | nil => cases head; exact .inl rfl
  | cons => cases head; exact .inr rfl

mutual

theorem readable (formula : Formula) (valid : formula.WellFormed) : Readable formula := by
  cases formula with
  | null => exact .ofOperand valid (reads_word fun _ _ => rfl)
  | bool value => exact .ofOperand valid (by cases value <;> exact reads_word fun _ _ => rfl)
  | int value => exact .ofOperand valid (reads_word fun _ _ => rfl)
  | text value => exact .ofOperand valid (reads_word fun _ _ => rfl)
  | path segments =>
    apply Readable.ofOperand valid
    obtain ⟨first, head, word⟩ := valid.2
    cases segments with
    | nil => cases head
    | cons first more =>
      cases head
      simpa [Formula.tokens, Formula.meaning, intercalate_cons, List.flatMap_map] using
        reads_path word (more.map Label.chars)
  | call function arguments =>
    apply Readable.ofOperand valid
    intro depth rest enough _
    simp only [Formula.tokens, List.length_append, List.length_cons, List.length_nil] at enough
    obtain ⟨depth, rfl⟩ : ∃ inner, depth = inner + 1 := ⟨depth - 1, by omega⟩
    simp only [Formula.tokens, Formula.meaning, List.cons_append, List.append_assoc, List.nil_append]
    rw [operand_call (function_ne_keyword function), arguments_read arguments valid.2 depth rest (by omega)]
    rfl
  | compare operator left right =>
    refine ⟨?_, fun compound => Bool.noConfusion compound⟩
    obtain ⟨-, leftOperand, rightOperand, leftValid, rightValid⟩ := valid
    exact ((readable left leftValid).operand leftOperand).binary operator
      ((readable right rightValid).operand rightOperand) (tokens_ne_nil leftValid) (tokens_ne_nil rightValid)
  | group inner => exact .ofOperand valid (readable inner valid).whole.enclosed
  | combine operator left right =>
    refine ⟨?_, fun compound => Bool.noConfusion compound⟩
    obtain ⟨-, -, leftValid, rightValid⟩ := valid
    exact (readable left leftValid).enclosed.binary operator (readable right rightValid).enclosed
      (enclosed_ne_nil leftValid) (enclosed_ne_nil rightValid)
  | negated inner => exact .ofOperand valid (readable inner valid.2).enclosed.negation

theorem arguments_read (formulas : List Formula) (valid : Formula.AllWellFormed formulas) (depth : Nat)
    (rest : List Token)
    (enough : 2 * ([Token.comma].intercalate (Formula.allTokens formulas)).length + 1 < depth) :
    arguments depth ([Token.comma].intercalate (Formula.allTokens formulas) ++ .closing :: rest) =
      some (Formula.meanings formulas, rest) := by
  obtain ⟨depth, rfl⟩ : ∃ inner, depth = inner + 1 := ⟨depth - 1, by omega⟩
  cases formulas with
  | nil => rfl
  | cons first more =>
    simp only [Formula.allTokens, intercalate_cons, List.length_append] at enough
    have one := (readable first valid.1).whole
    have later := argumentsAfter_read more valid.2 depth rest (by omega)
    simp only [Formula.allTokens, intercalate_cons, List.append_assoc]
    have closes := closes_arguments more rest
    rw [arguments_expression (one _ _ (by omega) closes), later]
    rfl

theorem argumentsAfter_read (formulas : List Formula) (valid : Formula.AllWellFormed formulas) (depth : Nat)
    (rest : List Token) (enough : 2 * ((Formula.allTokens formulas).flatMap (Token.comma :: ·)).length < depth) :
    argumentsAfter depth ((Formula.allTokens formulas).flatMap (Token.comma :: ·) ++ .closing :: rest) =
      some (Formula.meanings formulas, rest) := by
  obtain ⟨depth, rfl⟩ : ∃ inner, depth = inner + 1 := ⟨depth - 1, by omega⟩
  cases formulas with
  | nil => rfl
  | cons first more =>
    simp only [Formula.allTokens, List.flatMap_cons, List.length_append, List.length_cons] at enough
    have one := (readable first valid.1).whole
    have later := argumentsAfter_read more valid.2 depth rest (by omega)
    have closes := closes_arguments more rest
    simp only [Formula.allTokens, List.flatMap_cons, List.cons_append, List.append_assoc, argumentsAfter]
    rw [one _ _ (by omega) closes]
    simp only [Option.bind_eq_bind, Option.bind_some]
    rw [later]
    rfl

end

/-- The text of a formula has one reading, and it is the one that is meant. -/
theorem parse_chars (formula : Formula) (valid : formula.WellFormed) :
    parse (String.ofList formula.chars) = some formula.meaning := by
  have whole := (readable formula valid).whole (2 * formula.tokens.length + 1) [] (by omega)
    (by intro token head; cases head)
  rw [List.append_nil] at whole
  simp only [parse, String.toList_ofList, FormulaTokens.tokens_chars formula valid, whole,
    Option.bind_eq_bind, Option.bind_some]
  rfl

end WorkflowCompiler.Proofs.FormulaReading
