import WorkflowCompiler.Proofs.Formula
import WorkflowCompiler.Proofs.TextRuns
import Mathlib

/-! The text of a formula falls into the formula's tokens. A text in quotes ends at its own closing
quote whatever it holds, and a word ends where the formula goes on. -/

namespace WorkflowCompiler.Proofs.FormulaTokens
open RunnerGrammar

theorem tokens_of_token {text after : List Char} {token : Token}
    (found : token? text = some (token, after)) : tokens text = (tokens after).map (token :: ·) := by
  match text, found with
  | c :: rest, found =>
    by_cases blank : c = ' '
    · subst blank
      simp [token?, startsName] at found
    · rw [tokens.eq_3 _ _ blank]
      split
      next missing => simp [missing] at found
      next same =>
        rw [found] at same
        simp only [Option.some.injEq, Prod.mk.injEq] at same
        obtain ⟨rfl, rfl⟩ := same
        rfl

theorem tokens_blank (rest : List Char) : tokens (' ' :: rest) = tokens rest := by
  rw [tokens]

theorem tokens_operator (operator : Operator) (rest : List Char) :
    tokens (operator.text.toList ++ ' ' :: rest) = (tokens rest).map (.operator operator :: ·) := by
  have found : token? (operator.text.toList ++ ' ' :: rest) = some (.operator operator, ' ' :: rest) := by
    cases operator <;> rfl
  rw [tokens_of_token found, tokens_blank]

theorem quoted_doubled (value rest : List Char) (stops : Stops (· == '\'') rest) :
    quoted (value.flatMap (fun c => if c == '\'' then ['\'', '\''] else [c]) ++ '\'' :: rest) =
      some (value, rest) := by
  induction value with
  | nil =>
    cases rest with
    | nil => rfl
    | cons c rest =>
      have other : c ≠ '\'' := by simpa using stops c rfl
      simp [quoted, other]
  | cons c value ih =>
    simp only [beq_iff_eq] at ih ⊢
    by_cases quote : c = '\''
    · subst quote
      simp [quoted, ih]
    · simp [quoted, quote, ih]

theorem tokens_text (value : String) (rest : List Char) (stops : Stops (· == '\'') rest) :
    tokens ((Build.quotedLiteral value).toList ++ rest) = (tokens rest).map (.text value :: ·) := by
  apply tokens_of_token
  simp only [Build.quotedLiteral, String.toList_ofList, List.cons_append, List.append_assoc,
    List.nil_append, token?, quoted_doubled value.toList rest stops]
  simp

theorem isDigit_of_startsName {c : Char} (starts : startsName c) : c.isDigit = false := by
  rw [Bool.eq_false_iff]
  intro digit
  simp only [startsName, Char.isAlpha, Char.isUpper, Char.isLower, Char.isDigit, Bool.or_eq_true,
    Bool.and_eq_true, decide_eq_true_eq, beq_iff_eq, ge_iff_le, UInt32.le_iff_toNat_le] at starts digit
  rcases starts with (starts | starts) | rfl
  · have : 'A'.val.toNat = 65 := rfl
    have : '9'.val.toNat = 57 := rfl
    omega
  · have : 'a'.val.toNat = 97 := rfl
    have : '9'.val.toNat = 57 := rfl
    omega
  · exact absurd digit.2 (by decide)

theorem token?_startsName {c : Char} (starts : startsName c) (rest : List Char) :
    token? (c :: rest) =
      some (.name (String.ofList (c :: rest.takeWhile continuesName)), rest.dropWhile continuesName) := by
  have notDigit := isDigit_of_startsName starts
  unfold token?
  split <;> simp_all [startsName]

theorem tokens_name {name : String} (valid : isName name) (rest : List Char)
    (stops : Stops continuesName rest) :
    tokens (name.toList ++ rest) = (tokens rest).map (.name name :: ·) := by
  simp only [isName] at valid
  split at valid
  · simp at valid
  next first word chars =>
    simp only [Bool.and_eq_true, List.all_eq_true] at valid
    obtain ⟨starts, continues⟩ := valid
    apply tokens_of_token
    obtain ⟨taken, dropped⟩ := takeWhile_append_of_stops continues stops
    rw [chars, List.cons_append, token?_startsName starts, taken, dropped, ← chars, String.ofList_toList]

theorem number_digits (value : Nat) (sign : Nat → Int) (rest : List Char) (stops : Stops Char.isDigit rest) :
    number sign (Nat.toDigits 10 value ++ rest) = some (.int (sign value), rest) := by
  have digits : ∀ c ∈ Nat.toDigits 10 value, c.isDigit := fun c member =>
    Nat.isDigit_of_mem_toDigits (by decide) (by decide) member
  obtain ⟨taken, dropped⟩ := takeWhile_append_of_stops digits stops
  simp [number, taken, dropped, Nat.toDigits_ne_nil, Nat.ofDigitChars_ten_toDigits]

theorem token?_digit {c : Char} (digit : c.isDigit) (rest : List Char) :
    token? (c :: rest) = number Int.ofNat (c :: rest) := by
  unfold token?
  split <;> simp_all

theorem tokens_int (value : Int) (rest : List Char) (stops : Stops Char.isDigit rest) :
    tokens ((toString value).toList ++ rest) = (tokens rest).map (.int value :: ·) := by
  apply tokens_of_token
  cases value with
  | ofNat value =>
    have shown : (toString (Int.ofNat value)).toList = Nat.toDigits 10 value := Nat.toList_repr
    rw [shown, ← number_digits value Int.ofNat rest stops]
    cases digits : Nat.toDigits 10 value with
    | nil => exact absurd digits Nat.toDigits_ne_nil
    | cons c more =>
      exact token?_digit (Nat.isDigit_of_mem_toDigits (by decide) (by decide) (digits ▸ List.mem_cons_self)) _
  | negSucc value =>
    have shown : (toString (Int.negSucc value)).toList = '-' :: Nat.toDigits 10 (value + 1) := by
      show ("-" ++ (value + 1).repr).toList = _
      rw [String.toList_append, Nat.toList_repr]
      rfl
    rw [shown]
    exact number_digits (value + 1) (fun size => -(size : Int)) rest stops


/-- The rest of a text after a whole formula. -/
def Ends (rest : List Char) : Prop := Stops (fun c => !(c == ' ' || c == ',' || c == ')')) rest

theorem Ends.stops {kind : Char → Bool} {rest : List Char} (ends : Ends rest)
    (blank : kind ' ' = false) (comma : kind ',' = false) (closing : kind ')' = false) :
    Stops kind rest := by
  intro c first
  have separates := ends c first
  simp only [Bool.not_eq_false', Bool.or_eq_true, beq_iff_eq] at separates
  rcases separates with (rfl | rfl) | rfl
  · exact blank
  · exact comma
  · exact closing

/-- The characters are read as the tokens, whatever comes after them. -/
def Lexes (chars : List Char) (read : List Token) : Prop :=
  ∀ rest, Ends rest → tokens (chars ++ rest) = (tokens rest).map (read ++ ·)

theorem lexes_name {name : String} (valid : isName name) : Lexes name.toList [.name name] :=
  fun rest ends => tokens_name valid rest (ends.stops rfl rfl rfl)

theorem lexes_dotted {segments : List Label} (names : ∀ segment ∈ segments, isName segment.chars) :
    Lexes (dotted segments).toList
      ([Token.dot].intercalate (segments.map fun segment => [.name segment.chars])) := by
  induction segments with
  | nil => intro rest ends; simp [dotted]
  | cons first more ih =>
    have valid := names first List.mem_cons_self
    cases more with
    | nil => simpa [dotted] using lexes_name valid
    | cons second more =>
      intro rest ends
      have later := ih (fun segment member => names segment (List.mem_cons_of_mem _ member)) rest ends
      have chars : (dotted (first :: second :: more)).toList ++ rest =
          first.chars.toList ++ '.' :: ((dotted (second :: more)).toList ++ rest) := by
        simp [dotted]
      rw [chars, tokens_name valid _ (by intro c head; cases head; rfl), tokens_of_token rfl, later]
      simp [Function.comp_def]

theorem Lexes.spaced {left right : List Char} {leftRead rightRead : List Token} (operator : Operator)
    (first : Lexes left leftRead) (second : Lexes right rightRead) :
    Lexes (Formula.spaced operator left right) (leftRead ++ .operator operator :: rightRead) := by
  intro rest ends
  have chars : Formula.spaced operator left right ++ rest =
      left ++ ' ' :: (operator.text.toList ++ ' ' :: (right ++ rest)) := by
    simp [Formula.spaced]
  rw [chars, first _ (by intro c head; cases head; rfl), tokens_blank, tokens_operator, second rest ends]
  simp [Function.comp_def]

theorem Lexes.enclosed {chars : List Char} {read : List Token} (inner : Lexes chars read) (compound : Bool) :
    Lexes (Formula.enclosed '(' ')' compound chars) (Formula.enclosed .opening .closing compound read) := by
  cases compound with
  | false => exact inner
  | true =>
    intro rest ends
    have closed : tokens (')' :: rest) = (tokens rest).map (.closing :: ·) := tokens_of_token rfl
    simp only [Formula.enclosed, if_true, List.cons_append, List.append_assoc, List.nil_append]
    rw [tokens_of_token rfl, inner _ (by intro c head; cases head; rfl), closed]
    simp [Function.comp_def]

/-- The operand of `!` is composed, so that no equals sign follows. -/
theorem enclosed_head {formula : Formula} (composed : formula.isComposed) :
    ∃ c more, Formula.enclosed '(' ')' formula.isCompound formula.chars = c :: more ∧ c ≠ '=' := by
  cases formula with
  | call function arguments =>
    cases function <;> exact ⟨_, _, rfl, by decide⟩
  | compare | combine | group | negated => exact ⟨_, _, rfl, by decide⟩
  | null | bool | int | text | path => simp [Formula.isComposed, Formula.isCompound] at composed

theorem token?_negation {c : Char} (other : c ≠ '=') (rest : List Char) :
    token? ('!' :: c :: rest) = some (.negation, c :: rest) := by
  simp [token?, other]

theorem isName_function (function : RunnerFunction) : isName function.name := by
  cases function <;> decide

mutual

theorem lexes_formula (formula : Formula) (valid : formula.WellFormed) : Lexes formula.chars formula.tokens := by
  cases formula with
  | null => exact lexes_name (by decide)
  | bool value => exact lexes_name (by cases value <;> decide)
  | int value => exact fun rest ends => tokens_int value rest (ends.stops rfl rfl rfl)
  | text value => exact fun rest ends => tokens_text value rest (ends.stops rfl rfl rfl)
  | path segments => exact lexes_dotted valid.1
  | call function arguments =>
    intro rest ends
    have inner := lexes_arguments arguments valid.2 rest
    simp only [Formula.chars, Formula.tokens, List.append_assoc, List.cons_append, List.nil_append]
    rw [tokens_name (isName_function function) _ (by intro c head; cases head; rfl), tokens_of_token rfl, inner]
    simp [Function.comp_def]
  | compare operator left right =>
    exact .spaced operator (lexes_formula left valid.2.2.2.1) (lexes_formula right valid.2.2.2.2)
  | group inner => exact (lexes_formula inner valid).enclosed true
  | combine operator left right =>
    exact .spaced operator ((lexes_formula left valid.2.2.1).enclosed _) ((lexes_formula right valid.2.2.2).enclosed _)
  | negated inner =>
    intro rest ends
    have operand := (lexes_formula inner valid.2).enclosed inner.isCompound rest ends
    obtain ⟨c, more, chars, other⟩ := enclosed_head valid.1
    simp only [Formula.chars, Formula.tokens, List.cons_append]
    rw [chars, List.cons_append] at operand ⊢
    rw [tokens_of_token (token?_negation other _), operand]
    simp [Function.comp_def]

theorem lexes_arguments (formulas : List Formula) (valid : Formula.AllWellFormed formulas) (rest : List Char) :
    tokens ([',', ' '].intercalate (Formula.allChars formulas) ++ ')' :: rest) =
      (tokens rest).map ([Token.comma].intercalate (Formula.allTokens formulas) ++ .closing :: ·) := by
  have closed : tokens (')' :: rest) = (tokens rest).map (.closing :: ·) := tokens_of_token rfl
  cases formulas with
  | nil => simpa [Formula.allChars, Formula.allTokens] using closed
  | cons first more =>
    have one := lexes_formula first valid.1
    have later := lexes_arguments more valid.2 rest
    cases more with
    | nil =>
      simp only [Formula.allChars, Formula.allTokens, List.intercalate_singleton]
      rw [one _ (by intro c head; cases head; rfl), closed]
      simp [Function.comp_def]
    | cons second more =>
      simp only [Formula.allChars, Formula.allTokens, List.intercalate_cons_cons, List.append_assoc, List.cons_append, List.nil_append] at later ⊢
      rw [one _ (by intro c head; cases head; rfl), tokens_of_token rfl, tokens_blank, later]
      simp [Function.comp_def]

end

/-- The tokens of a text that is a formula and nothing else. -/
theorem tokens_chars (formula : Formula) (valid : formula.WellFormed) :
    tokens formula.chars = some formula.tokens := by
  have whole := lexes_formula formula valid [] (by intro c head; cases head)
  simpa [tokens] using whole

end WorkflowCompiler.Proofs.FormulaTokens
