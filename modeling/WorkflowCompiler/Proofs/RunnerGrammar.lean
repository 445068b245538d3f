import WorkflowCompiler.Choice

/-! How the runner reads an expression: its text as tokens, and the tokens as a term. `!` binds
tighter than the comparisons, these bind tighter than `&&`, and that binds tighter than `||`.
Binary operators associate to the left. -/

namespace WorkflowCompiler.Proofs.RunnerGrammar

inductive Token
  | name (text : String)
  | int (value : Int)
  | text (value : String)
  | operator (value : Operator)
  | negation
  | dot
  | comma
  | opening
  | closing
deriving DecidableEq, Repr

def startsName (c : Char) : Bool := c.isAlpha || c == '_'

def continuesName (c : Char) : Bool := c.isAlphanum || c == '_' || c == '-'

/-- What stands before the quote that closes a text, and what stands after it. Two quotes in the
text are one. -/
def quoted : List Char → Option (List Char × List Char)
  | [] => none
  | '\'' :: '\'' :: rest => do
    let (value, after) ← quoted rest
    return ('\'' :: value, after)
  | '\'' :: rest => some ([], rest)
  | c :: rest => do
    let (value, after) ← quoted rest
    return (c :: value, after)

/-- A whole number after its sign. -/
def number (sign : Nat → Int) (text : List Char) : Option (Token × List Char) :=
  let digits := text.takeWhile Char.isDigit
  if digits.isEmpty then none
  else some (.int (sign (Nat.ofDigitChars 10 digits 0)), text.dropWhile Char.isDigit)

/-- The token at the front of a text. -/
def token? : List Char → Option (Token × List Char)
  | [] => none
  | '(' :: rest => some (.opening, rest)
  | ')' :: rest => some (.closing, rest)
  | ',' :: rest => some (.comma, rest)
  | '.' :: rest => some (.dot, rest)
  | '=' :: '=' :: rest => some (.operator .equal, rest)
  | '!' :: '=' :: rest => some (.operator .notEqual, rest)
  | '<' :: '=' :: rest => some (.operator .lessOrEqual, rest)
  | '>' :: '=' :: rest => some (.operator .greaterOrEqual, rest)
  | '&' :: '&' :: rest => some (.operator .and, rest)
  | '|' :: '|' :: rest => some (.operator .or, rest)
  | '<' :: rest => some (.operator .less, rest)
  | '>' :: rest => some (.operator .greater, rest)
  | '!' :: rest => some (.negation, rest)
  | '\'' :: rest => do
    let (value, after) ← quoted rest
    return (.text (String.ofList value), after)
  | '-' :: rest => number (fun size => -(size : Int)) rest
  | c :: rest =>
    if c.isDigit then number Int.ofNat (c :: rest)
    else if startsName c then
      some (.name (String.ofList (c :: rest.takeWhile continuesName)), rest.dropWhile continuesName)
    else none

theorem length_of_quoted {text value after : List Char} (found : quoted text = some (value, after)) :
    after.length < text.length := by
  fun_induction quoted text generalizing value after with
  | case1 => simp at found
  | case2 rest ih =>
    obtain ⟨⟨inner, last⟩, inside, same⟩ := Option.bind_eq_some_iff.mp found
    have shorter := ih inside
    simp only [pure, Option.some.injEq, Prod.mk.injEq] at same
    obtain ⟨-, rfl⟩ := same
    simp only [List.length_cons]
    omega
  | case3 rest =>
    simp only [Option.some.injEq, Prod.mk.injEq] at found
    obtain ⟨-, rfl⟩ := found
    simp
  | case4 c rest _ _ ih =>
    obtain ⟨⟨inner, last⟩, inside, same⟩ := Option.bind_eq_some_iff.mp found
    have shorter := ih inside
    simp only [pure, Option.some.injEq, Prod.mk.injEq] at same
    obtain ⟨-, rfl⟩ := same
    simp only [List.length_cons]
    omega

theorem length_of_number {sign : Nat → Int} {text after : List Char} {token : Token}
    (found : number sign text = some (token, after)) : after.length < text.length := by
  simp only [number] at found
  split at found
  · simp at found
  next digits =>
    simp only [Option.some.injEq, Prod.mk.injEq] at found
    obtain ⟨-, rfl⟩ := found
    have split : (text.takeWhile Char.isDigit).length + (text.dropWhile Char.isDigit).length = text.length := by
      rw [← List.length_append, List.takeWhile_append_dropWhile]
    have some : 0 < (text.takeWhile Char.isDigit).length :=
      List.length_pos_iff.mpr (by simpa using digits)
    omega

theorem length_of_token? {text after : List Char} {token : Token}
    (found : token? text = some (token, after)) : after.length < text.length := by
  unfold token? at found
  split at found
  case h_15 rest =>
    obtain ⟨⟨value, last⟩, inside, same⟩ := Option.bind_eq_some_iff.mp found
    simp only [pure, Option.some.injEq, Prod.mk.injEq] at same
    obtain ⟨-, rfl⟩ := same
    exact Nat.lt_trans (length_of_quoted inside) (by simp)
  case h_16 rest => exact Nat.lt_trans (length_of_number found) (by simp)
  case h_17 =>
    split at found
    · exact length_of_number found
    · split at found
      · simp only [Option.some.injEq, Prod.mk.injEq] at found
        obtain ⟨-, rfl⟩ := found
        exact Nat.lt_succ_of_le (List.dropWhile_sublist _).length_le
      · simp at found
  case h_1 => simp at found
  all_goals
    simp only [Option.some.injEq, Prod.mk.injEq] at found
    obtain ⟨-, rfl⟩ := found
    simp only [List.length_cons]
    omega

/-- The tokens of a text; blanks separate them. -/
def tokens (text : List Char) : Option (List Token) :=
  match text with
  | [] => some []
  | ' ' :: rest => tokens rest
  | c :: rest =>
    match _found : token? (c :: rest) with
    | none => none
    | some (token, after) => (tokens after).map (token :: ·)
termination_by text.length
decreasing_by
  · simp
  · exact length_of_token? _found

/-- What an expression means to the runner. -/
inductive Term
  | null
  | bool (value : Bool)
  | int (value : Int)
  | text (value : String)
  | reference (segments : List String)
  | call (function : String) (arguments : List Term)
  | negation (operand : Term)
  | binary (operator : Operator) (left right : Term)
deriving Repr

/-- How tightly an operator binds. -/
def strength : Operator → Nat
  | .or => 0
  | .and => 1
  | _ => 2

/-- The segments that follow the first of a reference. -/
def segmentsAfter : List Token → List String × List Token
  | .dot :: .name segment :: rest =>
    let (segments, rest) := segmentsAfter rest
    (segment :: segments, rest)
  | rest => ([], rest)

mutual

/-- Reads an operand: a literal, a reference, a call, a negation, or an expression in parentheses.
Every reader returns the tokens after what it read. -/
def operand : Nat → List Token → Option (Term × List Token)
  | 0, _ => none
  | _ + 1, .int value :: rest => some (.int value, rest)
  | _ + 1, .text value :: rest => some (.text value, rest)
  | _ + 1, .name "null" :: rest => some (.null, rest)
  | _ + 1, .name "true" :: rest => some (.bool true, rest)
  | _ + 1, .name "false" :: rest => some (.bool false, rest)
  | depth + 1, .name function :: .opening :: rest => do
    let (arguments, rest) ← arguments depth rest
    return (.call function arguments, rest)
  | _ + 1, .name first :: rest =>
    let (segments, rest) := segmentsAfter rest
    some (.reference (first :: segments), rest)
  | depth + 1, .negation :: rest => do
    let (term, rest) ← operand depth rest
    return (.negation term, rest)
  | depth + 1, .opening :: rest => do
    let (term, rest) ← expression depth 0 rest
    match rest with
    | .closing :: rest => return (term, rest)
    | _ => none
  | _ + 1, _ => none

/-- Reads an expression whose operators outside of parentheses bind at least as tightly as
`weakest`. -/
def expression : Nat → Nat → List Token → Option (Term × List Token)
  | 0, _, _ => none
  | depth + 1, weakest, tokens => do
    let (left, rest) ← operand depth tokens
    expressionAfter depth weakest left rest

/-- Reads on after a left operand. What an operator takes on its right has only operators that
bind tighter, so that equal ones associate to the left. -/
def expressionAfter : Nat → Nat → Term → List Token → Option (Term × List Token)
  | 0, _, _, _ => none
  | depth + 1, weakest, left, .operator operator :: rest =>
    if strength operator < weakest then some (left, .operator operator :: rest)
    else do
      let (right, rest) ← expression depth (strength operator + 1) rest
      expressionAfter depth weakest (.binary operator left right) rest
  | _ + 1, _, left, rest => some (left, rest)

/-- Reads the arguments of a call and the parenthesis that closes it. -/
def arguments : Nat → List Token → Option (List Term × List Token)
  | 0, _ => none
  | _ + 1, .closing :: rest => some ([], rest)
  | depth + 1, tokens => do
    let (first, rest) ← expression depth 0 tokens
    let (more, rest) ← argumentsAfter depth rest
    return (first :: more, rest)

def argumentsAfter : Nat → List Token → Option (List Term × List Token)
  | 0, _ => none
  | _ + 1, .closing :: rest => some ([], rest)
  | depth + 1, .comma :: rest => do
    let (next, rest) ← expression depth 0 rest
    let (more, rest) ← argumentsAfter depth rest
    return (next :: more, rest)
  | _ + 1, _ => none

end

/-- The term that a whole text is. No reader nests deeper than twice the number of tokens. -/
def parse (text : String) : Option Term := do
  let tokens ← tokens text.toList
  match ← expression (2 * tokens.length + 1) 0 tokens with
  | (term, []) => return term
  | _ => none

end WorkflowCompiler.Proofs.RunnerGrammar
