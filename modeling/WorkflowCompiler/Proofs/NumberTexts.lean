import WorkflowCompiler.Proofs.ScalarStyles
import WorkflowCompiler.Yaml.Load
import Mathlib.Data.List.TakeWhile

/-! Numbers as they are written. An unquoted scalar stands for a number by its spelling alone. -/

namespace WorkflowCompiler.Yaml
open Proofs (Stops takeWhile_append_of_stops)

/-- The characters of written numbers. -/
def isNumeral (c : Char) : Bool := c.isDigit || c == '.' || c == 'e' || c == '-' || c == '+'

/-- A sign, if there is one, a digit, and more of a number. -/
structure Numerals (text : List Char) : Prop where
  shape : ∃ sign first rest, text = sign ++ first :: rest ∧ (sign = [] ∨ sign = ['-']) ∧ first.isDigit = true ∧
    ∀ c ∈ rest, isNumeral c = true

section
variable {text digits rest : List Char} {c : Char}

theorem digit_code (digit : c.isDigit = true) : 48 ≤ c.toNat ∧ c.toNat ≤ 57 := Char.isDigit_iff_toNat.mp digit

theorem ne_of_digit {d : Char} (digit : c.isDigit = true) (other : d.isDigit = false) : c ≠ d := by
  rintro rfl
  rw [digit] at other
  cases other

theorem shown_digit (digit : c.isDigit = true) : isShown c = true := by
  have code := digit_code digit
  have low : 0x20 ≤ c.toNat := by omega
  have high : c.toNat ≤ 0x7E := by omega
  have mark : c.toNat ≠ 0xFEFF := by omega
  simp [isShown, low, high, mark]

theorem numeral_cases (numeral : isNumeral c = true) : c.isDigit = true ∨ c = '.' ∨ c = 'e' ∨ c = '-' ∨ c = '+' := by
  simpa [isNumeral, or_assoc] using numeral

theorem numeral_digit (digit : c.isDigit = true) : isNumeral c = true := by
  rw [isNumeral, digit]
  rfl

theorem numeral_plain (numeral : isNumeral c = true) :
    (isShown c = true ∧ isBreak c = false ∧ isEdge c = false) ∧ c ≠ '#' ∧ c ≠ ':' ∧ c ≠ ' ' := by
  rcases numeral_cases numeral with digit | rfl | rfl | rfl | rfl
  · have other : ∀ d, d.isDigit = false → c ≠ d := fun d => ne_of_digit digit
    have flat : isBreak c = false := by simp [isBreak, other]
    exact ⟨⟨shown_digit digit, flat, by simp [isEdge, flat, other]⟩, other _ rfl, other _ rfl, other _ rfl⟩
  all_goals decide

theorem hasInnerIndicator_numerals {previous : Char} (numerals : ∀ c ∈ text, isNumeral c = true) :
    hasInnerIndicator previous text = false := by
  induction text generalizing previous with
  | nil => rfl
  | cons c text ih =>
    obtain ⟨here, later⟩ := List.forall_mem_cons.mp numerals
    obtain ⟨-, comment, colon, -⟩ := numeral_plain here
    simp [hasInnerIndicator, comment, colon, ih later]

theorem Numerals.all (numerals : Numerals text) : ∀ c ∈ text, isNumeral c = true := by
  obtain ⟨sign, first, rest, rfl, signed, digit, more⟩ := numerals.shape
  refine List.forall_mem_append.mpr ⟨?_, List.forall_mem_cons.mpr ⟨numeral_digit digit, more⟩⟩
  rcases signed with rfl | rfl
  · exact fun c member => nomatch member
  · simp [isNumeral]

theorem Numerals.unmarked (numerals : Numerals text) : startsWithMarker text = false ∧ startsWithIndicator text = false := by
  obtain ⟨sign, first, rest, rfl, signed, digit, -⟩ := numerals.shape
  have other : ∀ d, d.isDigit = false → first ≠ d := fun d => ne_of_digit digit
  have gap : isGap first = false := solid_of_shown (shown_digit digit) (by simp [isBreak, other]) (other _ rfl)
  rcases signed with rfl | rfl
  · constructor
    · unfold startsWithMarker
      split
      · exact absurd digit (by simp_all)
      · exact absurd digit (by simp_all)
      · rfl
    · simp [startsWithIndicator, other]
  · constructor
    · unfold startsWithMarker
      split
      · exact absurd digit (by simp_all)
      · simp_all
      · rfl
    · simp [startsWithIndicator, opensGap, gap]

/-- Written numbers need no quotes. -/
theorem Numerals.suits (numerals : Numerals text) : Suits text .plain := by
  have all := numerals.all
  have filled : text ≠ [] := by
    obtain ⟨sign, first, rest, rfl, -⟩ := numerals.shape
    simp
  have edge : ∀ place : Option Char, (∀ c ∈ place, c ∈ text) → place.any isEdge = false := by
    intro place inside
    cases place with
    | none => rfl
    | some c => exact (numeral_plain (all c (inside c rfl))).1.2.2
  have special : text.any isSpecial = false := by
    rw [List.any_eq_false]
    intro c member
    simp [isSpecial, (numeral_plain (all c member)).1.1]
  have flat : isMultiline text = false := by
    rw [isMultiline, List.any_eq_false]
    intro c member
    simp [(numeral_plain (all c member)).1.2.1]
  have indicator : hasIndicator text = false := by
    cases text with
    | nil => rfl
    | cons c text =>
      rw [hasIndicator, numerals.unmarked.1, numerals.unmarked.2]
      exact hasInnerIndicator_numerals fun d member => all d (List.mem_cons_of_mem c member)
  refine ⟨?_, filled⟩
  rw [canBePlain, edge _ fun c => List.mem_of_mem_head?, edge _ fun c => List.mem_of_mem_getLast?, special, flat, indicator]
  rfl

/-- No word with a meaning of its own starts with a digit or a minus sign. -/
theorem Numerals.ne_word {text word : String} (numerals : Numerals text.toList)
    (plain : (word.toList.head?.any fun c => c.isDigit || c == '-') = false) : text ≠ word := by
  rintro rfl
  obtain ⟨sign, first, rest, same, signed, digit, -⟩ := numerals.shape
  rw [same] at plain
  rcases signed with rfl | rfl
  · simp [digit] at plain
  · cases plain

theorem kindOf_numerals {text : String} (numerals : Numerals text.toList) :
    kindOf text = if isFloat text.toList then .float else if isInt text.toList then .int
      else if isTimestamp text.toList then .timestamp else .text := by
  have nulls : ["", "~", "null", "Null", "NULL"].contains text = false := by
    simp [numerals.ne_word]
  have trues : (trueWords .current).contains text = false := by
    simp [trueWords, numerals.ne_word]
  have falses : (falseWords .current).contains text = false := by
    simp [falseWords, numerals.ne_word]
  have merge : (text == "<<") = false := by simp [numerals.ne_word]
  have default : (text == "=") = false := by simp [numerals.ne_word]
  rw [kindOf, kindIn]
  simp only [nulls, trues, falses, merge, default, isFloatIn, isIntIn, Bool.false_eq_true, if_false]
  rfl

/-- Decimal digits without a sign. -/
structure Digits (digits : List Char) : Prop where
  filled : digits ≠ []
  all : ∀ c ∈ digits, c.isDigit = true

theorem digits_toDigits (value : Nat) : Digits (Nat.toDigits 10 value) where
  filled := Nat.toDigits_ne_nil
  all c member := Nat.isDigit_of_mem_toDigits (by omega) (by omega) member

theorem Digits.exists_cons (read : Digits digits) : ∃ first rest, digits = first :: rest ∧ first.isDigit = true ∧ ∀ c ∈ rest, c.isDigit = true := by
  obtain ⟨first, rest, rfl⟩ := List.exists_cons_of_ne_nil read.filled
  obtain ⟨here, later⟩ := List.forall_mem_cons.mp read.all
  exact ⟨first, rest, rfl, here, later⟩

theorem Digits.numerals (read : Digits digits) {sign : List Char} (signed : sign = [] ∨ sign = ['-']) : Numerals (sign ++ digits) := by
  obtain ⟨first, rest, rfl, here, later⟩ := read.exists_cons
  exact ⟨sign, first, rest, rfl, signed, here, fun c member => numeral_digit (later c member)⟩

theorem Digits.not_underscore (read : Digits digits) : ∀ c ∈ digits, (c != '_') = true :=
  fun c member => bne_iff_ne.mpr (ne_of_digit (read.all c member) rfl)

theorem afterSign_digit (digit : c.isDigit = true) {sign : List Char} (signed : sign = [] ∨ sign = ['-']) :
    afterSign (sign ++ c :: rest) = c :: rest := by
  rcases signed with rfl | rfl
  · have minus : c ≠ '-' := ne_of_digit digit rfl
    have plus : c ≠ '+' := ne_of_digit digit rfl
    simp [afterSign, minus, plus]
  · rfl

theorem Digits.afterSign (read : Digits digits) {sign : List Char} (signed : sign = [] ∨ sign = ['-']) :
    afterSign (sign ++ digits) = digits := by
  obtain ⟨first, rest, rfl, here, -⟩ := read.exists_cons
  exact afterSign_digit here signed

theorem Digits.not_float (read : Digits digits) : isFloatBody digits = false := by
  obtain ⟨first, rest, rfl, here, later⟩ := read.exists_cons
  have point : first ≠ '.' := ne_of_digit here rfl
  have none : rest.dropWhile (fun c => c.isDigit || c == '_') = [] := by
    rw [List.dropWhile_eq_nil_iff]
    intro c member
    rw [later c member]
    rfl
  simp [isFloatBody, none, isExponent]

/-- The sign of another base is no digit. -/
theorem Digits.not_based (read : Digits digits) {base : Char} (letter : base.isDigit = false) (rest : List Char) :
    digits ≠ '0' :: base :: rest := by
  rintro rfl
  have digit := read.all base (by simp)
  rw [letter] at digit
  cases digit

theorem Digits.int (read : Digits digits) : isIntBody digits = true := by
  unfold isIntBody
  split
  · exact absurd rfl (read.not_based rfl _)
  · exact absurd rfl (read.not_based rfl _)
  · exact absurd rfl (read.not_based rfl _)
  · have filled := read.filled
    simp_all [isDigitRun, read.all]

theorem bitValue_digits (read : ∀ c ∈ digits, c.isDigit = true) : bitValue 10 digits = Nat.ofDigitChars 10 digits 0 := by
  apply List.foldl_ext
  intro value c member
  simp [hexValue, read c member]

theorem toList_toString_int (value : Int) :
    ∃ sign, (sign = [] ∨ sign = ['-']) ∧ (toString value).toList = sign ++ Nat.toDigits 10 value.natAbs ∧
      value = if sign = ['-'] then -(value.natAbs : Int) else value.natAbs := by
  cases value with
  | ofNat value => exact ⟨[], .inl rfl, Nat.toList_repr, rfl⟩
  | negSucc value =>
    refine ⟨['-'], .inr rfl, ?_, rfl⟩
    show ("-" ++ (value + 1).repr).toList = _
    rw [String.toList_append, Nat.toList_repr]
    rfl

theorem numerals_int (value : Int) : Numerals (toString value).toList := by
  obtain ⟨sign, signed, written, -⟩ := toList_toString_int value
  rw [written]
  exact (digits_toDigits _).numerals signed

theorem kindOf_int (value : Int) : kindOf (toString value) = .int := by
  obtain ⟨sign, signed, written, -⟩ := toList_toString_int value
  have read := digits_toDigits value.natAbs
  rw [kindOf_numerals (numerals_int value), written]
  have float : isFloat (sign ++ Nat.toDigits 10 value.natAbs) = false := by
    obtain ⟨first, rest, same, here, -⟩ := read.exists_cons
    have point : first ≠ '.' := ne_of_digit here rfl
    rw [isFloat, read.afterSign signed, read.not_float]
    rcases signed with rfl | rfl <;> simp [same, point]
  have int : isInt (sign ++ Nat.toDigits 10 value.natAbs) = true := by
    obtain ⟨first, rest, same, here, -⟩ := read.exists_cons
    rw [isInt, read.afterSign signed, read.int]
    rcases signed with rfl | rfl <;> simp [same, here]
  rw [float, int]
  rfl

theorem blank_numeral (numeral : isNumeral c = true) : Text.isBlank c = false := by
  rcases numeral_cases numeral with digit | rfl | rfl | rfl | rfl
  · have code := digit_code digit
    simp only [Text.isBlank, Bool.or_eq_false_iff, Bool.and_eq_false_iff, decide_eq_false_iff_not, beq_eq_false_iff_ne]
    omega
  all_goals decide

/-- There are no blanks around a written number. -/
theorem trim_numerals (numerals : ∀ c ∈ text, isNumeral c = true) : Text.trim text = text := by
  have visible : ∀ {text : List Char}, (∀ c ∈ text, isNumeral c = true) → text.dropWhile Text.isBlank = text := by
    intro text numerals
    cases text with
    | nil => rfl
    | cons c rest => exact List.dropWhile_cons_of_neg (by simp [blank_numeral (numerals c List.mem_cons_self)])
  rw [Text.trim, visible numerals, visible fun c member => numerals c (List.mem_reverse.mp member), List.reverse_reverse]

theorem Digits.head_ne_minus (read : Digits digits) : (digits.head? == some '-') = false := by
  obtain ⟨first, rest, rfl, here, -⟩ := read.exists_cons
  have other : first ≠ '-' := ne_of_digit here rfl
  simp [other]

theorem withoutBase_ten (digits : List Char) : withoutBase 10 digits = digits := by
  unfold withoutBase
  split <;> rfl

theorem wholeNumber_digits (read : Digits digits) : wholeNumber 10 digits = .ok (Nat.ofDigitChars 10 digits 0 : Int) := by
  have trimmed := trim_numerals fun c member => numeral_digit (read.all c member)
  have unsigned : afterSign digits = digits := read.afterSign (.inl rfl)
  have small : (digits.all fun c => isHex c && decide (hexValue c < 10)) = true := by
    rw [List.all_eq_true]
    intro c member
    have digit := read.all c member
    have code := digit_code digit
    have value : hexValue c < 10 := by
      rw [hexValue, if_pos digit]
      show c.toNat - 48 < 10
      omega
    simp [isHex, digit, value]
  have filled : digits.isEmpty = false := by simpa using read.filled
  simp only [wholeNumber, trimmed, unsigned, withoutBase_ten, filled, small, read.head_ne_minus, bitValue_digits read.all,
    Bool.not_true, Bool.or_false, Bool.false_eq_true, if_false]

theorem intSize_digits (read : Digits digits) : intSize .current digits = .ok (Nat.ofDigitChars 10 digits 0 : Int) := by
  unfold intSize
  split
  · exact absurd rfl (read.not_based rfl _)
  · exact absurd rfl (read.not_based rfl _)
  · exact absurd rfl (read.not_based rfl _)
  · rw [if_pos rfl, wholeNumber_digits read]

theorem intValue_digits (read : Digits digits) {sign : List Char} (signed : sign = [] ∨ sign = ['-']) :
    intValue .current (sign ++ digits) =
      .ok (if sign = ['-'] then -(Nat.ofDigitChars 10 digits 0 : Int) else Nat.ofDigitChars 10 digits 0) := by
  have plain : (sign ++ digits).filter (· != '_') = sign ++ digits := by
    rw [List.filter_eq_self]
    refine List.forall_mem_append.mpr ⟨?_, read.not_underscore⟩
    rcases signed with rfl | rfl <;> simp
  have filled : (sign ++ digits).isEmpty = false := by simp [read.filled]
  have minus : ((sign ++ digits).head? == some '-') = decide (sign = ['-']) := by
    rcases signed with rfl | rfl
    · exact read.head_ne_minus
    · rfl
  simp only [intValue, plain, filled, minus, read.afterSign signed, intSize_digits read, Bool.false_eq_true, if_false, decide_eq_true_eq]
  rfl

theorem intValue_int (value : Int) : intValue .current (toString value).toList = .ok value := by
  obtain ⟨sign, signed, written, same⟩ := toList_toString_int value
  rw [written, intValue_digits (digits_toDigits _) signed, Nat.ofDigitChars_ten_toDigits]
  exact congrArg Except.ok same.symm

end

end WorkflowCompiler.Yaml
