import WorkflowCompiler.Proofs.DecimalRounding
import WorkflowCompiler.Proofs.NumberTexts

/-! Double precision numbers as they are written: digits with a point or an exponent behind them, which are read as the number. -/

namespace WorkflowCompiler

namespace Binary64
open Proofs (Stops takeWhile_append_of_stops)
open Yaml (Digits digits_toDigits ne_of_digit)

/-- The value of digits with the point that many places behind the first one. -/
def valueOf (digits : List Char) (places : Int) : ℚ := digitsValue digits * 10 ^ (places - digits.length)

/-- Digits, perhaps a point and more digits, perhaps an exponent, and one of the two. -/
structure Spelling (text whole part : List Char) (power : Int) : Prop where
  read : Digits whole
  behind : ∀ c ∈ part, c.isDigit = true
  shape : ∃ point tail, text = whole ++ (point ++ tail) ∧ (point = [] ∧ part = [] ∨ point = '.' :: part) ∧
    (tail = [] ∧ point ≠ [] ∧ power = 0 ∨ tail = 'e' :: exponentText power)

section
variable {text whole part digits more : List Char} {power places : Int} {count : Nat}

theorem digitsValue_eq (digits : List Char) : digitsValue digits = Nat.ofDigitChars 10 digits 0 := Nat.ofDigitChars_eq_foldl.symm

theorem digitsValue_append (digits more : List Char) :
    digitsValue (digits ++ more) = digitsValue digits * 10 ^ more.length + digitsValue more := by
  rw [digitsValue_eq, digitsValue_eq, digitsValue_eq, Nat.ofDigitChars_append, Nat.ofDigitChars_eq_ofDigitChars_zero, Nat.mul_comm]

theorem digitsValue_zeros (count : Nat) : digitsValue (List.replicate count '0') = 0 := by
  rw [digitsValue_eq, Nat.ofDigitChars_replicate_zero, Nat.mul_zero]

/-- Zeros behind the digits do not count. -/
theorem valueOf_append_zeros (digits : List Char) (count : Nat) (places : Int) :
    valueOf (digits ++ List.replicate count '0') places = valueOf digits places := by
  rw [valueOf, valueOf, digitsValue_append, digitsValue_zeros, List.length_append, List.length_replicate, Nat.add_zero]
  push_cast
  rw [mul_assoc, ← zpow_natCast, ← zpow_add₀ (by norm_num)]
  congr 2
  ring

/-- Zeros in front of the digits move the point. -/
theorem valueOf_zeros_append (digits : List Char) (count : Nat) (places : Int) :
    valueOf (List.replicate count '0' ++ digits) (count + places) = valueOf digits places := by
  rw [valueOf, valueOf, digitsValue_append, digitsValue_zeros, List.length_append, List.length_replicate, Nat.zero_mul, Nat.zero_add]
  congr 2
  push_cast
  ring

theorem exists_dropFinalZeros (digits : List Char) : ∃ count, digits = dropFinalZeros digits ++ List.replicate count '0' := by
  refine ⟨(digits.reverse.takeWhile (· == '0')).length, ?_⟩
  have zeros : digits.reverse.takeWhile (· == '0') = List.replicate (digits.reverse.takeWhile (· == '0')).length '0' := by
    rw [List.eq_replicate_iff]
    refine ⟨rfl, fun c member => ?_⟩
    exact eq_of_beq (List.mem_takeWhile_imp (p := (· == '0')) member)
  rw [← List.reverse_inj, List.reverse_append, List.reverse_replicate, ← zeros, dropFinalZeros, List.reverse_reverse, List.takeWhile_append_dropWhile]

theorem exponentText_cases (power : Int) : ∃ digits, Digits digits ∧
    ((exponentText power = '-' :: digits ∧ power = -(digitsValue digits : Int)) ∨ (exponentText power = '+' :: digits ∧ power = digitsValue digits)) := by
  obtain ⟨digits, written, read, value⟩ : ∃ digits, exponentText power = (if power < 0 then '-' else '+') :: digits ∧ Digits digits ∧
      digitsValue digits = power.natAbs := by
    have read := digits_toDigits power.natAbs
    have value : digitsValue (Nat.toDigits 10 power.natAbs) = power.natAbs := by
      rw [digitsValue_eq, Nat.ofDigitChars_ten_toDigits]
    refine ⟨_, rfl, ?_⟩
    split
    next =>
      refine ⟨⟨by simp, List.forall_mem_cons.mpr ⟨rfl, read.all⟩⟩, ?_⟩
      have zero : digitsValue (List.replicate 1 '0' ++ Nat.toDigits 10 power.natAbs) = power.natAbs := by
        rw [digitsValue_append, digitsValue_zeros, Nat.zero_mul, Nat.zero_add, value]
      exact zero
    next => exact ⟨read, value⟩
  refine ⟨digits, read, ?_⟩
  by_cases below : power < 0
  · rw [written, if_pos below]
    exact .inl ⟨rfl, by omega⟩
  · rw [written, if_neg below]
    exact .inr ⟨rfl, by omega⟩

theorem Spelling.exists_cons (spelling : Spelling text whole part power) : ∃ first rest, text = first :: rest ∧ first.isDigit = true := by
  obtain ⟨first, rest, rfl, here, -⟩ := spelling.read.exists_cons
  obtain ⟨point, tail, same, -⟩ := spelling.shape
  exact ⟨first, rest ++ (point ++ tail), same, here⟩

theorem Spelling.numerals (spelling : Spelling text whole part power) {sign : List Char} (signed : sign = [] ∨ sign = ['-']) :
    Yaml.Numerals (sign ++ text) := by
  obtain ⟨first, rest, rfl, here, later⟩ := spelling.read.exists_cons
  obtain ⟨point, tail, rfl, pointed, ended⟩ := spelling.shape
  refine ⟨sign, first, rest ++ (point ++ tail), rfl, signed, here, ?_⟩
  have run : ∀ {digits : List Char}, (∀ c ∈ digits, c.isDigit = true) → ∀ c ∈ digits, Yaml.isNumeral c = true :=
    fun all c member => Yaml.numeral_digit (all c member)
  refine List.forall_mem_append.mpr ⟨run later, List.forall_mem_append.mpr ⟨?_, ?_⟩⟩
  · rcases pointed with ⟨rfl, -⟩ | rfl
    · simp
    · exact List.forall_mem_cons.mpr ⟨rfl, run spelling.behind⟩
  · rcases ended with ⟨rfl, -⟩ | rfl
    · simp
    · obtain ⟨digits, read, ⟨written, -⟩ | ⟨written, -⟩⟩ := exponentText_cases power
      all_goals
        rw [written]
        exact List.forall_mem_cons.mpr ⟨rfl, List.forall_mem_cons.mpr ⟨rfl, run read.all⟩⟩

/-- Digits end at the point and at the exponent. -/
theorem Spelling.stops {point tail : List Char} {kind : Char → Bool} (dot : kind '.' = false) (letter : kind 'e' = false)
    (pointed : point = [] ∧ part = [] ∨ point = '.' :: part) (ended : tail = [] ∧ point ≠ [] ∧ power = 0 ∨ tail = 'e' :: exponentText power) :
    Stops kind (point ++ tail) ∧ Stops kind tail := by
  have last : Stops kind tail := by
    rcases ended with ⟨rfl, -⟩ | rfl
    · exact fun c member => nomatch member
    · intro c member
      cases member
      exact letter
  refine ⟨?_, last⟩
  rcases pointed with ⟨rfl, -⟩ | rfl
  · exact last
  · intro c member
    cases member
    exact dot

theorem isExponent_text (power : Int) : Yaml.isExponent true ('e' :: exponentText power) = true := by
  obtain ⟨digits, read, ⟨written, -⟩ | ⟨written, -⟩⟩ := exponentText_cases power
  all_goals
    have filled : digits.isEmpty = false := by simpa using read.filled
    rw [written]
    simp [Yaml.isExponent, filled, List.all_eq_true.mpr read.all]

theorem Spelling.float (spelling : Spelling text whole part power) : Yaml.isFloatBody text = true := by
  obtain ⟨first, rest, rfl, here, later⟩ := spelling.read.exists_cons
  obtain ⟨point, tail, rfl, pointed, ended⟩ := spelling.shape
  have run : ∀ {digits : List Char}, (∀ c ∈ digits, c.isDigit = true) → ∀ c ∈ digits, (c.isDigit || c == '_') = true :=
    fun all c member => by rw [all c member]; rfl
  have stops : Stops (fun c => c.isDigit || c == '_') (point ++ tail) ∧ Stops (fun c => c.isDigit || c == '_') tail :=
    Spelling.stops rfl rfl pointed ended
  have dot : first ≠ '.' := ne_of_digit here rfl
  simp only [List.cons_append, Yaml.isFloatBody, here, Bool.true_and, (takeWhile_append_of_stops (run later) stops.1).2]
  rcases pointed with ⟨rfl, -⟩ | rfl
  · obtain rfl : tail = 'e' :: exponentText power := by simpa using ended
    exact isExponent_text power
  · simp only [List.cons_append, (takeWhile_append_of_stops (run spelling.behind) stops.2).2]
    rcases ended with ⟨rfl, -⟩ | rfl
    · rfl
    · rw [isExponent_text, Bool.or_true]

theorem map_toLower {text : List Char} (numerals : ∀ c ∈ text, Yaml.isNumeral c = true) : text.map Char.toLower = text := by
  have each : ∀ c ∈ text, c.toLower = c := by
    intro c member
    rcases Yaml.numeral_cases (numerals c member) with digit | rfl | rfl | rfl | rfl
    · have small : ¬ (c.val ≥ 'A'.val ∧ c.val ≤ 'Z'.val) := by
        intro letter
        have code := Yaml.digit_code digit
        have above : 65 ≤ c.toNat := letter.1
        omega
      exact dif_neg small
    all_goals rfl
  rw [List.map_congr_left each, List.map_id']

/-- A written number is read as the value of its digits. -/
theorem Spelling.ofUnsigned? (spelling : Spelling text whole part power) (negative : Bool) :
    Binary64.ofUnsigned? negative text = some (ofDecimal negative (digitsValue (whole ++ part)) (power - part.length)) := by
  have lowered : text.map Char.toLower = text := map_toLower (by simpa using (spelling.numerals (.inl rfl)).all)
  obtain ⟨point, tail, same, pointed, ended⟩ := spelling.shape
  obtain ⟨first, rest, starts, here, -⟩ := spelling.read.exists_cons
  have stops : Stops Char.isDigit (point ++ tail) ∧ Stops Char.isDigit tail := Spelling.stops rfl rfl pointed ended
  have runs := takeWhile_append_of_stops spelling.read.all stops.1
  have runs' := takeWhile_append_of_stops spelling.behind stops.2
  have word : ∀ c : Char, c.isDigit = false → ∀ more, text ≠ c :: more := by
    intro c other more clash
    rw [same, starts] at clash
    exact ne_of_digit here other (List.cons.inj clash).1
  have filled : (whole ++ part).isEmpty = false := by simp [spelling.read.filled]
  have read : ∀ digits : List Char, Digits digits → (digits.isEmpty = true ∨ (!digits.all Char.isDigit) = true) = False := by
    intro digits read
    simp [read.filled, List.all_eq_true.mpr read.all]
  unfold Binary64.ofUnsigned?
  rw [lowered]
  split
  next => exact absurd rfl (word 'n' rfl _)
  next => exact absurd rfl (word 'i' rfl _)
  next =>
    rw [same, runs.1, runs.2]
    rcases ended with ⟨rfl, dotted, rfl⟩ | rfl
    · obtain rfl := pointed.resolve_left fun none => dotted none.1
      rw [List.append_nil] at runs' ⊢
      simp only [runs'.1, runs'.2, filled, Bool.false_eq_true, if_false]
      rfl
    · obtain ⟨digits, all, ⟨written, value⟩ | ⟨written, value⟩⟩ := exponentText_cases power
      all_goals
        rw [written] at runs' ⊢
        rcases pointed with ⟨rfl, rfl⟩ | rfl
        · simp [all.filled, List.all_eq_true.mpr all.all, spelling.read.filled, value]
        · simp only [List.cons_append, runs'.1, runs'.2, filled, Bool.false_eq_true, if_false, read digits all, value]
          rfl

/-- The digits that are written, and their value. -/
theorem exists_spelling (read : Digits digits) (places : Int) : ∃ whole part power, Spelling (placeDigits digits places) whole part power ∧
    valueOf (whole ++ part) (power + whole.length) = valueOf digits places := by
  have zero : ∀ count, ∀ c ∈ List.replicate count '0', c.isDigit = true := fun count c member => by
    rw [List.eq_of_mem_replicate member]
    rfl
  unfold placeDigits
  split
  next near =>
    split
    next small =>
      refine ⟨['0'], List.replicate (-places).toNat '0' ++ digits, 0, ⟨⟨by simp, by simp⟩, ?_, _, [], ?_, .inr rfl, .inl ⟨rfl, by simp, rfl⟩⟩, ?_⟩
      · exact List.forall_mem_append.mpr ⟨zero _, read.all⟩
      · simp
      · have moved := valueOf_zeros_append digits ((-places).toNat + 1) places
        rw [List.replicate_succ] at moved
        rw [← moved]
        congr 1
        simp
        omega
    next =>
      simp only
      split
      next short =>
        refine ⟨digits ++ List.replicate (places.toNat - digits.length) '0', ['0'], 0,
          ⟨⟨by simp [read.filled], List.forall_mem_append.mpr ⟨read.all, zero _⟩⟩, by simp, _, [], ?_, .inr rfl, .inl ⟨rfl, by simp, rfl⟩⟩, ?_⟩
        · simp
        · have same := valueOf_append_zeros digits (places.toNat - digits.length + 1) places
          rw [List.replicate_succ', ← List.append_assoc] at same
          rw [← same]
          congr 1
          simp
          omega
      next long =>
        have fewer : places.toNat < digits.length := Nat.lt_of_not_le long
        have filled : digits.take places.toNat ≠ [] := by
          intro none
          have shorter := congrArg List.length none
          rw [List.length_take, List.length_nil] at shorter
          omega
        refine ⟨digits.take places.toNat, digits.drop places.toNat, 0,
          ⟨⟨filled, fun c member => read.all c (List.mem_of_mem_take member)⟩, fun c member => read.all c (List.mem_of_mem_drop member), _, [],
            ?_, .inr rfl, .inl ⟨rfl, by simp, rfl⟩⟩, ?_⟩
        · simp
        · rw [List.take_append_drop, List.length_take]
          congr 1
          omega
  next =>
    obtain ⟨first, rest, rfl, here, later⟩ := read.exists_cons
    refine ⟨[first], rest, places - 1, ⟨⟨by simp, by simpa using here⟩, later, ?_⟩, ?_⟩
    · cases rest with
      | nil => exact ⟨[], _, rfl, .inl ⟨rfl, rfl⟩, .inr rfl⟩
      | cons second rest => exact ⟨_, _, by simp, .inr rfl, .inr rfl⟩
    · rw [List.singleton_append, List.length_singleton]
      congr 1
      omega

/-- A finite number is written as its digits, behind a sign if it is negative. -/
theorem exists_characters {negative : Bool} {significand : Nat} {exponent : Int} (finite : Finite (.finite negative significand exponent)) :
    ∃ text whole part power, characters (.finite negative significand exponent) = (if negative then ['-'] else []) ++ text ∧
      Spelling text whole part power ∧ ofUnsigned? negative text = some (.finite negative significand exponent) := by
  by_cases none : significand = 0
  · subst none
    obtain rfl : exponent = leastExponent := finite.2.2.2.resolve_left (by decide)
    have spelling : Spelling ['0', '.', '0'] ['0'] ['0'] 0 :=
      ⟨⟨by simp, by simp⟩, by simp, ['.', '0'], [], rfl, .inr rfl, .inl ⟨rfl, by simp, rfl⟩⟩
    refine ⟨_, _, _, _, rfl, spelling, ?_⟩
    rw [spelling.ofUnsigned?]
    rfl
  · obtain ⟨filled, same⟩ := ofDecimal_shortest finite none
    generalize found : shortest significand exponent = shortest at filled same
    obtain ⟨digits, unit⟩ := shortest
    simp only at filled same
    have written : characters (.finite negative significand exponent) = (if negative then ['-'] else []) ++
        placeDigits (dropFinalZeros (Nat.toDigits 10 digits)) (unit + (Nat.toDigits 10 digits).length) := by
      rw [characters]
      simp only [none, if_false, found]
    have value : digitsValue (Nat.toDigits 10 digits) = digits := by
      rw [digitsValue_eq, Nat.ofDigitChars_ten_toDigits]
    obtain ⟨count, zeros⟩ := exists_dropFinalZeros (Nat.toDigits 10 digits)
    have all := (digits_toDigits digits).all
    have total : valueOf (dropFinalZeros (Nat.toDigits 10 digits)) (unit + (Nat.toDigits 10 digits).length) = digits * 10 ^ unit := by
      rw [← valueOf_append_zeros _ count, ← zeros, valueOf, value, add_sub_cancel_right]
    generalize dropFinalZeros (Nat.toDigits 10 digits) = kept at written zeros total
    have read : Digits kept := by
      refine ⟨?_, fun c member => all c (by rw [zeros]; exact List.mem_append_left _ member)⟩
      rintro rfl
      rw [zeros, List.nil_append, digitsValue_zeros] at value
      exact filled value.symm
    obtain ⟨whole, part, power, spelling, moved⟩ := exists_spelling read (unit + (Nat.toDigits 10 digits).length)
    refine ⟨_, whole, part, power, written, spelling, ?_⟩
    have place : power + whole.length - (whole ++ part).length = power - part.length := by
      rw [List.length_append]
      push_cast
      ring
    rw [total, valueOf, place] at moved
    have positive : digitsValue (whole ++ part) ≠ 0 := by
      have real : (digits : ℚ) ≠ 0 := by exact_mod_cast filled
      intro zero
      rw [zero, Nat.cast_zero, zero_mul] at moved
      exact mul_ne_zero real (zpow_ne_zero unit (by norm_num)) moved.symm
    rw [spelling.ofUnsigned?, ofDecimal_eq positive, moved, ← ofDecimal_eq filled, same]

end

end Binary64

namespace Yaml

section
variable {value : Binary64}

/-- The text of a finite number. -/
theorem exists_floatText (finite : value.Finite) : ∃ negative text whole part power, (floatText value).toList = (if negative then ['-'] else []) ++ text ∧
    Binary64.Spelling text whole part power ∧ Binary64.ofUnsigned? negative text = some value := by
  cases value with
  | finite negative significand exponent =>
    obtain ⟨text, whole, part, power, written, spelling, read⟩ := Binary64.exists_characters finite
    refine ⟨negative, text, whole, part, power, ?_, spelling, read⟩
    rw [← written]
    exact String.toList_ofList
  | infinite => cases finite
  | notANumber => cases finite

theorem signed (negative : Bool) : (if negative then ['-'] else []) = [] ∨ (if negative then ['-'] else []) = ['-'] := by
  cases negative
  · exact .inl rfl
  · exact .inr rfl

theorem numerals_float (finite : value.Finite) : Numerals (floatText value).toList := by
  obtain ⟨negative, text, whole, part, power, written, spelling, -⟩ := exists_floatText finite
  rw [written]
  exact spelling.numerals (signed negative)

theorem kindOf_float (finite : value.Finite) : kindOf (floatText value) = .float := by
  obtain ⟨negative, text, whole, part, power, written, spelling, -⟩ := exists_floatText finite
  have float : isFloat (floatText value).toList = true := by
    obtain ⟨first, rest, same, here⟩ := spelling.exists_cons
    rw [isFloat, written, same, afterSign_digit here (signed negative), ← same, spelling.float, Bool.true_or]
  rw [kindOf_numerals (numerals_float finite), float]
  rfl

theorem fractionNumber_spelling {text whole part : List Char} {power : Int} (spelling : Binary64.Spelling text whole part power)
    {negative : Bool} (read : Binary64.ofUnsigned? negative text = some value) : fractionNumber negative text = .ok value := by
  have trimmed := trim_numerals (spelling.numerals (.inl rfl)).all
  obtain ⟨first, rest, same, here⟩ := spelling.exists_cons
  have minus : (text.head? == some '-') = false := by
    rw [same]
    simp [ne_of_digit here (rfl : '-'.isDigit = false)]
  have unsigned : afterSign text = text := by
    rw [same]
    exact afterSign_digit here (.inl rfl)
  have word : (text == "infinity".toList) = false := by
    rw [same, beq_eq_false_iff_ne]
    intro clash
    exact ne_of_digit here (rfl : 'i'.isDigit = false) (List.cons.inj clash).1
  rw [List.nil_append] at trimmed
  simp only [fractionNumber, trimmed, minus, unsigned, word, Bool.bne_false, Bool.false_eq_true, if_false, read]

theorem floatValue_float (finite : value.Finite) : floatValue .current (floatText value).toList = .ok value := by
  have all := (numerals_float finite).all
  obtain ⟨negative, text, whole, part, power, written, spelling, read⟩ := exists_floatText finite
  obtain ⟨first, rest, same, here⟩ := spelling.exists_cons
  have plain : (floatText value).toList.filter (· != '_') = (floatText value).toList := by
    rw [List.filter_eq_self]
    intro c member
    rcases numeral_cases (all c member) with digit | rfl | rfl | rfl | rfl
    · exact bne_iff_ne.mpr (ne_of_digit digit rfl)
    all_goals rfl
  have filled : (floatText value).toList.isEmpty = false := by simp [written, same]
  have minus : ((floatText value).toList.head? == some '-') = negative := by
    rw [written, same]
    cases negative with
    | false => simp [ne_of_digit here (rfl : '-'.isDigit = false)]
    | true => rfl
  have unsigned : afterSign (floatText value).toList = text := by
    rw [written, same]
    exact afterSign_digit here (signed negative)
  have word : ∀ more : List Char, (text == '.' :: more) = false := by
    intro more
    rw [same, beq_eq_false_iff_ne]
    intro clash
    exact ne_of_digit here (rfl : '.'.isDigit = false) (List.cons.inj clash).1
  have first := word ['i', 'n', 'f']
  have second := word ['n', 'a', 'n']
  simp only [floatValue, plain, Binary64.map_toLower all, filled, minus, unsigned]
  rw [if_neg Bool.false_ne_true]
  show (if (text == ['.', 'i', 'n', 'f']) = true then _ else if (text == ['.', 'n', 'a', 'n']) = true then _ else _) = _
  rw [if_neg (by simp [first]), if_neg (by simp [second])]
  exact fractionNumber_spelling spelling read

end

end Yaml

end WorkflowCompiler
