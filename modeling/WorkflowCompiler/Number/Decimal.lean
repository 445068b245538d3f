import WorkflowCompiler.Number.Binary64

/-! Decimal text of double precision numbers. A number is written with the fewest digits that
read back as the same number, and of those the nearest to it. -/

namespace WorkflowCompiler.Binary64

/-- The number of decimal places before the point of `numerator / denominator`: the least `p`
with the fraction below `10 ^ p`. -/
def wholePlaces (numerator denominator : Nat) : Int :=
  let places : Int := (Nat.toDigits 10 numerator).length - (Nat.toDigits 10 denominator).length
  let reaches :=
    if places ≥ 0 then numerator ≥ denominator * Nat.pow 10 places.toNat
    else numerator * Nat.pow 10 (-places).toNat ≥ denominator
  if reaches then places + 1 else places

/-- The fraction counted in units of `10 ^ exponent`. -/
def inDecimalUnits (numerator denominator : Nat) (exponent : Int) : Nat × Nat :=
  if exponent ≥ 0 then (numerator, denominator * Nat.pow 10 exponent.toNat)
  else (numerator * Nat.pow 10 (-exponent).toNat, denominator)

/-- The multiples of `10 ^ exponent` just below and just above the number, the nearer first;
from half way the even one comes first. -/
def decimalNeighbours (significand : Nat) (binaryExponent exponent : Int) : List Nat :=
  let (numerator, denominator) := fraction significand binaryExponent
  let (above, below) := inDecimalUnits numerator denominator exponent
  let lower := above / below
  if roundDiv above below = lower then [lower, lower + 1] else [lower + 1, lower]

/-- Tries one more digit at a time. -/
def shortestFrom (significand : Nat) (binaryExponent places : Int) : Nat → Nat → Nat × Int
  | 0, count => ((decimalNeighbours significand binaryExponent (places - count)).headD 0, places - count)
  | more + 1, count =>
    let exponent := places - count
    let fitting := (decimalNeighbours significand binaryExponent exponent).find? fun digits =>
      ofDecimal false digits exponent == .finite false significand binaryExponent
    match fitting with
    | some digits => (digits, exponent)
    | none => shortestFrom significand binaryExponent places more (count + 1)

/-- Digits and decimal exponent of a finite number other than zero. -/
def shortest (significand : Nat) (exponent : Int) : Nat × Int :=
  let (numerator, denominator) := fraction significand exponent
  shortestFrom significand exponent (wholePlaces numerator denominator) 16 1

def dropFinalZeros (digits : List Char) : List Char :=
  (digits.reverse.dropWhile (· == '0')).reverse

def exponentText (exponent : Int) : List Char :=
  let digits := Nat.toDigits 10 exponent.natAbs
  let padded := if digits.length < 2 then '0' :: digits else digits
  (if exponent < 0 then '-' else '+') :: padded

/-- Positional from `0.0001` up to sixteen places before the point, always with a point;
otherwise one digit before the point and an exponent of at least two digits. -/
def placeDigits (digits : List Char) (places : Int) : List Char :=
  if -4 < places ∧ places ≤ 16 then
    if places ≤ 0 then '0' :: '.' :: List.replicate (-places).toNat '0' ++ digits
    else
      let whole := places.toNat
      if digits.length ≤ whole then
        digits ++ List.replicate (whole - digits.length) '0' ++ ['.', '0']
      else digits.take whole ++ '.' :: digits.drop whole
  else
    let tail := match digits.drop 1 with
      | [] => []
      | more => '.' :: more
    digits.take 1 ++ tail ++ 'e' :: exponentText (places - 1)

def characters : Binary64 → List Char
  | .notANumber => ['n', 'a', 'n']
  | .infinite negative => (if negative then ['-'] else []) ++ ['i', 'n', 'f']
  | .finite negative significand exponent =>
    let sign := if negative then ['-'] else []
    if significand = 0 then sign ++ ['0', '.', '0']
    else
      let (digits, unit) := shortest significand exponent
      let written := Nat.toDigits 10 digits
      sign ++ placeDigits (dropFinalZeros written) (unit + written.length)

def text (number : Binary64) : String := String.ofList number.characters

def digitsValue (digits : List Char) : Nat :=
  digits.foldl (fun value digit => 10 * value + (digit.toNat - '0'.toNat)) 0

def ofUnsigned? (negative : Bool) (written : List Char) : Option Binary64 :=
  match written.map Char.toLower with
  | ['n', 'a', 'n'] => some .notANumber
  | ['i', 'n', 'f'] => some (.infinite negative)
  | lowered =>
    let whole := lowered.takeWhile Char.isDigit
    let afterWhole := lowered.dropWhile Char.isDigit
    let (part, rest) := match afterWhole with
      | '.' :: more => (more.takeWhile Char.isDigit, more.dropWhile Char.isDigit)
      | other => ([], other)
    let digits := whole ++ part
    let exponent? : Option Int := match rest with
      | [] => some 0
      | 'e' :: '-' :: power => if power.isEmpty ∨ !power.all Char.isDigit then none else some (-digitsValue power)
      | 'e' :: '+' :: power => if power.isEmpty ∨ !power.all Char.isDigit then none else some (digitsValue power)
      | 'e' :: power => if power.isEmpty ∨ !power.all Char.isDigit then none else some (digitsValue power)
      | _ => none
    if digits.isEmpty then none
    else exponent?.map fun exponent => ofDecimal negative (digitsValue digits) (exponent - part.length)

/-- Reads a number: sign, digits with an optional point, optional exponent; or `inf`, `nan`. -/
def ofCharacters? : List Char → Option Binary64
  | '-' :: rest => ofUnsigned? true rest
  | '+' :: rest => ofUnsigned? false rest
  | written => ofUnsigned? false written

def ofText? (written : String) : Option Binary64 := ofCharacters? written.toList

end WorkflowCompiler.Binary64
