/-! Double precision numbers, exactly. A finite one is a signed significand times a power of
two, kept in one canonical form: the significand has 53 bits, or fewer at the least exponent.
Rounding is to the nearest number, and from half way to the even significand. -/

namespace WorkflowCompiler

inductive Binary64
  | finite (negative : Bool) (significand : Nat) (exponent : Int)
  | infinite (negative : Bool)
  | notANumber
deriving DecidableEq, Repr, Inhabited

namespace Binary64

def leastExponent : Int := -1074

def greatestExponent : Int := 971

def zero (negative : Bool) : Binary64 := .finite negative 0 leastExponent

def negate : Binary64 → Binary64
  | .finite negative significand exponent => .finite (!negative) significand exponent
  | .infinite negative => .infinite (!negative)
  | .notANumber => .notANumber

/-- The quotient to the nearest natural number, and from half way to the even one. -/
def roundDiv (numerator denominator : Nat) : Nat :=
  let quotient := numerator / denominator
  let twice := 2 * (numerator % denominator)
  if twice > denominator || (twice == denominator && quotient % 2 == 1) then quotient + 1
  else quotient

/-- The fraction `numerator / denominator` counted in units of `2 ^ exponent`. -/
def inUnits (numerator denominator : Nat) (exponent : Int) : Nat × Nat :=
  if exponent ≥ 0 then (numerator, denominator * Nat.pow 2 exponent.toNat)
  else (numerator * Nat.pow 2 (-exponent).toNat, denominator)

/-- The number nearest to a fraction whose denominator is not zero. -/
def ofFraction (negative : Bool) (numerator denominator : Nat) : Binary64 :=
  if numerator = 0 then zero negative
  else
    let guess : Int := (numerator.log2 : Int) - denominator.log2 - 53
    let (above, below) := inUnits numerator denominator guess
    let exponent := max leastExponent (if above / below ≥ Nat.pow 2 53 then guess + 1 else guess)
    let (above, below) := inUnits numerator denominator exponent
    let significand := roundDiv above below
    let (significand, exponent) :=
      if significand = Nat.pow 2 53 then (Nat.pow 2 52, exponent + 1) else (significand, exponent)
    if exponent > greatestExponent then .infinite negative
    else .finite negative significand exponent

/-- The number nearest to `digits · 10 ^ exponent`. Far outside the range of the format the
power itself is not computed. -/
def ofDecimal (negative : Bool) (digits : Nat) (exponent : Int) : Binary64 :=
  let size : Int := (Nat.toDigits 10 digits).length
  if digits = 0 ∨ size + exponent < -400 then zero negative
  else if size + exponent > 400 then .infinite negative
  else if exponent ≥ 0 then ofFraction negative (digits * Nat.pow 10 exponent.toNat) 1
  else ofFraction negative digits (Nat.pow 10 (-exponent).toNat)

/-- The size of a finite number as a fraction. -/
def fraction (significand : Nat) (exponent : Int) : Nat × Nat :=
  if exponent ≥ 0 then (significand * Nat.pow 2 exponent.toNat, 1)
  else (significand, Nat.pow 2 (-exponent).toNat)

/-- The sum with a natural number, of a number that is not negative. -/
def addWhole (value : Binary64) (whole : Nat) : Binary64 :=
  match value with
  | .finite _ significand exponent =>
    let (numerator, denominator) := fraction significand exponent
    ofFraction false (numerator + whole * denominator) denominator
  | other => other

/-- The whole number this one is equal to, if there is one. -/
def toInt? : Binary64 → Option Int
  | .finite negative significand exponent =>
    let (numerator, denominator) := fraction significand exponent
    if numerator % denominator = 0 then
      let size : Int := numerator / denominator
      some (if negative then -size else size)
    else none
  | _ => none

/-- Numeric equality: both zeros are equal, and what is not a number differs from itself. -/
def equals : Binary64 → Binary64 → Bool
  | .finite _ 0 _, .finite _ 0 _ => true
  | .notANumber, _ => false
  | left, right => left == right

def isZero : Binary64 → Bool
  | .finite _ 0 _ => true
  | _ => false

end Binary64

end WorkflowCompiler
