import WorkflowCompiler.Number.Decimal
import Mathlib.Algebra.Order.Field.Power
import Mathlib.Data.Int.Log
import Mathlib.Data.Rat.Floor
import Mathlib.Tactic.FieldSimp
import Mathlib.Tactic.Linarith
import Mathlib.Tactic.Positivity

/-! Rounding of fractions. What a fraction is rounded to depends on its value alone, and whatever lies close enough to a double precision
number is rounded to that number. -/

namespace WorkflowCompiler.Binary64

/-- The natural number nearest to a fraction, from half way the even one. -/
def Nearest (x : ℚ) (k : Nat) : Prop := |x - k| < 1 / 2 ∨ (|x - k| = 1 / 2 ∧ k % 2 = 0)

section
variable {x : ℚ} {k l numerator denominator : Nat} {exponent : Int}

theorem Nearest.within (near : Nearest x k) : |x - k| ≤ 1 / 2 := by
  rcases near with near | ⟨half, -⟩
  · exact near.le
  · exact half.le

theorem Nearest.le (first : Nearest x k) (second : Nearest x l) : l ≤ k := by
  by_contra above
  have step : (k : ℚ) + 1 ≤ l := by exact_mod_cast Nat.lt_of_not_le above
  have low := (abs_le.mp first.within).2
  have high := (abs_le.mp second.within).1
  -- Only half way between two neighbours are there two candidates, and one of them is odd.
  have half : x = k + 1 / 2 := by linarith
  have next : (l : ℚ) = k + 1 := by linarith
  have even : k % 2 = 0 := (first.resolve_left (by rw [half]; norm_num)).2
  have even' : l % 2 = 0 := (second.resolve_left (by rw [half, next]; norm_num)).2
  have same : l = k + 1 := by exact_mod_cast next
  omega

theorem Nearest.unique (first : Nearest x k) (second : Nearest x l) : k = l :=
  Nat.le_antisymm (second.le first) (first.le second)

theorem nearest_below {share : ℚ} (low : 0 ≤ share) (small : share < 1 / 2 ∨ share = 1 / 2 ∧ k % 2 = 0) : Nearest (k + share) k := by
  have gap : |(k : ℚ) + share - k| = share := by rw [add_sub_cancel_left, abs_of_nonneg low]
  rwa [Nearest, gap]

theorem nearest_above {share : ℚ} (high : share ≤ 1) (large : 1 / 2 < share ∨ share = 1 / 2 ∧ k % 2 = 1) :
    Nearest (k + share) (k + 1) := by
  have gap : |(k : ℚ) + share - (k + 1 : Nat)| = 1 - share := by
    rw [abs_of_nonpos (by push_cast; linarith)]
    push_cast
    ring
  rw [Nearest, gap]
  rcases large with above | ⟨half, odd⟩
  · exact .inl (by linarith)
  · exact .inr ⟨by rw [half]; norm_num, by omega⟩

theorem nearest_roundDiv (numerator : Nat) (positive : 0 < denominator) : Nearest ((numerator : ℚ) / denominator) (roundDiv numerator denominator) := by
  have parts := Nat.div_add_mod numerator denominator
  have less := Nat.mod_lt numerator positive
  unfold roundDiv
  generalize numerator / denominator = quotient at parts
  generalize numerator % denominator = rest at parts less
  have real : (0 : ℚ) < denominator := by exact_mod_cast positive
  have whole : (numerator : ℚ) / denominator = quotient + rest / denominator := by
    rw [← parts]
    push_cast
    field_simp
  have above : 2 * rest > denominator ↔ (1 : ℚ) / 2 < rest / denominator := by
    rw [lt_div_iff₀ real, gt_iff_lt, ← Nat.cast_lt (α := ℚ), Nat.cast_mul, Nat.cast_ofNat]
    constructor <;> intro more <;> linarith
  have middle : 2 * rest = denominator ↔ (rest : ℚ) / denominator = 1 / 2 := by
    rw [div_eq_iff real.ne', ← Nat.cast_inj (R := ℚ), Nat.cast_mul, Nat.cast_ofNat]
    constructor <;> intro same <;> linarith
  rw [whole]
  simp only [Bool.or_eq_true, decide_eq_true_eq, Bool.and_eq_true, beq_iff_eq]
  split
  next up =>
    rw [above, middle] at up
    exact nearest_above ((div_le_one real).mpr (by exact_mod_cast less.le)) up
  next down =>
    rw [above, middle, not_or, not_lt, not_and_or, Nat.mod_two_not_eq_one] at down
    exact nearest_below (by positivity) (down.1.lt_or_eq.imp_right fun half => ⟨half, down.2.resolve_left (not_not.mpr half)⟩)

theorem roundDiv_eq (positive : 0 < denominator) (near : Nearest ((numerator : ℚ) / denominator) k) : roundDiv numerator denominator = k :=
  (nearest_roundDiv numerator positive).unique near

theorem roundDiv_cases (numerator denominator : Nat) :
    roundDiv numerator denominator = numerator / denominator ∨ roundDiv numerator denominator = numerator / denominator + 1 := by
  unfold roundDiv
  simp only
  split
  next => exact .inr rfl
  next => exact .inl rfl

/-- Units of either base count the same fraction. -/
theorem ratio_units {base : Nat} (base_pos : 0 < base) (positive : 0 < denominator) {units : Nat × Nat}
    (counted : units = if exponent ≥ 0 then (numerator, denominator * base ^ exponent.toNat)
      else (numerator * base ^ (-exponent).toNat, denominator)) :
    0 < units.2 ∧ (units.1 : ℚ) / units.2 = numerator / denominator / (base : ℚ) ^ exponent := by
  subst counted
  have real : (denominator : ℚ) ≠ 0 := by exact_mod_cast positive.ne'
  have scale : (base : ℚ) ≠ 0 := by exact_mod_cast base_pos.ne'
  split
  next natural =>
    refine ⟨by positivity, ?_⟩
    obtain ⟨size, rfl⟩ := Int.eq_ofNat_of_zero_le natural
    simp [div_div]
  next negative =>
    refine ⟨positive, ?_⟩
    obtain ⟨size, same⟩ := Int.eq_ofNat_of_zero_le (a := -exponent) (by omega)
    obtain rfl : exponent = -(size : Int) := by omega
    rw [zpow_neg, zpow_natCast]
    simp only [neg_neg, Int.toNat_natCast]
    push_cast
    field_simp

theorem ratio_inUnits (positive : 0 < denominator) :
    0 < (inUnits numerator denominator exponent).2 ∧
      ((inUnits numerator denominator exponent).1 : ℚ) / (inUnits numerator denominator exponent).2 =
        numerator / denominator / 2 ^ exponent :=
  ratio_units (by decide) positive rfl

theorem ratio_inDecimalUnits (positive : 0 < denominator) :
    0 < (inDecimalUnits numerator denominator exponent).2 ∧
      ((inDecimalUnits numerator denominator exponent).1 : ℚ) / (inDecimalUnits numerator denominator exponent).2 =
        numerator / denominator / 10 ^ exponent :=
  ratio_units (by decide) positive rfl

theorem ratio_fraction {significand : Nat} : 0 < (fraction significand exponent).2 ∧
    ((fraction significand exponent).1 : ℚ) / (fraction significand exponent).2 = significand * 2 ^ exponent := by
  unfold fraction
  split
  next natural =>
    obtain ⟨size, rfl⟩ := Int.eq_ofNat_of_zero_le natural
    simp
  next negative =>
    obtain ⟨size, same⟩ := Int.eq_ofNat_of_zero_le (a := -exponent) (by omega)
    obtain rfl : exponent = -(size : Int) := by omega
    rw [zpow_neg, zpow_natCast]
    simp [div_eq_mul_inv]

/-- The exponent of the unit that a fraction is rounded to. -/
def unitOf (x : ℚ) : Int := max leastExponent (Int.log 2 x - 52)

/-- A rounded significand may have one bit too many, and a rounded number may be too large. -/
def settled (negative : Bool) (significand : Nat) (exponent : Int) : Binary64 :=
  let (significand, exponent) :=
    if significand = Nat.pow 2 53 then (Nat.pow 2 52, exponent + 1) else (significand, exponent)
  if exponent > greatestExponent then .infinite negative
  else .finite negative significand exponent

theorem log_eq {base : Nat} (large : 1 < base) (low : (base : ℚ) ^ exponent ≤ x) (high : x < (base : ℚ) ^ (exponent + 1)) :
    Int.log base x = exponent := by
  have positive : 0 < x := lt_of_lt_of_le (zpow_pos (by exact_mod_cast Nat.zero_lt_of_lt large) _) low
  have least := (Int.zpow_le_iff_le_log large positive).mp low
  have most := (Int.lt_zpow_iff_log_lt large positive).mp high
  omega

/-- The sizes of numerator and denominator determine the size of a fraction up to one place. -/
theorem ratio_between {base : Nat} (large : 1 < base) {n m : ℚ} {high low : Int} (least : (base : ℚ) ^ high ≤ n) (most : n < (base : ℚ) ^ (high + 1))
    (least' : (base : ℚ) ^ low ≤ m) (most' : m < (base : ℚ) ^ (low + 1)) :
    (base : ℚ) ^ (high - low - 1) ≤ n / m ∧ n / m < (base : ℚ) ^ (high - low + 1) := by
  have real : (0 : ℚ) < base := by exact_mod_cast Nat.zero_lt_of_lt large
  have positive : 0 < m := lt_of_lt_of_le (zpow_pos real low) least'
  have positive' : 0 < n := lt_of_lt_of_le (zpow_pos real high) least
  constructor
  · rw [sub_sub, zpow_sub₀ real.ne', div_le_div_iff₀ (zpow_pos real _) positive]
    gcongr
  · rw [sub_add_eq_add_sub, zpow_sub₀ real.ne', div_lt_div_iff₀ positive (zpow_pos real low)]
    calc n * (base : ℚ) ^ low ≤ n * m := by gcongr
      _ < (base : ℚ) ^ (high + 1) * m := by gcongr

theorem log2_between {n : Nat} (positive : n ≠ 0) : (2 : ℚ) ^ (n.log2 : Int) ≤ n ∧ (n : ℚ) < 2 ^ ((n.log2 : Int) + 1) := by
  constructor
  · rw [zpow_natCast]
    exact_mod_cast Nat.log2_self_le positive
  · have less : n < 2 ^ (n.log2 + 1) := Nat.lt_log2_self
    rw [← Nat.cast_succ, zpow_natCast]
    exact_mod_cast less

theorem exponent_eq (numerator_pos : numerator ≠ 0) (denominator_pos : denominator ≠ 0) {guess : Int}
    (guessed : guess = (numerator.log2 : Int) - denominator.log2 - 53) :
    (if (inUnits numerator denominator guess).1 / (inUnits numerator denominator guess).2 ≥ Nat.pow 2 53 then guess + 1 else guess) =
      Int.log 2 ((numerator : ℚ) / denominator) - 52 := by
  obtain ⟨least, most⟩ := log2_between numerator_pos
  obtain ⟨least', most'⟩ := log2_between denominator_pos
  obtain ⟨low, high⟩ := ratio_between (by decide : 1 < 2) least most least' most'
  have below : (numerator.log2 : Int) - denominator.log2 - 1 = guess + 52 := by omega
  have above : (numerator.log2 : Int) - denominator.log2 + 1 = guess + 53 + 1 := by omega
  rw [below] at low
  rw [above] at high
  obtain ⟨positive, ratio⟩ : 0 < (inUnits numerator denominator guess).2 ∧ _ := ratio_inUnits (Nat.pos_of_ne_zero denominator_pos)
  have real : (0 : ℚ) < (inUnits numerator denominator guess).2 := by exact_mod_cast positive
  have reaches : (inUnits numerator denominator guess).1 / (inUnits numerator denominator guess).2 ≥ Nat.pow 2 53 ↔
      (2 : ℚ) ^ (guess + 53) ≤ numerator / denominator := by
    have unit : (0 : ℚ) < 2 ^ guess := by positivity
    rw [ge_iff_le, Nat.le_div_iff_mul_le positive, add_comm, zpow_add₀ two_ne_zero, ← le_div_iff₀ unit, ← ratio, le_div_iff₀ real]
    exact_mod_cast Iff.rfl
  split
  next reached =>
    have found : Int.log 2 ((numerator : ℚ) / denominator) = guess + 53 := log_eq (by decide) (reaches.mp reached) high
    omega
  next missed =>
    have found : Int.log 2 ((numerator : ℚ) / denominator) = guess + 52 := by
      refine log_eq (by decide) low ?_
      rw [add_assoc]
      exact lt_of_not_ge fun reached => missed (reaches.mpr reached)
    omega

/-- What a fraction is rounded to. -/
theorem ofFraction_eq {negative : Bool} (numerator_pos : numerator ≠ 0) (denominator_pos : denominator ≠ 0)
    (value : (numerator : ℚ) / denominator = x) (near : Nearest (x / 2 ^ unitOf x) k) :
    ofFraction negative numerator denominator = settled negative k (unitOf x) := by
  have exponent := exponent_eq numerator_pos denominator_pos rfl
  obtain ⟨positive, ratio⟩ : 0 < (inUnits numerator denominator (unitOf x)).2 ∧ _ := ratio_inUnits (Nat.pos_of_ne_zero denominator_pos)
  have rounded : roundDiv (inUnits numerator denominator (unitOf x)).1 (inUnits numerator denominator (unitOf x)).2 = k := by
    apply roundDiv_eq positive
    rw [ratio, value]
    exact near
  rw [value] at exponent
  rw [ofFraction, if_neg numerator_pos]
  simp only [exponent]
  rw [← unitOf, rounded, settled]

/-- Equal fractions are rounded to the same number. -/
theorem ofFraction_congr {negative : Bool} {numerator' denominator' : Nat} (numerator_pos : numerator ≠ 0) (denominator_pos : denominator ≠ 0)
    (numerator_pos' : numerator' ≠ 0) (denominator_pos' : denominator' ≠ 0)
    (same : (numerator : ℚ) / denominator = numerator' / denominator') :
    ofFraction negative numerator denominator = ofFraction negative numerator' denominator' := by
  obtain ⟨positive, ratio⟩ : 0 < (inUnits numerator denominator (unitOf (numerator / denominator))).2 ∧ _ :=
    ratio_inUnits (Nat.pos_of_ne_zero denominator_pos)
  have near := nearest_roundDiv (inUnits numerator denominator (unitOf (numerator / denominator))).1 positive
  rw [ratio] at near
  rw [ofFraction_eq numerator_pos denominator_pos rfl near, ofFraction_eq numerator_pos' denominator_pos' same.symm near]

theorem settled_finite {negative : Bool} (small : k < 2 ^ 53) (bounded : exponent ≤ greatestExponent) :
    settled negative k exponent = .finite negative k exponent := by
  have fits : k ≠ Nat.pow 2 53 := Nat.ne_of_lt small
  have bounded : ¬ exponent > greatestExponent := Int.not_lt.mpr bounded
  rw [settled]
  simp only [fits, if_false, bounded]

theorem settled_carry {negative : Bool} (bounded : exponent + 1 ≤ greatestExponent) :
    settled negative (2 ^ 53) exponent = .finite negative (2 ^ 52) (exponent + 1) := by
  have bounded : ¬ exponent + 1 > greatestExponent := Int.not_lt.mpr bounded
  rw [settled]
  simp only [Nat.pow_eq, if_true, bounded, if_false]

/-- A number with a significand and an exponent in their canonical form. -/
def Finite : Binary64 → Prop
  | .finite _ significand exponent =>
    significand < 2 ^ 53 ∧ leastExponent ≤ exponent ∧ exponent ≤ greatestExponent ∧
      (2 ^ 52 ≤ significand ∨ exponent = leastExponent)
  | _ => False

theorem log_scaled {y : ℚ} {place : Int} (low : 2 ^ place ≤ y) (high : y < 2 ^ (place + 1)) :
    Int.log 2 (y * 2 ^ exponent) = place + exponent := by
  have power : ∀ place : Int, (2 : ℚ) ^ (place + exponent) = 2 ^ place * 2 ^ exponent := fun place => zpow_add₀ two_ne_zero place exponent
  apply log_eq (by decide)
  · rw [Nat.cast_ofNat, power]
    gcongr
  · rw [add_right_comm, Nat.cast_ofNat, power]
    gcongr

/-- A number with all its bits is counted in units of its last bit. -/
theorem unitOf_full {y : ℚ} (least : leastExponent ≤ exponent) (full : 2 ^ 52 ≤ y) (small : y < 2 ^ 53) :
    unitOf (y * 2 ^ exponent) = exponent := by
  have log : Int.log 2 (y * 2 ^ exponent) = 52 + exponent := log_scaled (by exact_mod_cast full) (by norm_num; linarith)
  rw [unitOf, log]
  omega

theorem unitOf_lowest {y : ℚ} (positive : 0 < y) (less : y < 2 ^ 52) : unitOf (y * 2 ^ leastExponent) = leastExponent := by
  have log : Int.log 2 (y * 2 ^ leastExponent) < 52 + leastExponent := by
    rw [← Int.lt_zpow_iff_log_lt (by decide) (mul_pos positive (by positivity)), Nat.cast_ofNat, zpow_add₀ two_ne_zero]
    gcongr
    exact less
  rw [unitOf]
  omega

/-- Just below a power of two the units are half as large. -/
theorem unitOf_below {y : ℚ} (least : leastExponent < exponent) (half : 2 ^ 51 ≤ y) (less : y < 2 ^ 52) :
    unitOf (y * 2 ^ exponent) = exponent - 1 := by
  have log : Int.log 2 (y * 2 ^ exponent) = 51 + exponent := log_scaled (by exact_mod_cast half) (by norm_num; linarith)
  rw [unitOf, log]
  omega

/-- A fraction that differs from a number by less than one part in `2 ^ 54` is rounded to it. -/
theorem ofFraction_of_close {negative : Bool} (finite : Finite (.finite negative k exponent)) (denominator_pos : denominator ≠ 0)
    (close : |(numerator : ℚ) / denominator - k * 2 ^ exponent| < k * 2 ^ exponent / 2 ^ 54) :
    ofFraction negative numerator denominator = .finite negative k exponent := by
  obtain ⟨small, least, greatest, canonical⟩ := finite
  have unit : (0 : ℚ) < 2 ^ exponent := by positivity
  have bits : (k : ℚ) + 1 ≤ 2 ^ 53 := by exact_mod_cast small
  generalize value : (numerator : ℚ) / denominator = x at close
  obtain ⟨y, rfl⟩ : ∃ y, x = y * 2 ^ exponent := ⟨x / 2 ^ exponent, (div_mul_cancel₀ x unit.ne').symm⟩
  rw [← sub_mul, abs_mul, abs_of_pos unit, mul_div_right_comm, mul_lt_mul_iff_left₀ unit] at close
  obtain ⟨low, high⟩ := abs_lt.mp close
  have positive : 0 < y := by linarith
  have numerator_pos : numerator ≠ 0 := by
    rintro rfl
    rw [Nat.cast_zero, zero_div] at value
    exact (mul_pos positive unit).ne value
  have near : Nearest y k := .inl (by linarith)
  have at_place : unitOf (y * 2 ^ exponent) = exponent → ofFraction negative numerator denominator = .finite negative k exponent := by
    intro place
    rw [ofFraction_eq numerator_pos denominator_pos value (by rwa [place, mul_div_cancel_right₀ y unit.ne']), place,
      settled_finite small greatest]
  by_cases full : 2 ^ 52 ≤ y
  · exact at_place (unitOf_full least full (by linarith))
  · have less : y < 2 ^ 52 := lt_of_not_ge full
    rcases least.eq_or_lt with rfl | above
    · exact at_place (unitOf_lowest positive less)
    · -- The units are half as large here, and rounding carries over to the power of two.
      have exact : k = 2 ^ 52 := by
        have bound : (k : ℚ) < 2 ^ 52 + 1 := by linarith
        have natural : k < 2 ^ 52 + 1 := by exact_mod_cast bound
        have filled := canonical.resolve_right above.ne'
        omega
      rw [exact] at low
      push_cast at low
      have place := unitOf_below above (by linarith) less
      have half : y * 2 ^ exponent / 2 ^ (exponent - 1) = 2 * y := by
        rw [zpow_sub_one₀ two_ne_zero]
        field_simp
      have carried : Nearest (2 * y) (2 ^ 53) := by
        left
        rw [abs_lt]
        push_cast
        constructor <;> linarith
      rw [ofFraction_eq numerator_pos denominator_pos value (by rwa [place, half]), place, settled_carry (by omega), exact, sub_add_cancel]

end

end WorkflowCompiler.Binary64
