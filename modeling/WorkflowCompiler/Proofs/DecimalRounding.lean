import WorkflowCompiler.Proofs.FractionRounding

/-! Decimal digits of double precision numbers. Seventeen of them always determine the number, so the digits that are written for it are
read back as the number. -/

namespace WorkflowCompiler.Binary64

/-- What a positive fraction is read as: far outside the range of the format it is not rounded. -/
def ofRat (negative : Bool) (x : ℚ) : Binary64 :=
  if Int.log 10 x + 1 < -400 then zero negative
  else if Int.log 10 x + 1 > 400 then .infinite negative
  else ofFraction negative x.num.toNat x.den

section
variable {x : ℚ} {digits significand numerator denominator : Nat} {exponent : Int} {negative : Bool}

theorem toDigits_between (positive : digits ≠ 0) :
    (10 : ℚ) ^ ((Nat.toDigits 10 digits).length - 1 : Int) ≤ digits ∧ (digits : ℚ) < 10 ^ ((Nat.toDigits 10 digits).length - 1 + 1 : Int) := by
  have filled : 0 < (Nat.toDigits 10 digits).length := Nat.length_toDigits_pos
  constructor
  · have natural : 10 ^ ((Nat.toDigits 10 digits).length - 1) ≤ digits := by
      by_cases single : (Nat.toDigits 10 digits).length - 1 = 0
      · rw [single]
        omega
      · have reached := (Nat.length_toDigits_le_iff (n := digits) (by decide : 1 < 10) (Nat.pos_of_ne_zero single)).not.mp (by omega)
        omega
    rw [← Nat.cast_pred filled, zpow_natCast]
    exact_mod_cast natural
  · have natural : digits < 10 ^ (Nat.toDigits 10 digits).length :=
      (Nat.length_toDigits_le_iff (by decide) filled).mp (Nat.le_refl _)
    rw [sub_add_cancel, zpow_natCast]
    exact_mod_cast natural

/-- The place of the first of some digits. -/
theorem log_digits (positive : digits ≠ 0) (exponent : Int) :
    Int.log 10 (digits * 10 ^ exponent : ℚ) + 1 = (Nat.toDigits 10 digits).length + exponent := by
  obtain ⟨low, high⟩ := toDigits_between positive
  have unit : (0 : ℚ) < 10 ^ exponent := by positivity
  have log : Int.log 10 (digits * 10 ^ exponent : ℚ) = (Nat.toDigits 10 digits).length - 1 + exponent := by
    apply log_eq (by decide)
    · rw [Nat.cast_ofNat, zpow_add₀ (by norm_num)]
      gcongr
    · rw [add_right_comm, Nat.cast_ofNat, zpow_add₀ (by norm_num)]
      gcongr
  rw [log]
  ring

theorem num_div_den (positive : 0 < x) : x.num.toNat ≠ 0 ∧ (x.num.toNat : ℚ) / x.den = x := by
  have above : 0 < x.num := Rat.num_pos.mpr positive
  have same : (x.num.toNat : ℚ) = x.num := by exact_mod_cast Int.toNat_of_nonneg above.le
  refine ⟨by omega, ?_⟩
  rw [same, Rat.num_div_den]

/-- Digits are read by their value alone. -/
theorem ofDecimal_eq (positive : digits ≠ 0) : ofDecimal negative digits exponent = ofRat negative (digits * 10 ^ exponent) := by
  have real : (0 : ℚ) < digits := by exact_mod_cast Nat.pos_of_ne_zero positive
  have above : (0 : ℚ) < digits * 10 ^ exponent := by positivity
  obtain ⟨num_pos, ratio⟩ := num_div_den above
  have power : ∀ size, Nat.pow 10 size ≠ 0 := fun size => by
    rw [Nat.pow_eq]
    positivity
  rw [ofDecimal, ofRat, log_digits positive]
  simp only [positive, false_or]
  by_cases low : ((Nat.toDigits 10 digits).length : Int) + exponent < -400
  · rw [if_pos low, if_pos low]
  · rw [if_neg low, if_neg low]
    by_cases high : ((Nat.toDigits 10 digits).length : Int) + exponent > 400
    · rw [if_pos high, if_pos high]
    · rw [if_neg high, if_neg high]
      by_cases natural : exponent ≥ 0
      · rw [if_pos natural]
        refine ofFraction_congr (Nat.mul_ne_zero positive (power _)) one_ne_zero num_pos (Rat.den_ne_zero _) ?_
        obtain ⟨size, rfl⟩ := Int.eq_ofNat_of_zero_le natural
        rw [ratio]
        simp
      · rw [if_neg natural]
        refine ofFraction_congr positive (power _) num_pos (Rat.den_ne_zero _) ?_
        obtain ⟨size, same⟩ := Int.eq_ofNat_of_zero_le (a := -exponent) (by omega)
        obtain rfl : exponent = -(size : Int) := by omega
        rw [ratio, zpow_neg, zpow_natCast]
        simp [div_eq_mul_inv]

theorem ofFraction_negate : ofFraction true numerator denominator = (ofFraction false numerator denominator).negate := by
  unfold ofFraction
  split
  next => rfl
  next =>
    simp only
    generalize (if roundDiv _ _ = Nat.pow 2 53 then _ else _ : Nat × Int) = rounded
    split <;> rfl

theorem ofDecimal_negate : ofDecimal true digits exponent = (ofDecimal false digits exponent).negate := by
  unfold ofDecimal
  simp only [ofFraction_negate]
  split
  next => rfl
  next =>
    split
    next => rfl
    next => split <;> rfl

theorem ofDecimal_signed {unit : Int} (unsigned : ofDecimal false digits unit = .finite false significand exponent) (negative : Bool) :
    ofDecimal negative digits unit = .finite negative significand exponent := by
  cases negative with
  | false => exact unsigned
  | true => rw [ofDecimal_negate, unsigned]; rfl

theorem wholePlaces_eq (numerator_pos : numerator ≠ 0) (denominator_pos : denominator ≠ 0) :
    wholePlaces numerator denominator = Int.log 10 ((numerator : ℚ) / denominator) + 1 := by
  obtain ⟨least, most⟩ := toDigits_between numerator_pos
  obtain ⟨least', most'⟩ := toDigits_between denominator_pos
  obtain ⟨low, high⟩ := ratio_between (by decide : 1 < 10) least most least' most'
  rw [sub_sub_sub_cancel_right] at low high
  rw [wholePlaces]
  generalize ((Nat.toDigits 10 numerator).length : Int) - (Nat.toDigits 10 denominator).length = places at low high
  have units : (if places ≥ 0 then numerator ≥ denominator * Nat.pow 10 places.toNat else numerator * Nat.pow 10 (-places).toNat ≥ denominator) ↔
      (inDecimalUnits numerator denominator places).1 ≥ (inDecimalUnits numerator denominator places).2 := by
    unfold inDecimalUnits
    split <;> rfl
  obtain ⟨positive, ratio⟩ : 0 < (inDecimalUnits numerator denominator places).2 ∧ _ := ratio_inDecimalUnits (Nat.pos_of_ne_zero denominator_pos)
  have real : (0 : ℚ) < (inDecimalUnits numerator denominator places).2 := by exact_mod_cast positive
  have reaches : (inDecimalUnits numerator denominator places).1 ≥ (inDecimalUnits numerator denominator places).2 ↔
      (10 : ℚ) ^ places ≤ numerator / denominator := by
    have unit : (0 : ℚ) < 10 ^ places := by positivity
    rw [← one_le_div unit, ← ratio, one_le_div real, ge_iff_le, Nat.cast_le]
  simp only [units, reaches]
  split
  next reached => rw [log_eq (by decide) reached high]
  next missed =>
    have found : Int.log 10 ((numerator : ℚ) / denominator) = places - 1 := by
      refine log_eq (by decide) low ?_
      rw [sub_add_cancel]
      exact lt_of_not_ge missed
    rw [found, sub_add_cancel]

theorem power_bound : (2 : ℚ) ^ (1075 : Int) ≤ 10 ^ (400 : Int) := by
  have natural : 2 ^ 1075 ≤ 10 ^ 400 := by decide +kernel
  exact_mod_cast natural

/-- A fraction that differs from a number by less than one part in `2 ^ 54` is read as that number. -/
theorem ofRat_of_close (finite : Finite (.finite negative significand exponent))
    (close : |x - significand * 2 ^ exponent| < significand * 2 ^ exponent / 2 ^ 54) :
    ofRat negative x = .finite negative significand exponent := by
  obtain ⟨small, least, greatest, -⟩ := id finite
  have unit : (0 : ℚ) < 2 ^ exponent := by positivity
  obtain ⟨below, above⟩ := abs_lt.mp close
  have filled : significand ≠ 0 := by
    rintro rfl
    rw [Nat.cast_zero, zero_mul] at below above
    linarith
  have one : (1 : ℚ) ≤ significand := by exact_mod_cast Nat.pos_of_ne_zero filled
  have most : (significand : ℚ) ≤ 2 ^ 53 := by exact_mod_cast small.le
  have size : (2 : ℚ) ^ exponent ≤ significand * 2 ^ exponent := le_mul_of_one_le_left unit.le one
  have positive : 0 < x := by linarith
  have low : -400 ≤ Int.log 10 x := by
    rw [← Int.zpow_le_iff_le_log (by decide) positive, Nat.cast_ofNat]
    have tiny : (10 : ℚ) ^ (-400 : Int) ≤ 2 ^ (-1075 : Int) := by
      rw [zpow_neg, zpow_neg]
      exact inv_anti₀ (by positivity) power_bound
    have half : (2 : ℚ) ^ (-1075 : Int) * 2 ≤ 2 ^ exponent := by
      rw [← zpow_add_one₀ two_ne_zero]
      exact zpow_le_zpow_right₀ (by norm_num) least
    linarith
  have high : Int.log 10 x < 400 := by
    rw [← Int.lt_zpow_iff_log_lt (by decide) positive, Nat.cast_ofNat]
    have double : (2 : ℚ) ^ exponent * 2 ^ 54 ≤ 2 ^ (1075 : Int) := by
      rw [← zpow_natCast, ← zpow_add₀ two_ne_zero]
      refine zpow_le_zpow_right₀ (by norm_num) ?_
      rw [greatestExponent] at greatest
      omega
    have bounded : significand * 2 ^ exponent ≤ 2 ^ 53 * (2 : ℚ) ^ exponent := by gcongr
    have top : x < 2 ^ exponent * 2 ^ 54 := by linarith
    exact (top.trans_le double).trans_le power_bound
  obtain ⟨num_pos, ratio⟩ := num_div_den positive
  rw [ofRat, if_neg (by omega), if_neg (by omega)]
  refine ofFraction_of_close finite (Rat.den_ne_zero x) ?_
  rwa [ratio]

theorem headD_decimalNeighbours (significand : Nat) (binaryExponent exponent : Int) :
    Nearest (significand * 2 ^ binaryExponent / 10 ^ exponent : ℚ) ((decimalNeighbours significand binaryExponent exponent).headD 0) := by
  obtain ⟨positive, ratio⟩ : 0 < (fraction significand binaryExponent).2 ∧ _ := ratio_fraction
  generalize counted : inDecimalUnits (fraction significand binaryExponent).1 (fraction significand binaryExponent).2 exponent = units
  obtain ⟨positive', ratio'⟩ : 0 < units.2 ∧ (units.1 : ℚ) / units.2 = _ := counted ▸ ratio_inDecimalUnits positive
  have near := nearest_roundDiv units.1 positive'
  have head : (decimalNeighbours significand binaryExponent exponent).headD 0 = roundDiv units.1 units.2 := by
    have written : decimalNeighbours significand binaryExponent exponent =
        if roundDiv units.1 units.2 = units.1 / units.2 then [units.1 / units.2, units.1 / units.2 + 1]
        else [units.1 / units.2 + 1, units.1 / units.2] := by
      rw [← counted]
      rfl
    rw [written]
    split
    next down => exact down.symm
    next up => exact ((roundDiv_cases _ _).resolve_left up).symm
  rwa [head, ← ratio, ← ratio']

/-- If the last try is read back, so is whatever is found before it. -/
theorem ofDecimal_shortestFrom {places : Int} {more count : Nat}
    (last : ofDecimal false ((decimalNeighbours significand exponent (places - (count + more : Nat))).headD 0) (places - (count + more : Nat)) =
      .finite false significand exponent) :
    ofDecimal false (shortestFrom significand exponent places more count).1 (shortestFrom significand exponent places more count).2 =
      .finite false significand exponent := by
  induction more generalizing count with
  | zero => exact last
  | succ more ih =>
    rw [shortestFrom]
    split
    next digits found =>
      have same := List.find?_some found
      exact eq_of_beq same
    next =>
      apply ih
      rw [Nat.add_right_comm]
      exact last

/-- Seventeen digits determine a number. -/
theorem ofDecimal_seventeen (finite : Finite (.finite false significand exponent)) (positive : significand ≠ 0) {unit : Int}
    (unit_eq : unit = Int.log 10 (significand * 2 ^ exponent : ℚ) - 16) :
    ofDecimal false ((decimalNeighbours significand exponent unit).headD 0) unit = .finite false significand exponent := by
  have near := headD_decimalNeighbours significand exponent unit
  generalize (decimalNeighbours significand exponent unit).headD 0 = digits at near
  have real : (0 : ℚ) < significand := by exact_mod_cast Nat.pos_of_ne_zero positive
  have above : (0 : ℚ) < significand * 2 ^ exponent := by positivity
  have scale : (0 : ℚ) < 10 ^ unit := by positivity
  have first : (10 : ℚ) ^ unit * 10 ^ 16 ≤ significand * 2 ^ exponent := by
    have power := Int.zpow_log_le_self (by decide : 1 < 10) above
    rw [← zpow_natCast, ← zpow_add₀ (by norm_num), unit_eq, Nat.cast_ofNat, sub_add_cancel]
    exact_mod_cast power
  obtain ⟨low, high⟩ := abs_le.mp near.within
  rw [le_sub_iff_add_le, le_div_iff₀ scale] at low
  rw [sub_le_iff_le_add, div_le_iff₀ scale] at high
  have filled : digits ≠ 0 := by
    rintro rfl
    rw [Nat.cast_zero] at high
    linarith
  rw [ofDecimal_eq filled]
  apply ofRat_of_close finite
  rw [abs_lt]
  constructor <;> linarith

/-- The digits that are written for a number are read as that number. -/
theorem ofDecimal_shortest (finite : Finite (.finite negative significand exponent)) (positive : significand ≠ 0) :
    (shortest significand exponent).1 ≠ 0 ∧
      ofDecimal negative (shortest significand exponent).1 (shortest significand exponent).2 = .finite negative significand exponent := by
  obtain ⟨below, ratio⟩ : 0 < (fraction significand exponent).2 ∧ _ := ratio_fraction
  have above : (fraction significand exponent).1 ≠ 0 := by
    have real : (significand : ℚ) ≠ 0 := by exact_mod_cast positive
    intro none
    rw [none, Nat.cast_zero, zero_div] at ratio
    exact mul_ne_zero real (zpow_ne_zero exponent two_ne_zero) ratio.symm
  have places := wholePlaces_eq above below.ne'
  rw [ratio] at places
  have unsigned : ofDecimal false (shortest significand exponent).1 (shortest significand exponent).2 = .finite false significand exponent := by
    have searched : shortest significand exponent =
        shortestFrom significand exponent (wholePlaces (fraction significand exponent).1 (fraction significand exponent).2) 16 1 := rfl
    rw [searched, places]
    apply ofDecimal_shortestFrom
    apply ofDecimal_seventeen finite positive
    push_cast
    ring
  refine ⟨?_, ofDecimal_signed unsigned negative⟩
  intro none
  rw [none] at unsigned
  injection unsigned with _ zero
  exact positive zero.symm

end

end WorkflowCompiler.Binary64
