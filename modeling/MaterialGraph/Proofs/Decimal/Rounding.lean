import MaterialGraph.Decimal.Reading
import Mathlib.Algebra.Order.Field.Power
import Mathlib.Data.Rat.Cast.Order
import Mathlib.Tactic.Linarith
import Mathlib.Tactic.NormNum
import Mathlib.Tactic.Positivity
import Mathlib.Tactic.Ring

/-!
Where rounding to the 32-bit format overflows. The largest finite number is `2 ^ 128 - 2 ^ 104`,
and a quotient is rounded to it or to a smaller one exactly if it lies below `2 ^ 128 - 2 ^ 103`,
half a unit further on; the middle itself goes to the even neighbour, which is out of range. So
whether the number of a numeral is finite can be told from its value in the wider formats.
-/

set_option autoImplicit false

namespace MaterialGraph

namespace Decimal

theorem roundHalfEven_le {numerator denominator bound : Nat}
    (below : numerator < bound * denominator) : roundHalfEven numerator denominator ≤ bound := by
  have quotient : numerator / denominator < bound :=
    Nat.div_lt_of_lt_mul (by rwa [Nat.mul_comm])
  unfold roundHalfEven
  dsimp only
  split_ifs <;> omega

theorem even_le_roundHalfEven_iff {numerator denominator half : Nat} (positive : 0 < denominator) :
    2 * half ≤ roundHalfEven numerator denominator ↔
      4 * (half * denominator) ≤ 2 * numerator + denominator := by
  have divided := Nat.div_add_mod numerator denominator
  have rest := Nat.mod_lt numerator positive
  unfold roundHalfEven
  dsimp only
  generalize numerator / denominator = quotient at divided ⊢
  generalize numerator % denominator = left at divided rest ⊢
  subst divided
  rcases Nat.lt_trichotomy (quotient + 1) (2 * half) with far | near | reached
  · obtain ⟨more, apart⟩ : ∃ more, 2 * half = quotient + 2 + more :=
      Nat.exists_eq_add_of_le (by omega)
    have scaled : 2 * (half * denominator) =
        denominator * quotient + 2 * denominator + denominator * more := by
      rw [← Nat.mul_assoc, apart]
      ring
    split_ifs <;> omega
  · have scaled : 2 * (half * denominator) = denominator * quotient + denominator := by
      rw [← Nat.mul_assoc, ← near]
      ring
    split_ifs <;> omega
  · obtain ⟨more, apart⟩ : ∃ more, quotient = 2 * half + more :=
      Nat.exists_eq_add_of_le (by omega)
    have scaled : denominator * quotient = 2 * (half * denominator) + denominator * more := by
      rw [apart]
      ring
    split_ifs <;> omega

/-- Whether a quotient lies below a power of two is decided without fractions. -/
theorem scaled_lt_iff (numerator : Nat) {denominator : Nat} (positive : 0 < denominator)
    (exponent : Int) :
    numerator * Nat.pow 2 (-exponent).toNat < denominator * Nat.pow 2 exponent.toNat ↔
      (numerator : ℚ) / denominator < 2 ^ exponent := by
  have scale : (0 : ℚ) < denominator := by exact_mod_cast positive
  rw [div_lt_iff₀ scale]
  rcases Int.le_total 0 exponent with nonnegative | nonpositive
  · obtain ⟨power, rfl⟩ := Int.eq_ofNat_of_zero_le nonnegative
    have none : (-(power : Int)).toNat = 0 := by omega
    rw [none, Int.toNat_natCast, zpow_natCast, Nat.mul_comm denominator]
    simp only [Nat.pow_eq, pow_zero, Nat.mul_one]
    exact_mod_cast Iff.rfl
  · obtain ⟨power, opposite⟩ := Int.eq_ofNat_of_zero_le (Int.neg_nonneg.2 nonpositive)
    obtain rfl : exponent = -(power : Int) := by omega
    have none : (-(power : Int)).toNat = 0 := by omega
    rw [neg_neg, none, Int.toNat_natCast, zpow_neg, zpow_natCast,
      lt_inv_mul_iff₀ (by positivity), mul_comm (2 ^ power : ℚ)]
    simp only [Nat.pow_eq, pow_zero, Nat.mul_one]
    exact_mod_cast Iff.rfl

theorem binaryExponent_spec {numerator denominator : Nat} (top : 0 < numerator)
    (bottom : 0 < denominator) :
    (2 : ℚ) ^ BinaryFormat.binaryExponent numerator denominator ≤ numerator / denominator ∧
      (numerator : ℚ) / denominator <
        2 ^ (BinaryFormat.binaryExponent numerator denominator + 1) := by
  have scale : (0 : ℚ) < denominator := by exact_mod_cast bottom
  have topLow : (2 : ℚ) ^ numerator.log2 ≤ numerator := by
    exact_mod_cast Nat.log2_self_le (Nat.ne_of_gt top)
  have topHigh : (numerator : ℚ) < 2 ^ (numerator.log2 + 1) := by
    exact_mod_cast Nat.lt_log2_self
  have bottomLow : (2 : ℚ) ^ denominator.log2 ≤ denominator := by
    exact_mod_cast Nat.log2_self_le (Nat.ne_of_gt bottom)
  have bottomHigh : (denominator : ℚ) < 2 ^ (denominator.log2 + 1) := by
    exact_mod_cast Nat.lt_log2_self
  -- The quotient of the leading powers is off by one at most, and only upwards.
  have high : (numerator : ℚ) / denominator <
      2 ^ ((numerator.log2 : Int) - denominator.log2 + 1) := by
    have split : ((numerator.log2 : Int) - denominator.log2 + 1) =
        ((numerator.log2 + 1 : Nat) : Int) - (denominator.log2 : Nat) := by push_cast; ring
    rw [split, zpow_sub₀ two_ne_zero, zpow_natCast, zpow_natCast]
    exact div_lt_div₀ topHigh bottomLow (by positivity) (by positivity)
  have low : (2 : ℚ) ^ ((numerator.log2 : Int) - denominator.log2 - 1) ≤
      numerator / denominator := by
    have split : ((numerator.log2 : Int) - denominator.log2 - 1) =
        (numerator.log2 : Nat) - ((denominator.log2 + 1 : Nat) : Int) := by push_cast; ring
    rw [split, zpow_sub₀ two_ne_zero, zpow_natCast, zpow_natCast]
    exact div_le_div₀ (by positivity) topLow scale bottomHigh.le
  unfold BinaryFormat.binaryExponent
  dsimp only
  split_ifs with below
  · rw [scaled_lt_iff numerator bottom] at below
    rw [sub_add_cancel]
    exact ⟨low, below⟩
  · rw [scaled_lt_iff numerator bottom, not_lt] at below
    exact ⟨below, high⟩

/-- The numbers from here on are rounded past the largest finite one. -/
def overflow : Nat := 2 ^ 128 - 2 ^ 103

section Single

variable {numerator denominator : Nat}

theorem mantissa_le {exponent : Int} (bottom : 0 < denominator)
    (below : (numerator : ℚ) / denominator < 2 ^ (exponent + 24)) :
    roundHalfEven (numerator * Nat.pow 2 (-exponent).toNat)
      (denominator * Nat.pow 2 exponent.toNat) ≤ 2 ^ 24 := by
  apply roundHalfEven_le
  rw [← Nat.mul_assoc, scaled_lt_iff numerator (Nat.mul_pos (by decide) bottom)]
  have scale : (0 : ℚ) < denominator := by exact_mod_cast bottom
  rw [Nat.cast_mul, ← div_div, div_right_comm, div_lt_iff₀ (by norm_num)]
  calc (numerator : ℚ) / denominator < 2 ^ (exponent + 24) := below
    _ = 2 ^ exponent * ((2 ^ 24 : Nat) : ℚ) := by rw [zpow_add₀ two_ne_zero]; norm_num

/-- Rounding takes the unit that gives the significand 24 bits, but no smaller one than the format
has, and the next larger unit where the significand is rounded up to one more bit. -/
theorem round_single_eq (denominator : Nat) (top : 0 < numerator) :
    ∃ exponent mantissa,
      exponent = max (-149) (BinaryFormat.binaryExponent numerator denominator - 23) ∧
      mantissa = roundHalfEven (numerator * Nat.pow 2 (-exponent).toNat)
        (denominator * Nat.pow 2 exponent.toNat) ∧
      BinaryFormat.single.round numerator denominator =
        if mantissa = 2 ^ 24 then
          if 104 < exponent + 1 then none else some ⟨2 ^ 23, exponent + 1⟩
        else if 104 < exponent then none else some ⟨mantissa, exponent⟩ := by
  refine ⟨max (-149) (BinaryFormat.binaryExponent numerator denominator - ((24 - 1 : Nat) : Int)),
    _, rfl, rfl, ?_⟩
  unfold BinaryFormat.round
  rw [if_neg (Nat.ne_of_gt top)]
  dsimp only [BinaryFormat.single]
  generalize max (-149) (BinaryFormat.binaryExponent numerator denominator - _) = exponent
  generalize roundHalfEven _ _ = mantissa
  by_cases carried : mantissa = 2 ^ 24
  · simp [carried]
  · simp only [Nat.pow_eq, carried, if_false]

theorem round_single_bounds (bottom : 0 < denominator) {magnitude : BinaryNumber}
    (rounded : BinaryFormat.single.round numerator denominator = some magnitude) :
    magnitude.mantissa < 2 ^ 24 ∧ magnitude.exponent ≤ 104 := by
  by_cases zero : numerator = 0
  · rw [BinaryFormat.round, if_pos zero] at rounded
    cases rounded
    exact ⟨by decide, by decide⟩
  have top := Nat.pos_of_ne_zero zero
  obtain ⟨_, high⟩ := binaryExponent_spec top bottom
  obtain ⟨exponent, mantissa, unit, scaled, whole⟩ := round_single_eq denominator top
  have within : BinaryFormat.binaryExponent numerator denominator + 1 ≤ exponent + 24 := by omega
  have small : mantissa ≤ 2 ^ 24 :=
    scaled ▸ mantissa_le bottom (high.trans_le (zpow_le_zpow_right₀ one_le_two within))
  rw [whole] at rounded
  split_ifs at rounded with carried inside inside
  · cases rounded
    exact ⟨by norm_num, not_lt.1 inside⟩
  · cases rounded
    exact ⟨lt_of_le_of_ne small carried, not_lt.1 inside⟩

theorem round_single_eq_none_iff (bottom : 0 < denominator) :
    BinaryFormat.single.round numerator denominator = none ↔
      overflow * denominator ≤ numerator := by
  by_cases zero : numerator = 0
  · have positive : 0 < overflow * denominator := Nat.mul_pos (by decide) bottom
    rw [BinaryFormat.round, if_pos zero, zero]
    simp only [reduceCtorEq, false_iff]
    omega
  have top := Nat.pos_of_ne_zero zero
  obtain ⟨low, high⟩ := binaryExponent_spec top bottom
  obtain ⟨exponent, mantissa, unit, scaled, whole⟩ := round_single_eq denominator top
  generalize BinaryFormat.binaryExponent numerator denominator = leading at low high unit
  have scale : (0 : ℚ) < denominator := by exact_mod_cast bottom
  have past : overflow * denominator ≤ numerator ↔ (overflow : ℚ) ≤ numerator / denominator := by
    rw [le_div_iff₀ scale]
    exact_mod_cast Iff.rfl
  have size : (overflow : ℚ) = 2 ^ (128 : Int) - 2 ^ (103 : Int) := by
    norm_num [overflow]
  rw [whole]
  rcases lt_trichotomy leading 127 with smaller | same | larger
  · have fits : (numerator : ℚ) / denominator < 2 ^ (127 : Int) :=
      high.trans_le (zpow_le_zpow_right₀ one_le_two (by omega))
    have small : ¬overflow * denominator ≤ numerator := by
      rw [past, size]
      norm_num at fits ⊢
      linarith
    have inside : ¬104 < exponent + 1 := by omega
    have below : ¬104 < exponent := by omega
    simp only [small, inside, below, if_false, iff_false]
    split_ifs <;> exact not_false
  · -- In the largest unit only the significand tells, and a tie is rounded up to one more bit.
    obtain rfl : exponent = 104 := by omega
    have small : mantissa ≤ 2 ^ 24 :=
      scaled ▸ mantissa_le bottom (high.trans_le (zpow_le_zpow_right₀ one_le_two (by omega)))
    have carries : mantissa = 2 ^ 24 ↔ 2 * 2 ^ 23 ≤ mantissa := by omega
    have unscaled : mantissa = roundHalfEven numerator (denominator * 2 ^ 104) := by
      rw [scaled]
      exact congrArg (roundHalfEven · _) (Nat.mul_one numerator)
    have even : 2 * 2 ^ 23 ≤ mantissa ↔
        4 * (2 ^ 23 * (denominator * 2 ^ 104)) ≤ 2 * numerator + denominator * 2 ^ 104 :=
      unscaled ▸ even_le_roundHalfEven_iff (Nat.mul_pos bottom (by decide))
    have whether : mantissa = 2 ^ 24 ↔ overflow * denominator ≤ numerator := by
      rw [carries, even, overflow]
      omega
    rw [← whether]
    by_cases carried : mantissa = 2 ^ 24
    · rw [if_pos carried, if_pos (by decide)]
      exact iff_of_true rfl carried
    · rw [if_neg carried, if_neg (by decide)]
      exact iff_of_false (Option.some_ne_none _) carried
  · have large : overflow * denominator ≤ numerator := by
      have above : (2 : ℚ) ^ (128 : Int) ≤ numerator / denominator :=
        (zpow_le_zpow_right₀ one_le_two (by omega)).trans low
      rw [past, size]
      norm_num at above ⊢
      linarith
    have outside : 104 < exponent := by omega
    have beyond : 104 < exponent + 1 := by omega
    simp only [large, outside, beyond, if_true, ite_self]

end Single

end Decimal

namespace Single

open Decimal

theorem isFinite_ofMagnitude (negative : Bool) {magnitude : BinaryNumber}
    (mantissa : magnitude.mantissa < 2 ^ 24) (exponent : magnitude.exponent ≤ 104) :
    (ofMagnitude negative magnitude).isFinite = true := by
  have field : (magnitude.exponent + 149).toNat ≤ 253 := by omega
  unfold isFinite exponentField ofMagnitude
  simp only [Nat.pow_eq, UInt32.toNat_ofNat', ne_eq, decide_eq_true_eq]
  cases negative <;> simp only [Bool.false_eq_true, if_false, if_true] <;> omega

theorem isFinite_infinity (negative : Bool) : (infinity negative).isFinite = false := by
  cases negative <;> decide

variable {numerator denominator : Nat} (negative : Bool)

theorem ofRatio_eq_infinity (bottom : 0 < denominator)
    (large : overflow * denominator ≤ numerator) :
    ofRatio negative numerator denominator = infinity negative := by
  unfold ofRatio
  rw [(round_single_eq_none_iff bottom).2 large]

theorem isFinite_ofRatio (bottom : 0 < denominator) (small : numerator < overflow * denominator) :
    (ofRatio negative numerator denominator).isFinite = true := by
  unfold ofRatio
  cases rounded : BinaryFormat.single.round numerator denominator with
  | none => exact absurd ((round_single_eq_none_iff bottom).1 rounded) (Nat.not_le_of_lt small)
  | some magnitude =>
      obtain ⟨mantissa, exponent⟩ := round_single_bounds bottom rounded
      exact isFinite_ofMagnitude negative mantissa exponent

end Single

namespace Decimal.Numeral

/-- Numerator and denominator of the absolute value in the wide formats: that of a whole number that
is kept exactly is its own, that of any other numeral is rounded to 64 bits. -/
def wide? (numeral : Numeral) : Option (Nat × Nat) :=
  if numeral.isExact then some (natOfDigits numeral.whole, 1)
  else numeral.double?.map BinaryNumber.ratio

def overflows (numeral : Numeral) : Bool :=
  numeral.wide?.any fun (numerator, denominator) => overflow * denominator ≤ numerator

variable {numeral : Numeral}

theorem single?_eq_wide? :
    numeral.single? = numeral.wide?.map fun (numerator, denominator) =>
      Single.ofRatio numeral.negative numerator denominator := by
  unfold single? wide?
  split
  · rfl
  · cases numeral.double? with
    | none => rfl
    | some value => rfl

theorem wide?_denominator_pos {numerator denominator : Nat}
    (found : numeral.wide? = some (numerator, denominator)) : 0 < denominator := by
  unfold wide? at found
  split at found
  · cases found
    exact Nat.one_pos
  · obtain ⟨value, _, same⟩ := Option.map_eq_some_iff.1 found
    cases same
    exact Nat.pow_pos Nat.two_pos

/-- The number of a numeral is infinite exactly if its wide value is too large. -/
theorem single?_cases {number : Single} (read : numeral.single? = some number) :
    (numeral.overflows = false ∧ number.isFinite = true) ∨
      (numeral.overflows = true ∧ number = Single.infinity numeral.negative) := by
  rw [single?_eq_wide?] at read
  obtain ⟨⟨numerator, denominator⟩, wide, rfl⟩ := Option.map_eq_some_iff.1 read
  have bottom := wide?_denominator_pos wide
  unfold overflows
  rw [wide]
  by_cases small : numerator < overflow * denominator
  · exact .inl ⟨by simpa using small, Single.isFinite_ofRatio numeral.negative bottom small⟩
  · have large := Nat.le_of_not_lt small
    exact .inr ⟨by simpa using large, Single.ofRatio_eq_infinity numeral.negative bottom large⟩

end Decimal.Numeral

end MaterialGraph
