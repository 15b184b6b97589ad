import Mathlib.Algebra.Order.Round
import Mathlib.Data.Int.Log
import Mathlib.Data.Nat.Cast.Order.Field
import Mathlib.Data.Rat.Floor
import Mathlib.Tactic.FieldSimp
import Mathlib.Tactic.Linarith
import Mathlib.Tactic.NormNum
import Mathlib.Tactic.Positivity
import Mathlib.Tactic.Ring

/-!
# Rounding rational numbers to a binary precision

The result of a floating-point operation is its exact result, rounded to the nearest
number of at most `precision` significant bits, ties to the even significand, as
long as the exponent range is not left. This module rounds rational numbers in this
way, shows that no represented number is nearer, bounds the error, and says when the
rounded number is a given integer or has a given integer part.
-/

namespace Hiemal
namespace Foundation

/-- The number has at most `precision` significant bits. -/
def IsFloat (precision : ℕ) (value : ℚ) : Prop :=
  ∃ significand exponent : ℤ,
    |significand| < 2 ^ precision ∧ value = significand * 2 ^ exponent

/-- The nearest integer, ties to the even one. -/
def roundTiesEven (value : ℚ) : ℤ :=
  if Int.fract value = 1 / 2 ∧ Even ⌊value⌋ then ⌊value⌋ else round value

/-- The unit in the last place of the numbers around `value`. -/
def floatUnit (precision : ℕ) (value : ℚ) : ℚ :=
  2 ^ (Int.log 2 |value| + 1 - precision)

/-- Round to `precision` significant bits, ties to even. -/
def roundFloat (precision : ℕ) (value : ℚ) : ℚ :=
  roundTiesEven (value / floatUnit precision value) * floatUnit precision value

/-! ## Rounding to an integer -/

/-- No integer is nearer. -/
theorem abs_sub_roundTiesEven_le (value : ℚ) (other : ℤ) :
    |value - roundTiesEven value| ≤ |value - other| := by
  unfold roundTiesEven
  split
  · rename_i tie
    have below : |value - (⌊value⌋ : ℚ)| = 1 / 2 := by
      rw [Int.self_sub_floor, tie.1]
      norm_num
    have nearest : |value - (round value : ℚ)| = 1 / 2 := by
      rw [abs_sub_round_eq_min, tie.1]
      norm_num
    rw [below, ← nearest]
    exact round_le value other
  · exact round_le value other

theorem abs_sub_roundTiesEven_le_half (value : ℚ) :
    |value - roundTiesEven value| ≤ 1 / 2 :=
  (abs_sub_roundTiesEven_le value (round value)).trans (abs_sub_round value)

/-! ## Rounding to a precision -/

section Value

variable {precision : ℕ} {value other : ℚ}

theorem floatUnit_pos (precision : ℕ) (value : ℚ) : 0 < floatUnit precision value := by
  unfold floatUnit
  exact zpow_pos two_pos _

/-- A nonzero number lies between two consecutive powers of two. -/
theorem two_pow_mul_floatUnit_le
    (precisionPositive : 0 < precision)
    (nonzero : value ≠ 0) :
    2 ^ (precision - 1) * floatUnit precision value ≤ |value| ∧
      |value| < 2 ^ precision * floatUnit precision value := by
  have positive : 0 < |value| := abs_pos.mpr nonzero
  have lower : ((2 : ℕ) : ℚ) ^ Int.log 2 |value| ≤ |value| :=
    Int.zpow_log_le_self Nat.one_lt_two positive
  have upper : |value| < ((2 : ℕ) : ℚ) ^ (Int.log 2 |value| + 1) :=
    Int.lt_zpow_succ_log_self Nat.one_lt_two |value|
  push_cast at lower upper
  have below :
      (2 : ℚ) ^ (precision - 1) * floatUnit precision value =
        2 ^ Int.log 2 |value| := by
    rw [floatUnit, ← zpow_natCast, ← zpow_add₀ two_ne_zero]
    congr 1
    omega
  have above :
      (2 : ℚ) ^ precision * floatUnit precision value =
        2 ^ (Int.log 2 |value| + 1) := by
    rw [floatUnit, ← zpow_natCast, ← zpow_add₀ two_ne_zero]
    congr 1
    omega
  rw [below, above]
  exact ⟨lower, upper⟩

/-- Distances to multiples of the unit are measured in units. -/
theorem abs_sub_mul_floatUnit
    (precision : ℕ)
    (value : ℚ)
    (multiple : ℤ) :
    |value - multiple * floatUnit precision value| =
      |value / floatUnit precision value - multiple| * floatUnit precision value := by
  have positive := floatUnit_pos precision value
  calc |value - multiple * floatUnit precision value|
      = |(value / floatUnit precision value - multiple) *
          floatUnit precision value| := by
        rw [sub_mul, div_mul_cancel₀ _ (ne_of_gt positive)]
    _ = |value / floatUnit precision value - multiple| *
          floatUnit precision value := by
        rw [abs_mul, abs_of_pos positive]

/-- Among the multiples of the unit, none is nearer. -/
theorem abs_sub_roundFloat_le_multiple
    (precision : ℕ)
    (value : ℚ)
    (multiple : ℤ) :
    |value - roundFloat precision value| ≤
      |value - multiple * floatUnit precision value| := by
  rw [roundFloat, abs_sub_mul_floatUnit, abs_sub_mul_floatUnit]
  exact mul_le_mul_of_nonneg_right
    (abs_sub_roundTiesEven_le _ multiple) (le_of_lt (floatUnit_pos precision value))

/-- **Rounding is to nearest.** No number of as many significant bits is nearer. -/
theorem abs_sub_roundFloat_le
    (precisionPositive : 0 < precision)
    (represented : IsFloat precision other) :
    |value - roundFloat precision value| ≤ |value - other| := by
  rcases eq_or_ne value 0 with rfl | nonzero
  · have fixed : roundFloat precision 0 = 0 := by
      simp [roundFloat, roundTiesEven]
    rw [fixed, sub_zero, abs_zero]
    exact abs_nonneg _
  obtain ⟨significand, exponent, short, rfl⟩ := represented
  obtain ⟨atLeast, -⟩ := two_pow_mul_floatUnit_le precisionPositive nonzero
  rcases le_or_gt (Int.log 2 |value| + 1 - precision) exponent with coarse | fine
  · -- the other number is a multiple of the unit
    obtain ⟨shift, shifted⟩ := Int.eq_ofNat_of_zero_le (sub_nonneg.mpr coarse)
    have multiple :
        (significand : ℚ) * 2 ^ exponent =
          ((significand * 2 ^ shift : ℤ) : ℚ) * floatUnit precision value := by
      have split :
          exponent = shift + (Int.log 2 |value| + 1 - precision) := by
        omega
      rw [floatUnit, split, zpow_add₀ two_ne_zero, zpow_natCast]
      push_cast
      ring
    rw [multiple]
    exact abs_sub_roundFloat_le_multiple precision value _
  · -- the other number is smaller than the power of two below `value`
    have exponents : exponent + precision ≤ Int.log 2 |value| := by omega
    have small :
        |(significand : ℚ) * 2 ^ exponent| ≤ 2 ^ Int.log 2 |value| := by
      have significandSmall : |(significand : ℚ)| ≤ 2 ^ precision := by
        exact_mod_cast le_of_lt short
      calc |(significand : ℚ) * 2 ^ exponent|
          = |(significand : ℚ)| * 2 ^ exponent := by
            rw [abs_mul, abs_of_pos (zpow_pos (two_pos : (0 : ℚ) < 2) exponent)]
        _ ≤ 2 ^ precision * 2 ^ exponent :=
            mul_le_mul_of_nonneg_right significandSmall
              (le_of_lt (zpow_pos two_pos exponent))
        _ = 2 ^ (exponent + precision) := by
            rw [← zpow_natCast, ← zpow_add₀ two_ne_zero, add_comm]
        _ ≤ 2 ^ Int.log 2 |value| :=
            zpow_le_zpow_right₀ one_le_two exponents
    have power :
        (2 : ℚ) ^ Int.log 2 |value| =
          2 ^ (precision - 1) * floatUnit precision value := by
      rw [floatUnit, ← zpow_natCast, ← zpow_add₀ two_ne_zero]
      congr 1
      omega
    rw [power] at small
    have away := abs_sub_abs_le_abs_sub value ((significand : ℚ) * 2 ^ exponent)
    have unitPositive := floatUnit_pos precision value
    rcases le_or_gt 0 value with positive | negative
    · have nearest :=
        abs_sub_roundFloat_le_multiple precision value (2 ^ (precision - 1))
      rw [Int.cast_pow, Int.cast_ofNat] at nearest
      rw [abs_of_nonneg positive] at away atLeast
      have distance := nearest.trans_eq (abs_of_nonneg (sub_nonneg.mpr atLeast))
      linarith
    · have nearest :=
        abs_sub_roundFloat_le_multiple precision value (-2 ^ (precision - 1))
      rw [Int.cast_neg, Int.cast_pow, Int.cast_ofNat, neg_mul, sub_neg_eq_add]
        at nearest
      rw [abs_of_neg negative] at away atLeast
      have below : value + 2 ^ (precision - 1) * floatUnit precision value ≤ 0 := by
        linarith only [atLeast]
      have distance := nearest.trans_eq (abs_of_nonpos below)
      linarith

/-- The error is at most half a unit. -/
theorem abs_sub_roundFloat_le_div
    (precisionPositive : 0 < precision)
    (value : ℚ) :
    |value - roundFloat precision value| ≤ |value| / 2 ^ precision := by
  rcases eq_or_ne value 0 with rfl | nonzero
  · simp [roundFloat, roundTiesEven]
  have positive := floatUnit_pos precision value
  have bounds := two_pow_mul_floatUnit_le precisionPositive nonzero
  have half :
      |value - roundFloat precision value| ≤ 1 / 2 * floatUnit precision value := by
    rw [roundFloat, abs_sub_mul_floatUnit]
    exact mul_le_mul_of_nonneg_right (abs_sub_roundTiesEven_le_half _)
      (le_of_lt positive)
  have powers : (2 : ℚ) ^ precision = 2 * 2 ^ (precision - 1) := by
    rw [← pow_succ']
    congr 1
    omega
  rw [le_div_iff₀ (by positivity), powers]
  nlinarith [bounds.1, half, pow_pos (two_pos : (0 : ℚ) < 2) (precision - 1)]

/-- The rounded number has at most as many significant bits. -/
theorem isFloat_roundFloat
    (precisionPositive : 0 < precision)
    (value : ℚ) :
    IsFloat precision (roundFloat precision value) := by
  rcases eq_or_ne value 0 with rfl | nonzero
  · exact ⟨0, 0, by simp, by simp [roundFloat, roundTiesEven]⟩
  have positive := floatUnit_pos precision value
  have bounds := two_pow_mul_floatUnit_le precisionPositive nonzero
  let significand := roundTiesEven (value / floatUnit precision value)
  have close : |(significand : ℚ)| < 2 ^ precision + 1 := by
    have inside : |value / floatUnit precision value| < 2 ^ precision := by
      rw [abs_div, abs_of_pos positive, div_lt_iff₀ positive]
      exact bounds.2
    have error := abs_sub_roundTiesEven_le_half (value / floatUnit precision value)
    have triangle :=
      abs_sub_abs_le_abs_sub (significand : ℚ) (value / floatUnit precision value)
    rw [abs_sub_comm] at triangle
    have := triangle.trans error
    linarith
  have whole : |significand| < 2 ^ precision + 1 := by
    exact_mod_cast close
  rcases lt_or_eq_of_le (Int.lt_add_one_iff.mp whole) with short | carry
  · exact ⟨significand, _, short, rfl⟩
  · -- the significand was rounded up to the next power of two
    refine ⟨significand.sign,
      precision + (Int.log 2 |value| + 1 - precision), ?_, ?_⟩
    · have unit : |significand.sign| ≤ 1 := by
        rcases Int.sign_trichotomy significand with sign | sign | sign <;> simp [sign]
      exact lt_of_le_of_lt unit (one_lt_pow₀ one_lt_two (by omega))
    · have split : (significand : ℚ) = significand.sign * 2 ^ precision := by
        have product := Int.sign_mul_abs significand
        rw [carry] at product
        exact_mod_cast product.symm
      rw [zpow_add₀ two_ne_zero, zpow_natCast, ← mul_assoc, ← split]
      rfl

/-- Represented numbers are not changed. -/
theorem roundFloat_of_isFloat
    (precisionPositive : 0 < precision)
    (represented : IsFloat precision value) :
    roundFloat precision value = value := by
  have nearest : |value - roundFloat precision value| ≤ |value - value| :=
    abs_sub_roundFloat_le precisionPositive represented
  rw [sub_self, abs_zero] at nearest
  exact (sub_eq_zero.mp (abs_nonpos_iff.mp nearest)).symm

end Value

/-! ## Integers -/

section Integers

variable {precision : ℕ} {value : ℚ} {n : ℕ}

theorem isFloat_natCast (bounded : n < 2 ^ precision) : IsFloat precision n := by
  refine ⟨n, 0, ?_, by simp⟩
  rw [abs_of_nonneg (Int.natCast_nonneg n)]
  exact_mod_cast bounded

/-- An integer below the precision is not changed. -/
theorem roundFloat_natCast
    (precisionPositive : 0 < precision)
    (bounded : n < 2 ^ precision) :
    roundFloat precision n = n :=
  roundFloat_of_isFloat precisionPositive (isFloat_natCast bounded)

/-- The other represented numbers keep a distance from an integer. -/
theorem IsFloat.distance
    (represented : IsFloat precision value)
    (bounded : n < 2 ^ precision)
    (other : value ≠ n) :
    (n : ℚ) / 2 ^ precision ≤ |value - n| := by
  obtain ⟨significand, exponent, short, rfl⟩ := represented
  have precisionPower : (0 : ℚ) < 2 ^ precision := by positivity
  have nBounded : (n : ℚ) < 2 ^ precision := by exact_mod_cast bounded
  have fraction : (n : ℚ) / 2 ^ precision ≤ 1 := by
    rw [div_le_one precisionPower]
    exact le_of_lt nBounded
  rcases le_or_gt 0 exponent with whole | fractional
  · -- both numbers are integers
    obtain ⟨shift, rfl⟩ := Int.eq_ofNat_of_zero_le whole
    have integers :
        (significand : ℚ) * 2 ^ (shift : ℤ) - n =
          ((significand * 2 ^ shift - n : ℤ) : ℚ) := by
      push_cast
      rw [zpow_natCast]
    have nonzero : significand * 2 ^ shift - (n : ℤ) ≠ 0 := by
      intro zero
      apply other
      apply sub_eq_zero.mp
      exact integers.trans (congrArg Int.cast zero)
    have apart : (1 : ℚ) ≤ |((significand * 2 ^ shift - n : ℤ) : ℚ)| := by
      exact_mod_cast Int.one_le_abs nonzero
    rw [integers]
    linarith
  · -- both numbers are multiples of a negative power of two
    obtain ⟨shift, negative⟩ := Int.eq_ofNat_of_zero_le (le_of_lt (neg_pos.mpr fractional))
    obtain rfl : exponent = -(shift : ℤ) := by omega
    have power : (0 : ℚ) < 2 ^ shift := by positivity
    have unit : (2 : ℚ) ^ (-(shift : ℤ)) = 1 / 2 ^ shift := by
      rw [zpow_neg, zpow_natCast, one_div]
    rw [unit, mul_one_div] at other ⊢
    have integers :
        (significand : ℚ) / 2 ^ shift - n =
          ((significand - n * 2 ^ shift : ℤ) : ℚ) / 2 ^ shift := by
      push_cast
      field_simp
    have nonzero : significand - (n : ℤ) * 2 ^ shift ≠ 0 := by
      intro zero
      apply other
      rw [← sub_eq_zero, integers, zero, Int.cast_zero, zero_div]
    have apart : (1 : ℚ) ≤ |((significand - n * 2 ^ shift : ℤ) : ℚ)| := by
      exact_mod_cast Int.one_le_abs nonzero
    rw [integers, abs_div, abs_of_pos power, div_le_div_iff₀ precisionPower power]
    rcases le_or_gt ((n : ℚ) * 2 ^ shift) (2 ^ precision) with near | far
    · nlinarith
    · have significandSmall : (significand : ℚ) ≤ 2 ^ precision - 1 := by
        have bound := (abs_lt.mp short).2
        exact_mod_cast Int.le_sub_one_of_lt bound
      have below : ((significand - n * 2 ^ shift : ℤ) : ℚ) ≤ 0 := by
        push_cast
        linarith
      rw [abs_of_nonpos below]
      push_cast
      have one : (1 : ℚ) ≤ 2 ^ precision := one_le_pow₀ one_le_two
      nlinarith

/-- A number is rounded to an integer that is near enough. -/
theorem roundFloat_eq_natCast
    (precisionPositive : 0 < precision)
    (bounded : n < 2 ^ precision)
    (near : |value - n| < n / 2 ^ (precision + 1)) :
    roundFloat precision value = n := by
  by_contra other
  have apart :=
    (isFloat_roundFloat precisionPositive value).distance bounded other
  have nearest : |value - roundFloat precision value| ≤ |value - n| :=
    abs_sub_roundFloat_le precisionPositive (isFloat_natCast bounded)
  have triangle :
      |roundFloat precision value - n| ≤
        |value - roundFloat precision value| + |value - n| := by
    rw [abs_sub_comm value (roundFloat precision value)]
    exact abs_sub_le _ _ _
  rw [pow_succ, ← div_div] at near
  linarith

/-- Rounding the quotient of two integers keeps its integer part. -/
theorem floor_roundFloat_div
    (precisionPositive : 0 < precision)
    (bounded : n < 2 ^ precision)
    {divisor : ℕ}
    (divisorPositive : 0 < divisor) :
    ⌊roundFloat precision ((n : ℚ) / divisor)⌋ = (n / divisor : ℕ) := by
  have precisionPower : (0 : ℚ) < 2 ^ precision := by positivity
  have divisorPower : (0 : ℚ) < divisor := by exact_mod_cast divisorPositive
  have nBounded : (n : ℚ) < 2 ^ precision := by exact_mod_cast bounded
  have quotientBounded : n / divisor < 2 ^ precision :=
    Nat.lt_of_le_of_lt (Nat.div_le_self n divisor) bounded
  have below : ((n / divisor : ℕ) : ℚ) ≤ (n : ℚ) / divisor := Nat.cast_div_le
  have above : (n : ℚ) / divisor + 1 / divisor ≤ (n / divisor : ℕ) + 1 := by
    rw [← add_div, div_le_iff₀ divisorPower]
    have next : n + 1 ≤ (n / divisor + 1) * divisor :=
      Nat.succ_le_of_lt (Nat.lt_mul_of_div_lt (Nat.lt_succ_self _) divisorPositive)
    exact_mod_cast next
  have nonnegative : (0 : ℚ) ≤ (n : ℚ) / divisor := by positivity
  have error := abs_sub_roundFloat_le_div precisionPositive ((n : ℚ) / divisor)
  have nearest : |(n : ℚ) / divisor - roundFloat precision ((n : ℚ) / divisor)| ≤
      |(n : ℚ) / divisor - (n / divisor : ℕ)| :=
    abs_sub_roundFloat_le precisionPositive (isFloat_natCast quotientBounded)
  have errorSmall :
      |(n : ℚ) / divisor| / 2 ^ precision < 1 / divisor := by
    rw [abs_of_nonneg nonnegative, div_div, div_lt_div_iff₀ (by positivity) divisorPower]
    nlinarith
  rw [Int.floor_eq_iff, Int.cast_natCast]
  constructor
  · rw [abs_of_nonneg (sub_nonneg.mpr below)] at nearest
    have upper := (abs_le.mp nearest).2
    linarith
  · have lower := (abs_lt.mp (lt_of_le_of_lt error errorSmall)).1
    linarith

end Integers

end Foundation
end Hiemal
