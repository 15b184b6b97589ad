import Mathlib.Data.Nat.Log
import Mathlib.Tactic.Ring
import Mathlib.Tactic.SplitIfs

/-!
# Binary floating-point numbers

A binary floating-point format with `precision` significant bits represents the
natural numbers `significand * 2 ^ exponent` whose significand has at most that
many bits, as long as the exponent range is not left. Conversion of a natural
number rounds it to a nearest represented one, ties to the even significand.
The result is represented, and represented numbers are exactly the fixed points.

The second half is the 32-bit interchange format: its fields, its bit pattern,
the number a short dyadic fraction is stored as, and truncation to an integer.
-/

namespace Hiemal
namespace Foundation

/-- The number has at most `precision` significant bits. -/
def Representable (precision value : Nat) : Prop :=
  ∃ significand exponent, significand < 2 ^ precision ∧
    value = significand * 2 ^ exponent

/-- The quotient rounded to a nearest natural number, ties to even. -/
def divNearestEven (value divisor : Nat) : Nat :=
  let quotient := value / divisor
  let remainder := value % divisor
  if 2 * remainder < divisor then quotient
  else if divisor < 2 * remainder then quotient + 1
  else if quotient % 2 = 0 then quotient
  else quotient + 1

/-- Number of low bits of `value` that do not fit into the precision. -/
def excessBits (precision value : Nat) : Nat :=
  Nat.log 2 value + 1 - precision

/-- Round to `precision` significant bits, ties to even. -/
def roundToPrecision (precision value : Nat) : Nat :=
  divNearestEven value (2 ^ excessBits precision value) *
    2 ^ excessBits precision value

theorem divNearestEven_of_dvd
    {value divisor : Nat}
    (divisorPositive : 0 < divisor)
    (divides : divisor ∣ value) :
    divNearestEven value divisor = value / divisor := by
  have remainder : value % divisor = 0 := Nat.mod_eq_zero_of_dvd divides
  simp [divNearestEven, remainder, divisorPositive]

theorem divNearestEven_le
    (value divisor : Nat) :
    divNearestEven value divisor ≤ value / divisor + 1 := by
  unfold divNearestEven
  dsimp only
  split_ifs <;> omega

/-- The quotient by the excess bits fits into the precision. -/
theorem div_excess_lt
    (precision value : Nat) :
    value / 2 ^ excessBits precision value < 2 ^ precision := by
  have bound : value < 2 ^ (Nat.log 2 value + 1) :=
    Nat.lt_pow_succ_log_self (by omega) value
  rw [Nat.div_lt_iff_lt_mul (Nat.two_pow_pos _), ← Nat.pow_add]
  refine Nat.lt_of_lt_of_le bound (Nat.pow_le_pow_right (by omega) ?_)
  unfold excessBits
  omega

/-- Rounding yields a represented number. -/
theorem representable_roundToPrecision
    {precision : Nat}
    (precisionPositive : 0 < precision)
    (value : Nat) :
    Representable precision (roundToPrecision precision value) := by
  have small := div_excess_lt precision value
  have close := divNearestEven_le value (2 ^ excessBits precision value)
  rcases Nat.lt_or_ge
    (divNearestEven value (2 ^ excessBits precision value)) (2 ^ precision)
    with below | carry
  · exact ⟨_, _, below, rfl⟩
  · -- the significand was rounded up to the next power of two
    have power :
        divNearestEven value (2 ^ excessBits precision value) =
          2 ^ precision := by
      omega
    refine ⟨1, precision + excessBits precision value,
      Nat.one_lt_two_pow (by omega), ?_⟩
    rw [roundToPrecision, power, Nat.one_mul, ← Nat.pow_add]

/-- The excess bits of a represented number are zero. -/
theorem Representable.dvd
    {precision value : Nat}
    (representable : Representable precision value) :
    2 ^ excessBits precision value ∣ value := by
  obtain ⟨significand, exponent, bound, rfl⟩ := representable
  rcases Nat.eq_zero_or_pos significand with rfl | positive
  · simp
  · have lower :
        2 ^ Nat.log 2 (significand * 2 ^ exponent) ≤
          significand * 2 ^ exponent :=
      Nat.pow_log_le_self 2 (Nat.mul_ne_zero (by omega) (by simp))
    have upper :
        significand * 2 ^ exponent < 2 ^ (precision + exponent) := by
      rw [Nat.pow_add]
      exact Nat.mul_lt_mul_of_pos_right bound (Nat.two_pow_pos exponent)
    have exponents :
        Nat.log 2 (significand * 2 ^ exponent) < precision + exponent :=
      (Nat.pow_lt_pow_iff_right (by omega)).mp
        (Nat.lt_of_le_of_lt lower upper)
    refine Dvd.dvd.mul_left (Nat.pow_dvd_pow 2 ?_) significand
    unfold excessBits
    omega

/-- Represented numbers far above the precision are multiples of high powers of
two. -/
theorem Representable.two_pow_dvd
    {precision value bits : Nat}
    (representable : Representable precision value)
    (large : 2 ^ (precision + bits) ≤ value) :
    2 ^ bits ∣ value := by
  have exponents : precision + bits ≤ Nat.log 2 value :=
    Nat.le_log_of_pow_le (by omega) large
  refine Nat.dvd_trans (Nat.pow_dvd_pow 2 ?_) representable.dvd
  unfold excessBits
  omega

/-- Rounding changes exactly the numbers that are not represented. -/
theorem roundToPrecision_eq_self_iff
    {precision : Nat}
    (precisionPositive : 0 < precision)
    (value : Nat) :
    roundToPrecision precision value = value ↔
      Representable precision value := by
  constructor
  · intro unchanged
    rw [← unchanged]
    exact representable_roundToPrecision precisionPositive value
  · intro representable
    rw [roundToPrecision,
      divNearestEven_of_dvd (Nat.two_pow_pos _) representable.dvd]
    exact Nat.div_mul_cancel representable.dvd

/-- Doubling shifts the exponent only. -/
theorem Representable.two_mul
    {precision value : Nat}
    (representable : Representable precision value) :
    Representable precision (2 * value) := by
  obtain ⟨significand, exponent, bound, rfl⟩ := representable
  exact ⟨significand, exponent + 1, bound, by ring⟩

/-- A short number shifted left until its leading bit is the bit of a given
number. -/
theorem aligned_bounds
    {magnitude bits : Nat}
    (nonzero : magnitude ≠ 0)
    (bound : magnitude < 2 ^ (bits + 1)) :
    2 ^ bits ≤ magnitude * 2 ^ (bits - Nat.log 2 magnitude) ∧
      magnitude * 2 ^ (bits - Nat.log 2 magnitude) < 2 ^ (bits + 1) := by
  have lower : 2 ^ Nat.log 2 magnitude ≤ magnitude :=
    Nat.pow_log_le_self 2 nonzero
  have upper : magnitude < 2 ^ (Nat.log 2 magnitude + 1) :=
    Nat.lt_pow_succ_log_self (by omega) magnitude
  have short : Nat.log 2 magnitude < bits + 1 :=
    Nat.log_lt_of_lt_pow nonzero bound
  have aligned :
      2 ^ Nat.log 2 magnitude * 2 ^ (bits - Nat.log 2 magnitude) =
        2 ^ bits := by
    rw [← Nat.pow_add]
    congr 1
    omega
  constructor
  · rw [← aligned]
    exact Nat.mul_le_mul_right _ lower
  · have shifted := Nat.mul_lt_mul_of_pos_right upper
      (Nat.two_pow_pos (bits - Nat.log 2 magnitude))
    rw [Nat.pow_succ, Nat.mul_right_comm, aligned] at shifted
    rw [Nat.pow_succ]
    exact shifted

/-! ## The 32-bit format -/

/-- The fields of a 32-bit floating-point number. -/
structure Binary32 where
  negative : Bool
  /-- The biased exponent. -/
  exponent : Fin (2 ^ 8)
  /-- The significand without its leading bit. -/
  fraction : Fin (2 ^ 23)
  deriving DecidableEq, Repr

namespace Binary32

/-- The bit pattern of a number. -/
def toBits (number : Binary32) : Nat :=
  number.negative.toNat * 2 ^ 31 + number.exponent * 2 ^ 23 + number.fraction

/-- The number with the given bit pattern. -/
def ofBits (bits : Nat) : Binary32 where
  negative := bits / 2 ^ 31 % 2 = 1
  exponent := ⟨bits / 2 ^ 23 % 2 ^ 8, Nat.mod_lt _ (by omega)⟩
  fraction := ⟨bits % 2 ^ 23, Nat.mod_lt _ (by omega)⟩

/-- The number of magnitude `magnitude / 2 ^ scale`. It is exact when the
magnitude has at most 24 bits and the scale is at most 126. -/
def ofScaled (negative : Bool) (magnitude scale : Nat) : Binary32 :=
  if magnitude = 0 then { negative, exponent := 0, fraction := 0 }
  else
    { negative
      exponent := Fin.ofNat (2 ^ 8) (Nat.log 2 magnitude + 127 - scale)
      fraction :=
        Fin.ofNat (2 ^ 23) (magnitude * 2 ^ (23 - Nat.log 2 magnitude)) }

/-- The significand of a finite number, with the leading bit of a normal one. -/
def significand (number : Binary32) : Nat :=
  if number.exponent = 0 then number.fraction
  else 2 ^ 23 + number.fraction

/-- The number times `2 ^ scale`, rounded toward zero. It is `none` when the
number is infinite or not a number. -/
def truncScaled (number : Binary32) (scale : Nat) : Option Int :=
  if number.exponent.val = 255 then none
  else
    -- the significand counts units of two to this exponent, plus 150
    let shifted := max number.exponent.val 1 + scale
    let magnitude :=
      if 150 ≤ shifted then number.significand * 2 ^ (shifted - 150)
      else number.significand / 2 ^ (150 - shifted)
    some (if number.negative then -(magnitude : Int) else magnitude)

@[simp] theorem ofBits_toBits (number : Binary32) :
    ofBits number.toBits = number := by
  obtain ⟨negative, ⟨exponent, exponentBound⟩, ⟨fraction, fractionBound⟩⟩ :=
    number
  have sign : negative.toNat ≤ 1 := Bool.toNat_le negative
  simp only [ofBits, toBits, mk.injEq, Fin.mk.injEq]
  refine ⟨?_, by omega, by omega⟩
  have leading :
      (negative.toNat * 2 ^ 31 + exponent * 2 ^ 23 + fraction) / 2 ^ 31 =
        negative.toNat := by
    omega
  simp only [leading]
  cases negative <;> rfl

theorem toBits_lt (number : Binary32) : number.toBits < 2 ^ 32 := by
  obtain ⟨negative, ⟨exponent, exponentBound⟩, ⟨fraction, fractionBound⟩⟩ :=
    number
  have sign : negative.toNat ≤ 1 := Bool.toNat_le negative
  simp only [toBits]
  omega

@[simp] theorem negative_ofScaled
    (negative : Bool)
    (magnitude scale : Nat) :
    (ofScaled negative magnitude scale).negative = negative := by
  unfold ofScaled
  split <;> rfl

theorem exponent_ofScaled
    (negative : Bool)
    {magnitude scale : Nat}
    (nonzero : magnitude ≠ 0)
    (bound : magnitude < 2 ^ 24) :
    (ofScaled negative magnitude scale).exponent.val =
      Nat.log 2 magnitude + 127 - scale := by
  have short : Nat.log 2 magnitude < 24 :=
    Nat.log_lt_of_lt_pow nonzero bound
  rw [ofScaled, if_neg nonzero]
  exact Nat.mod_eq_of_lt (by omega)

/-- A nonzero short number is stored as a normal one. -/
theorem significand_ofScaled
    (negative : Bool)
    {magnitude scale : Nat}
    (nonzero : magnitude ≠ 0)
    (bound : magnitude < 2 ^ 24)
    (scaleBound : scale ≤ 126) :
    (ofScaled negative magnitude scale).significand =
      magnitude * 2 ^ (23 - Nat.log 2 magnitude) := by
  have aligned := aligned_bounds nonzero bound
  have exponent :
      (ofScaled negative magnitude scale).exponent.val =
        Nat.log 2 magnitude + 127 - scale :=
    exponent_ofScaled negative nonzero bound
  have normal : (ofScaled negative magnitude scale).exponent ≠ 0 := by
    intro zero
    rw [zero, Fin.val_zero] at exponent
    omega
  rw [significand, if_neg normal, ofScaled, if_neg nonzero]
  show 2 ^ 23 + magnitude * 2 ^ (23 - Nat.log 2 magnitude) % 2 ^ 23 = _
  omega

/-- Shifting an aligned number back. -/
theorem shift_aligned
    {magnitude : Nat}
    (nonzero : magnitude ≠ 0)
    (bound : magnitude < 2 ^ 24) :
    (if 150 ≤ Nat.log 2 magnitude + 127 then
        magnitude * 2 ^ (23 - Nat.log 2 magnitude) *
          2 ^ (Nat.log 2 magnitude + 127 - 150)
      else
        magnitude * 2 ^ (23 - Nat.log 2 magnitude) /
          2 ^ (150 - (Nat.log 2 magnitude + 127))) =
      magnitude := by
  have short : Nat.log 2 magnitude < 24 :=
    Nat.log_lt_of_lt_pow nonzero bound
  split_ifs with large
  · have full : Nat.log 2 magnitude = 23 := by omega
    simp [full]
  · have same :
        150 - (Nat.log 2 magnitude + 127) = 23 - Nat.log 2 magnitude := by
      omega
    rw [same, Nat.mul_div_cancel _ (Nat.two_pow_pos _)]

/-- Scaling a short number back recovers it. -/
theorem truncScaled_ofScaled
    (negative : Bool)
    {magnitude scale : Nat}
    (bound : magnitude < 2 ^ 24)
    (scaleBound : scale ≤ 126) :
    (ofScaled negative magnitude scale).truncScaled scale =
      some (if negative then -(magnitude : Int) else magnitude) := by
  by_cases zero : magnitude = 0
  · simp [ofScaled, truncScaled, significand, zero]
  · have short : Nat.log 2 magnitude < 24 :=
      Nat.log_lt_of_lt_pow zero bound
    have shifted :
        max (Nat.log 2 magnitude + 127 - scale) 1 + scale =
          Nat.log 2 magnitude + 127 := by
      omega
    simp only [truncScaled, exponent_ofScaled negative zero bound,
      significand_ofScaled negative zero bound scaleBound, shifted,
      shift_aligned zero bound, negative_ofScaled]
    rw [if_neg (by omega)]

end Binary32

end Foundation
end Hiemal
