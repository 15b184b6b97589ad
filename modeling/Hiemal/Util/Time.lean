import Hiemal.Foundation.Rounding
import Hiemal.Foundation.Truncation

/-!
# Elapsed time

Translation of `elapsed_time_ms` and `elapsed_time_us` in `util/time.c`, as built on
unix. The two differ in the constants they divide by. The quotients and their sum are
computed in `double`, where neither `1e-3` nor `1e-6` is represented, and truncated
twice. The results are shown to be the whole milliseconds and microseconds between two
readings of a clock all the same.

An operation in `double` is its exact result, rounded to 53 significant bits. No
number here leaves the exponent range.
-/

namespace Hiemal

open Foundation

/-- `struct timespec`. -/
structure TimeSpec where
  tvSec : ℤ
  tvNsec : ℤ

/-- The nearest number of type `double`. -/
def toDouble (value : ℚ) : ℚ :=
  roundFloat 53 value

/-- Conversion of a `double` to `long`. -/
def doubleToLong (value : ℚ) : Option ℤ :=
  if -2 ^ 63 - 1 < value ∧ value < 2 ^ 63 then
    some (if 0 ≤ value then ⌊value⌋ else ⌈value⌉)
  else none

/-- A second of `current` is counted in nanoseconds when `start` has more of them. -/
def borrowSecond (start current : TimeSpec) : Option TimeSpec :=
  if current.tvNsec < start.tvNsec then
    (doubleToLong (toDouble (toDouble current.tvNsec + 1000000000))).map
      fun tvNsec => { tvSec := current.tvSec - 1, tvNsec := tvNsec }
  else some current

/-- The time since `start` in units of `nsecUnit` nanoseconds, or `secUnit` seconds.
Each of the two additions is made in `double` and truncated. -/
def elapsedTime (nsecUnit secUnit : ℚ) (start current : TimeSpec) : Option ℕ := do
  let current ← borrowSecond start current
  let timeElapsed ←
    truncateUnsigned 64
      (toDouble
        (toDouble 0 +
          toDouble (toDouble (current.tvNsec - start.tvNsec : ℤ) / nsecUnit)))
  truncateUnsigned 64
    (toDouble
      (toDouble timeElapsed +
        toDouble (toDouble (current.tvSec - start.tvSec : ℤ) / secUnit)))

/-- `elapsed_time_ms`. -/
def elapsedTimeMs (start current : TimeSpec) : Option ℕ :=
  elapsedTime 1000000 (toDouble (1 / 1000)) start current

/-- `elapsed_time_us`. -/
def elapsedTimeUs (start current : TimeSpec) : Option ℕ :=
  elapsedTime 1000 (toDouble (1 / 1000000)) start current

/-! ## Readings of a clock -/

/-- A clock reads less than a second of nanoseconds. -/
def TimeSpec.Valid (time : TimeSpec) : Prop :=
  0 ≤ time.tvNsec ∧ time.tvNsec < 1000000000

/-- The time read, in nanoseconds. -/
def TimeSpec.nanoseconds (time : TimeSpec) : ℤ :=
  time.tvSec * 1000000000 + time.tvNsec

/-! ## Conversions -/

theorem toDouble_natCast {n : ℕ} (bounded : n < 2 ^ 53) : toDouble n = n :=
  roundFloat_natCast (by decide) bounded

theorem toDouble_toDouble (value : ℚ) : toDouble (toDouble value) = toDouble value :=
  roundFloat_of_isFloat (by decide) (isFloat_roundFloat (by decide) value)

theorem toDouble_zero : toDouble 0 = 0 := by
  have zero := @toDouble_natCast 0 (by decide)
  rwa [Nat.cast_zero] at zero

theorem doubleToLong_natCast {n : ℕ} (bounded : n < 2 ^ 63) :
    doubleToLong n = some (n : ℤ) := by
  have upper : (n : ℚ) < 2 ^ 63 := by exact_mod_cast bounded
  have lower : (0 : ℚ) ≤ n := Nat.cast_nonneg n
  have within : -2 ^ 63 - 1 < (n : ℚ) ∧ (n : ℚ) < 2 ^ 63 := by
    refine ⟨?_, upper⟩
    linarith
  rw [doubleToLong, if_pos within, if_pos lower, Int.floor_natCast]

theorem truncateUnsigned_of_floor
    {value : ℚ}
    {n : ℕ}
    (bounded : n < 2 ^ 53)
    (whole : ⌊value⌋ = n) :
    truncateUnsigned 64 value = some n := by
  rw [truncateUnsigned_eq_some_iff]
  refine ⟨bounded.trans (by decide), ?_⟩
  rw [Int.floor_eq_iff, Int.cast_natCast] at whole
  exact ⟨Or.inl whole.1, whole.2⟩

theorem truncateUnsigned_natCast
    {n : ℕ}
    (bounded : n < 2 ^ 53) :
    truncateUnsigned 64 (n : ℚ) = some n :=
  truncateUnsigned_of_floor bounded (Int.floor_natCast n)

/-! ## Borrowing -/

section Readings

variable {start current : TimeSpec} {elapsed : ℕ}

/-- After borrowing neither field is behind, and the nanoseconds make up less than a
second. -/
theorem borrowSecond_eq
    (startValid : start.Valid)
    (currentValid : current.Valid)
    (later : current.nanoseconds = start.nanoseconds + elapsed) :
    ∃ seconds nanoseconds : ℕ,
      borrowSecond start current =
          some ⟨start.tvSec + seconds, start.tvNsec + nanoseconds⟩ ∧
        nanoseconds < 1000000000 ∧
        elapsed = seconds * 1000000000 + nanoseconds := by
  obtain ⟨startLower, startUpper⟩ := startValid
  obtain ⟨currentLower, currentUpper⟩ := currentValid
  unfold TimeSpec.nanoseconds at later
  unfold borrowSecond
  split
  · -- the sum in `double` is exact
    rename_i behind
    obtain ⟨tvNsec, read⟩ := Int.eq_ofNat_of_zero_le currentLower
    have first : toDouble current.tvNsec = tvNsec := by
      rw [read, Int.cast_natCast]
      apply toDouble_natCast
      omega
    have sum :
        toDouble (toDouble current.tvNsec + 1000000000) =
          (tvNsec + 1000000000 : ℕ) := by
      rw [first]
      have exactSum := @toDouble_natCast (tvNsec + 1000000000) (by omega)
      rwa [Nat.cast_add, Nat.cast_ofNat] at exactSum ⊢
    rw [sum, doubleToLong_natCast (by omega), Option.map_some]
    refine ⟨(current.tvSec - 1 - start.tvSec).toNat,
      (current.tvNsec + 1000000000 - start.tvNsec).toNat, ?_, ?_, ?_⟩
    · rw [Option.some_inj, TimeSpec.mk.injEq]
      omega
    · omega
    · omega
  · rename_i ahead
    refine ⟨(current.tvSec - start.tvSec).toNat,
      (current.tvNsec - start.tvNsec).toNat, ?_, ?_, ?_⟩
    · cases current
      rw [Option.some_inj, TimeSpec.mk.injEq]
      simp only at ahead later currentLower currentUpper ⊢
      omega
    · omega
    · omega

/-! ## Dividing -/

/-- The result is the elapsed time in whole units, when dividing by the seconds in a
unit is as good as multiplying by the units in a second. -/
theorem elapsedTime_eq
    {nsecUnit unitsPerSec : ℕ}
    {secUnit : ℚ}
    (unitPositive : 0 < nsecUnit)
    (unitsPositive : 0 < unitsPerSec)
    (units : unitsPerSec * nsecUnit = 1000000000)
    (divides :
      ∀ seconds : ℕ, seconds * unitsPerSec < 2 ^ 53 →
        toDouble (seconds / secUnit) = (seconds * unitsPerSec : ℕ))
    (startValid : start.Valid)
    (currentValid : current.Valid)
    (later : current.nanoseconds = start.nanoseconds + elapsed)
    (bounded : elapsed / nsecUnit < 2 ^ 53) :
    elapsedTime nsecUnit secUnit start current = some (elapsed / nsecUnit) := by
  obtain ⟨seconds, nanoseconds, borrowed, fraction, split⟩ :=
    borrowSecond_eq startValid currentValid later
  have whole :
      elapsed / nsecUnit = seconds * unitsPerSec + nanoseconds / nsecUnit := by
    rw [split, ← units, ← Nat.mul_assoc, Nat.mul_comm _ nsecUnit,
      Nat.mul_add_div unitPositive]
  have unitsBounded : seconds * unitsPerSec < 2 ^ 53 := by
    rw [whole] at bounded
    exact Nat.lt_of_le_of_lt (Nat.le_add_right _ _) bounded
  have secondsBounded : seconds < 2 ^ 53 :=
    Nat.lt_of_le_of_lt (Nat.le_mul_of_pos_right seconds unitsPositive) unitsBounded
  have nanosecondsBounded : nanoseconds < 2 ^ 53 := by omega
  have quotientBounded : nanoseconds / nsecUnit < 2 ^ 53 :=
    Nat.lt_of_le_of_lt (Nat.div_le_self _ _) nanosecondsBounded
  -- the first sum is a rounded quotient, which keeps its integer part
  have first :
      truncateUnsigned 64
          (toDouble
            (toDouble 0 + toDouble (toDouble (nanoseconds : ℚ) / nsecUnit))) =
        some (nanoseconds / nsecUnit) := by
    rw [toDouble_zero, zero_add, toDouble_toDouble,
      toDouble_natCast nanosecondsBounded]
    apply truncateUnsigned_of_floor quotientBounded
    exact floor_roundFloat_div (by decide) nanosecondsBounded unitPositive
  -- the second one is an integer
  have second :
      truncateUnsigned 64
          (toDouble
            (toDouble (nanoseconds / nsecUnit : ℕ) +
              toDouble (toDouble (seconds : ℚ) / secUnit))) =
        some (elapsed / nsecUnit) := by
    rw [toDouble_natCast quotientBounded, toDouble_natCast secondsBounded,
      divides seconds unitsBounded, ← Nat.cast_add, Nat.add_comm, ← whole,
      toDouble_natCast bounded, truncateUnsigned_natCast bounded]
  unfold elapsedTime
  rw [borrowed]
  simp only [Option.bind_eq_bind, Option.bind_some, add_sub_cancel_left,
    Int.cast_natCast]
  rw [first, Option.bind_some, second]

/-- Dividing by a number that is near enough to `1 / unitsPerSec` and rounding gives
the multiple. -/
theorem toDouble_div_eq
    {unitsPerSec seconds : ℕ}
    {secUnit : ℚ}
    (near : |1 / secUnit - unitsPerSec| < unitsPerSec / 2 ^ 54)
    (bounded : seconds * unitsPerSec < 2 ^ 53) :
    toDouble (seconds / secUnit) = (seconds * unitsPerSec : ℕ) := by
  rcases Nat.eq_zero_or_pos seconds with rfl | positive
  · rw [Nat.zero_mul, Nat.cast_zero, zero_div, toDouble_zero]
  · apply roundFloat_eq_natCast (by decide) bounded
    have secondsPositive : (0 : ℚ) < seconds := by exact_mod_cast positive
    have distance :
        (seconds : ℚ) / secUnit - (seconds * unitsPerSec : ℕ) =
          seconds * (1 / secUnit - unitsPerSec) := by
      rw [Nat.cast_mul]
      ring
    rw [distance, abs_mul, abs_of_pos secondsPositive, Nat.cast_mul, mul_div_assoc]
    exact mul_lt_mul_of_pos_left near secondsPositive

/-- The `double` written `1e-3`. -/
theorem toDouble_milli : toDouble (1 / 1000) = 1152921504606847 / 2 ^ 60 := by
  decide +kernel

/-- The `double` written `1e-6`. -/
theorem toDouble_micro : toDouble (1 / 1000000) = 4722366482869645 / 2 ^ 72 := by
  decide +kernel

theorem elapsedTimeMs_eq
    (startValid : start.Valid)
    (currentValid : current.Valid)
    (later : current.nanoseconds = start.nanoseconds + elapsed)
    (bounded : elapsed / 1000000 < 2 ^ 53) :
    elapsedTimeMs start current = some (elapsed / 1000000) := by
  have divides (seconds : ℕ) :
      seconds * 1000 < 2 ^ 53 →
        toDouble (seconds / toDouble (1 / 1000)) = (seconds * 1000 : ℕ) := by
    apply toDouble_div_eq
    rw [toDouble_milli]
    norm_num [abs_lt]
  exact elapsedTime_eq (by decide) (by decide) (by decide) divides
    startValid currentValid later bounded

theorem elapsedTimeUs_eq
    (startValid : start.Valid)
    (currentValid : current.Valid)
    (later : current.nanoseconds = start.nanoseconds + elapsed)
    (bounded : elapsed / 1000 < 2 ^ 53) :
    elapsedTimeUs start current = some (elapsed / 1000) := by
  have divides (seconds : ℕ) :
      seconds * 1000000 < 2 ^ 53 →
        toDouble (seconds / toDouble (1 / 1000000)) = (seconds * 1000000 : ℕ) := by
    apply toDouble_div_eq
    rw [toDouble_micro]
    norm_num [abs_lt]
  exact elapsedTime_eq (by decide) (by decide) (by decide) divides
    startValid currentValid later bounded

/-- **The elapsed times are exact.** As long as they are integers of type `double`, the
results are the whole milliseconds and microseconds between the two readings. -/
theorem elapsedTimes_exact
    (startValid : start.Valid)
    (currentValid : current.Valid)
    (later : current.nanoseconds = start.nanoseconds + elapsed) :
    (elapsed / 1000000 < 2 ^ 53 →
        elapsedTimeMs start current = some (elapsed / 1000000)) ∧
      (elapsed / 1000 < 2 ^ 53 →
        elapsedTimeUs start current = some (elapsed / 1000)) :=
  ⟨elapsedTimeMs_eq startValid currentValid later,
    elapsedTimeUs_eq startValid currentValid later⟩

theorem elapsedTimes_exact_borrowed :
    elapsedTimeMs ⟨5, 999999999⟩ ⟨7, 3⟩ = some 1000 ∧
      elapsedTimeUs ⟨5, 999999999⟩ ⟨7, 3⟩ = some 1000000 := by
  have exact :=
    @elapsedTimes_exact ⟨5, 999999999⟩ ⟨7, 3⟩ 1000000004
      ⟨by decide, by decide⟩ ⟨by decide, by decide⟩ rfl
  exact ⟨exact.1 (by decide), exact.2 (by decide)⟩

end Readings

end Hiemal
