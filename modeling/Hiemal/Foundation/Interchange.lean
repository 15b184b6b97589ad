import Hiemal.Foundation.BinaryFloat
import Mathlib.Algebra.Field.Rat
import Mathlib.Tactic.FieldSimp

/-!
# Interchange formats

A binary interchange format has a sign, a biased exponent and a fraction of fixed
widths. Its finite numbers stand for rational numbers; a short dyadic fraction is
stored as a number that stands for it, in every format that is wide enough.
-/

namespace Hiemal
namespace Foundation

/-- The fields of a number in the format of the given widths. -/
structure Interchange (exponentBits fractionBits : Nat) where
  negative : Bool
  /-- The biased exponent. -/
  exponent : Fin (2 ^ exponentBits)
  /-- The significand without its leading bit. -/
  fraction : Fin (2 ^ fractionBits)
  deriving DecidableEq

/-- The 64-bit format. -/
abbrev Binary64 := Interchange 11 52

namespace Interchange

variable {exponentBits fractionBits : Nat}

/-- The bias of the exponent. -/
def bias (exponentBits : Nat) : Nat :=
  2 ^ (exponentBits - 1) - 1

/-- The bit pattern of a number. -/
def toBits (number : Interchange exponentBits fractionBits) : Nat :=
  (number.negative.toNat * 2 ^ exponentBits + number.exponent) *
      2 ^ fractionBits +
    number.fraction

/-- The number with the given bit pattern. -/
def ofBits (bits : Nat) : Interchange exponentBits fractionBits where
  negative := bits / 2 ^ fractionBits / 2 ^ exponentBits % 2 = 1
  exponent :=
    ⟨bits / 2 ^ fractionBits % 2 ^ exponentBits,
      Nat.mod_lt _ (Nat.two_pow_pos _)⟩
  fraction := ⟨bits % 2 ^ fractionBits, Nat.mod_lt _ (Nat.two_pow_pos _)⟩

/-- The significand of a finite number, with the leading bit of a normal one. -/
def significand (number : Interchange exponentBits fractionBits) : Nat :=
  if number.exponent.val = 0 then number.fraction
  else 2 ^ fractionBits + number.fraction

/-- The rational number that a finite number stands for. It is `none` when the
number is infinite or not a number. -/
def value (number : Interchange exponentBits fractionBits) : Option ℚ :=
  if number.exponent.val = 2 ^ exponentBits - 1 then none
  else
    let magnitude :=
      (number.significand : ℚ) *
        2 ^ ((max number.exponent.val 1 : Int) -
          (bias exponentBits + fractionBits))
    some (if number.negative then -magnitude else magnitude)

/-- The number of magnitude `magnitude / 2 ^ scale`, if that is short enough for the
format. -/
def ofScaled
    (negative : Bool)
    (magnitude scale : Nat) : Interchange exponentBits fractionBits :=
  if magnitude = 0 then
    { negative
      exponent := ⟨0, Nat.two_pow_pos _⟩
      fraction := ⟨0, Nat.two_pow_pos _⟩ }
  else
    { negative
      exponent :=
        ⟨(Nat.log 2 magnitude + bias exponentBits - scale) % 2 ^ exponentBits,
          Nat.mod_lt _ (Nat.two_pow_pos _)⟩
      fraction :=
        ⟨magnitude * 2 ^ (fractionBits - Nat.log 2 magnitude) %
            2 ^ fractionBits,
          Nat.mod_lt _ (Nat.two_pow_pos _)⟩ }

/-! ## Bit patterns -/

@[simp] theorem ofBits_toBits
    (number : Interchange exponentBits fractionBits) :
    ofBits number.toBits = number := by
  obtain ⟨negative, ⟨exponent, exponentBound⟩, ⟨fraction, fractionBound⟩⟩ :=
    number
  have high :
      ((negative.toNat * 2 ^ exponentBits + exponent) * 2 ^ fractionBits +
          fraction) / 2 ^ fractionBits =
        negative.toNat * 2 ^ exponentBits + exponent := by
    rw [Nat.mul_comm, Nat.mul_add_div (Nat.two_pow_pos _),
      Nat.div_eq_of_lt fractionBound, Nat.add_zero]
  have leading :
      (negative.toNat * 2 ^ exponentBits + exponent) / 2 ^ exponentBits =
        negative.toNat := by
    rw [Nat.mul_comm, Nat.mul_add_div (Nat.two_pow_pos _),
      Nat.div_eq_of_lt exponentBound, Nat.add_zero]
  simp only [ofBits, toBits, mk.injEq, Fin.mk.injEq, high, leading]
  refine ⟨?_, ?_, ?_⟩
  · cases negative <;> rfl
  · rw [Nat.mul_comm, Nat.mul_add_mod, Nat.mod_eq_of_lt exponentBound]
  · rw [Nat.mul_comm, Nat.mul_add_mod, Nat.mod_eq_of_lt fractionBound]

theorem toBits_lt (number : Interchange exponentBits fractionBits) :
    number.toBits < 2 ^ (1 + exponentBits + fractionBits) := by
  obtain ⟨negative, ⟨exponent, exponentBound⟩, ⟨fraction, fractionBound⟩⟩ :=
    number
  have sign : negative.toNat ≤ 1 := Bool.toNat_le negative
  have high :
      negative.toNat * 2 ^ exponentBits + exponent + 1 ≤
        2 ^ (1 + exponentBits) := by
    rw [Nat.pow_add]
    have scaled := Nat.mul_le_mul_right (2 ^ exponentBits) sign
    omega
  calc
    (negative.toNat * 2 ^ exponentBits + exponent) * 2 ^ fractionBits +
          fraction <
        (negative.toNat * 2 ^ exponentBits + exponent + 1) *
          2 ^ fractionBits := by
      rw [Nat.succ_mul]
      omega
    _ ≤ 2 ^ (1 + exponentBits) * 2 ^ fractionBits :=
      Nat.mul_le_mul_right _ high
    _ = 2 ^ (1 + exponentBits + fractionBits) := (Nat.pow_add _ _ _).symm

/-! ## Values -/

theorem two_pow_exponentBits (positive : 0 < bias exponentBits) :
    2 ^ exponentBits = 2 * bias exponentBits + 2 := by
  cases exponentBits with
  | zero => exact absurd positive (by decide)
  | succ bits =>
      rw [bias, Nat.add_sub_cancel] at positive ⊢
      rw [Nat.pow_succ]
      omega

section Short

variable {magnitude scale : Nat}

/-- The exponent of a short dyadic fraction is that of a normal number. -/
theorem exponent_ofScaled
    (negative : Bool)
    (nonzero : magnitude ≠ 0)
    (bound : magnitude < 2 ^ (fractionBits + 1))
    (scaleBound : scale < bias exponentBits)
    (wide : fractionBits ≤ bias exponentBits) :
    (ofScaled negative magnitude scale :
        Interchange exponentBits fractionBits).exponent.val =
      Nat.log 2 magnitude + bias exponentBits - scale := by
  have short : Nat.log 2 magnitude < fractionBits + 1 :=
    Nat.log_lt_of_lt_pow nonzero bound
  have range := @two_pow_exponentBits exponentBits (by omega)
  rw [ofScaled, if_neg nonzero]
  exact Nat.mod_eq_of_lt (by omega)

theorem significand_ofScaled
    (negative : Bool)
    (nonzero : magnitude ≠ 0)
    (bound : magnitude < 2 ^ (fractionBits + 1))
    (scaleBound : scale < bias exponentBits)
    (wide : fractionBits ≤ bias exponentBits) :
    (ofScaled negative magnitude scale :
        Interchange exponentBits fractionBits).significand =
      magnitude * 2 ^ (fractionBits - Nat.log 2 magnitude) := by
  obtain ⟨lower, upper⟩ := aligned_bounds nonzero bound
  have exponent :=
    exponent_ofScaled negative nonzero bound scaleBound wide
  rw [significand, exponent, if_neg (by omega), ofScaled, if_neg nonzero]
  show 2 ^ fractionBits +
      magnitude * 2 ^ (fractionBits - Nat.log 2 magnitude) %
        2 ^ fractionBits = _
  rw [Nat.mod_eq_sub_mod lower, Nat.mod_eq_of_lt]
  · omega
  · rw [Nat.pow_succ] at upper
    omega

/-- Shifting the leading bit to its place and back. -/
theorem aligned_mul_zpow
    (short : Nat.log 2 magnitude ≤ fractionBits)
    (inRange : scale ≤ Nat.log 2 magnitude + bias exponentBits) :
    ((magnitude * 2 ^ (fractionBits - Nat.log 2 magnitude) : Nat) : ℚ) *
        2 ^ (((Nat.log 2 magnitude + bias exponentBits - scale : Nat) : Int) -
          (bias exponentBits + fractionBits)) =
      magnitude / 2 ^ scale := by
  have exponents :
      ((Nat.log 2 magnitude + bias exponentBits - scale : Nat) : Int) -
          (bias exponentBits + fractionBits) =
        -((fractionBits - Nat.log 2 magnitude : Nat) : Int) -
          (scale : Int) := by
    omega
  rw [exponents, zpow_sub₀ two_ne_zero, zpow_neg, zpow_natCast, zpow_natCast]
  push_cast
  field_simp

/-- A short dyadic fraction, in a format wide enough for it, is stored as a number
that stands for it. -/
theorem value_ofScaled
    (negative : Bool)
    (bound : magnitude < 2 ^ (fractionBits + 1))
    (scaleBound : scale < bias exponentBits)
    (wide : fractionBits ≤ bias exponentBits) :
    (ofScaled negative magnitude scale :
        Interchange exponentBits fractionBits).value =
      some
        (if negative then -((magnitude : ℚ) / 2 ^ scale)
          else magnitude / 2 ^ scale) := by
  have range := @two_pow_exponentBits exponentBits (by omega)
  by_cases zero : magnitude = 0
  · subst zero
    have finite : ¬0 = 2 ^ exponentBits - 1 := by omega
    simp [ofScaled, value, significand, finite]
  · have short : Nat.log 2 magnitude < fractionBits + 1 :=
      Nat.log_lt_of_lt_pow zero bound
    have exponent :=
      exponent_ofScaled negative zero bound scaleBound wide
    have sign :
        (ofScaled negative magnitude scale :
          Interchange exponentBits fractionBits).negative = negative := by
      rw [ofScaled, if_neg zero]
    have normal :
        max (Nat.log 2 magnitude + bias exponentBits - scale) 1 =
          Nat.log 2 magnitude + bias exponentBits - scale := by
      omega
    rw [value, exponent, if_neg (by omega),
      significand_ofScaled negative zero bound scaleBound wide, sign]
    have stands :=
      @aligned_mul_zpow exponentBits fractionBits magnitude scale (by omega)
        (by omega)
    rw [← Nat.cast_one, ← Nat.cast_max, normal]
    dsimp only
    rw [stands]

end Short

end Interchange

/-! ## The 32-bit format -/

namespace Binary32

/-- A number of the 32-bit format, by its fields. -/
def toInterchange (number : Binary32) : Interchange 8 23 where
  negative := number.negative
  exponent := number.exponent
  fraction := number.fraction

theorem toInterchange_ofScaled
    (negative : Bool)
    (magnitude scale : Nat) :
    (ofScaled negative magnitude scale).toInterchange =
      Interchange.ofScaled negative magnitude scale := by
  unfold ofScaled Interchange.ofScaled
  split_ifs <;> rfl

end Binary32

end Foundation
end Hiemal
