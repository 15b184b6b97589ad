import Mathlib.Data.Int.ModEq
import Mathlib.Tactic.Positivity
import Mathlib.Tactic.Ring
import Mathlib.Tactic.Zify

/-!
# Fixed-width integers

A value of an exact integer expression is stored in a fixed-width machine
integer by reducing it modulo the width: unsigned types keep the residue in
`[0, 2 ^ width)`, two's complement types the one in
`[-2 ^ (width - 1), 2 ^ (width - 1))`. Values already in range are unchanged.
In memory the bytes of a number are stored least significant first.
-/

namespace Hiemal
namespace Foundation

/-- The value an unsigned integer of the given width keeps of `value`. -/
def toUnsigned (width : Nat) (value : Int) : Nat :=
  (value % 2 ^ width).toNat

/-- The value a two's complement integer of the given width keeps of `value`. -/
def toSigned (width : Nat) (value : Int) : Int :=
  value.bmod (2 ^ width)

theorem toUnsigned_lt
    (width : Nat)
    (value : Int) :
    toUnsigned width value < 2 ^ width := by
  have modulusPositive : (0 : Int) < 2 ^ width := by positivity
  have nonnegative := Int.emod_nonneg value (ne_of_gt modulusPositive)
  have bounded := Int.emod_lt_of_pos value modulusPositive
  unfold toUnsigned
  zify
  rw [Int.toNat_of_nonneg nonnegative]
  exact bounded

theorem toUnsigned_natCast
    (width value : Nat) :
    toUnsigned width (value : Int) = value % 2 ^ width := by
  unfold toUnsigned
  have cast : ((value : Int) % 2 ^ width) = ((value % 2 ^ width : Nat) : Int) := by
    push_cast
    rfl
  rw [cast, Int.toNat_natCast]

/-- In-range values are stored exactly in an unsigned integer. -/
theorem toUnsigned_of_lt
    (width : Nat)
    {value : Nat}
    (bounded : value < 2 ^ width) :
    toUnsigned width (value : Int) = value := by
  rw [toUnsigned_natCast, Nat.mod_eq_of_lt bounded]

/-- Conversion does not make a natural number larger. -/
theorem toUnsigned_natCast_le
    (width value : Nat) :
    toUnsigned width (value : Int) ≤ value := by
  rw [toUnsigned_natCast]
  exact Nat.mod_le value _

/-- In-range values are stored exactly in a two's complement integer. -/
theorem toSigned_eq_self
    (width : Nat)
    {value : Int}
    (lower : -2 ^ width ≤ value)
    (upper : value < 2 ^ width) :
    toSigned (width + 1) value = value := by
  have half : ((2 ^ (width + 1) : Nat) : Int) = 2 * 2 ^ width := by
    push_cast
    ring
  unfold toSigned
  apply Int.bmod_eq_of_le <;> omega

theorem toSigned_of_lt
    (width : Nat)
    {value : Nat}
    (bounded : value < 2 ^ width) :
    toSigned (width + 1) (value : Int) = value := by
  have cast : ((2 ^ width : Nat) : Int) = 2 ^ width := by
    push_cast
    rfl
  exact toSigned_eq_self width (by omega) (by omega)

theorem toSigned_natCast_le
    (width value : Nat) :
    toSigned width (value : Int) ≤ value := by
  have residue : ((value % 2 ^ width : Nat) : Int) ≤ value :=
    Int.ofNat_le.mpr (Nat.mod_le value _)
  unfold toSigned
  rw [Int.bmod_def]
  push_cast at residue ⊢
  split <;> omega

theorem toSigned_lt
    (width : Nat)
    (value : Int) :
    toSigned (width + 1) value < 2 ^ width := by
  have bounded := @Int.bmod_lt value (2 ^ (width + 1)) (by positivity)
  have half : ((2 ^ (width + 1) : Nat) : Int) = 2 * 2 ^ width := by
    push_cast
    ring
  unfold toSigned
  omega

/-- A two's complement integer depends on the residue of a value only. -/
theorem toSigned_toUnsigned_eq
    (width : Nat)
    (value : Int) :
    toSigned width (toUnsigned width value) = toSigned width value := by
  have modulusPositive : (0 : Int) < 2 ^ width := by positivity
  have cast : ((2 ^ width : Nat) : Int) = 2 ^ width := by
    push_cast
    rfl
  unfold toSigned toUnsigned
  rw [Int.toNat_of_nonneg (Int.emod_nonneg value (ne_of_gt modulusPositive)),
    ← cast, Int.emod_bmod]

theorem toSigned_zero (width : Nat) : toSigned width 0 = 0 := by
  simp [toSigned]

theorem toSigned_toSigned
    (width : Nat)
    (value : Int) :
    toSigned width (toSigned width value) = toSigned width value :=
  Int.bmod_bmod

/-- A two's complement value survives being kept as an unsigned one. -/
theorem toSigned_toUnsigned
    (width : Nat)
    {value : Int}
    (lower : -2 ^ width ≤ value)
    (upper : value < 2 ^ width) :
    toSigned (width + 1) (toUnsigned (width + 1) value) = value := by
  rw [toSigned_toUnsigned_eq, toSigned_eq_self width lower upper]

/-- An unsigned integer depends on the residue of a value only. -/
theorem toUnsigned_toSigned_eq
    (width : Nat)
    (value : Int) :
    toUnsigned width (toSigned width value) = toUnsigned width value := by
  have cast : ((2 ^ width : Nat) : Int) = 2 ^ width := by
    push_cast
    rfl
  unfold toUnsigned toSigned
  rw [← cast, Int.bmod_emod]

/-- The difference of two stored values has the residue of their difference. -/
theorem toUnsigned_toSigned_sub
    (width : Nat)
    (left right : Int) :
    toUnsigned width (toSigned width left - toSigned width right) =
      toUnsigned width (left - right) := by
  rw [← toUnsigned_toSigned_eq width (toSigned width left - _),
    ← toUnsigned_toSigned_eq width (left - right)]
  unfold toSigned
  rw [Int.sub_bmod_bmod, Int.bmod_sub_bmod]

/-- An unsigned value survives being returned as a two's complement one. -/
theorem toUnsigned_toSigned
    (width : Nat)
    {value : Nat}
    (bounded : value < 2 ^ width) :
    toUnsigned width (toSigned width value) = value := by
  rw [toUnsigned_toSigned_eq, toUnsigned_of_lt width bounded]

/-- A two's complement integer holds a count exactly when it is small enough. -/
theorem toSigned_natCast_eq_iff (width count : Nat) :
    toSigned (width + 1) (count : Int) = count ↔ count < 2 ^ width := by
  constructor
  · intro same
    have upper := toSigned_lt width count
    rw [same] at upper
    exact_mod_cast upper
  · exact toSigned_of_lt width

/-- An unsigned value is returned as a given count exactly when it is that count
and a two's complement integer holds it. -/
theorem toSigned_eq_natCast_iff
    (width : Nat)
    {value count : Nat}
    (bounded : value < 2 ^ (width + 1)) :
    toSigned (width + 1) value = count ↔ value = count ∧ count < 2 ^ width := by
  constructor
  · intro equal
    have upper := Int.bmod_lt (x := (value : Int)) (Nat.two_pow_pos (width + 1))
    have small : count < 2 ^ width := by
      rw [← toSigned, equal, Nat.pow_succ] at upper
      omega
    have kept := toUnsigned_toSigned (width + 1) bounded
    rw [equal, toUnsigned_of_lt _ (by rw [Nat.pow_succ]; omega)] at kept
    exact ⟨kept.symm, small⟩
  · rintro ⟨rfl, small⟩
    exact toSigned_of_lt width small

/-! ## Little-endian bytes -/

/-- The `count` lowest bytes of a number, least significant first. -/
def toLittleEndian : (count : Nat) → (value : Nat) → List UInt8
  | 0, _ => []
  | count + 1, value =>
      UInt8.ofNat value :: toLittleEndian count (value / 256)

/-- The number whose bytes, least significant first, are given. -/
def ofLittleEndian : List UInt8 → Nat
  | [] => 0
  | byte :: bytes => byte.toNat + 256 * ofLittleEndian bytes

@[simp] theorem length_toLittleEndian
    (count value : Nat) :
    (toLittleEndian count value).length = count := by
  induction count generalizing value with
  | zero => rfl
  | succ count inductionHypothesis =>
      rw [toLittleEndian, List.length_cons, inductionHypothesis]

theorem ofLittleEndian_lt (bytes : List UInt8) :
    ofLittleEndian bytes < 256 ^ bytes.length := by
  induction bytes with
  | nil => decide
  | cons byte bytes inductionHypothesis =>
      have small := byte.toNat_lt
      rw [ofLittleEndian, List.length_cons, Nat.pow_succ]
      omega

theorem ofLittleEndian_toLittleEndian
    {count value : Nat}
    (bound : value < 256 ^ count) :
    ofLittleEndian (toLittleEndian count value) = value := by
  induction count generalizing value with
  | zero =>
      have zero : value = 0 := by simpa using bound
      rw [zero, toLittleEndian, ofLittleEndian]
  | succ count inductionHypothesis =>
      have rest : value / 256 < 256 ^ count := by
        rw [Nat.pow_succ] at bound
        omega
      rw [toLittleEndian, ofLittleEndian, inductionHypothesis rest,
        UInt8.toNat_ofNat']
      omega

end Foundation
end Hiemal
