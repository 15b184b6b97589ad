import Mathlib.Algebra.Order.Floor.Ring
import Mathlib.Tactic.Linarith
import Mathlib.Tactic.NormNum

/-!
# Truncation

A number is converted to an unsigned integer type by dropping its fraction. The
conversion is undefined where what is left is no value of the type, so that it is
defined for the numbers between `-1` and the bound of the type, both excluded.
-/

namespace Hiemal
namespace Foundation

variable {K : Type*} [Field K] [LinearOrder K] [IsStrictOrderedRing K]

/-- Without its fraction, `value` is `n`. -/
def TruncatesTo (value : K) (n : ℕ) : Prop :=
  (n ≤ value ∨ n = 0 ∧ -1 < value) ∧ value < n + 1

theorem truncatesTo_natCast (n : ℕ) : TruncatesTo (n : K) n :=
  ⟨Or.inl le_rfl, lt_add_one _⟩

section Values

variable {value : K} {m n : ℕ}

theorem TruncatesTo.lower (truncates : TruncatesTo value n) : -1 < value := by
  obtain ⟨lower | ⟨_, lower⟩, _⟩ := truncates
  · have nonnegative : (0 : K) ≤ n := Nat.cast_nonneg n
    linarith
  · exact lower

theorem TruncatesTo.le
    (first : TruncatesTo value m)
    (second : TruncatesTo value n) :
    m ≤ n := by
  obtain ⟨lower | ⟨zero, _⟩, _⟩ := first
  · have close : (m : K) < (n + 1 : ℕ) := by
      push_cast
      exact lt_of_le_of_lt lower second.2
    exact Nat.lt_succ_iff.mp (Nat.cast_lt.mp close)
  · rw [zero]
    exact Nat.zero_le n

/-- A number truncates to one natural number at most. -/
theorem TruncatesTo.unique
    (first : TruncatesTo value m)
    (second : TruncatesTo value n) :
    m = n :=
  Nat.le_antisymm (first.le second) (second.le first)

variable [FloorRing K]

theorem truncatesTo_floor (lower : -1 < value) :
    TruncatesTo value ⌊value⌋.toNat := by
  have below := Int.floor_le value
  have above := Int.lt_floor_add_one value
  by_cases nonnegative : 0 ≤ ⌊value⌋
  · have whole : ((⌊value⌋.toNat : ℕ) : K) = ⌊value⌋ := by
      rw [← Int.cast_natCast, Int.toNat_of_nonneg nonnegative]
    rw [TruncatesTo, whole]
    exact ⟨Or.inl below, above⟩
  · have none : ⌊value⌋.toNat = 0 := by omega
    have negative : (⌊value⌋ : K) + 1 ≤ 0 := by
      exact_mod_cast Int.add_one_le_iff.mpr (not_le.mp nonnegative)
    rw [none]
    refine ⟨Or.inr ⟨rfl, lower⟩, ?_⟩
    rw [Nat.cast_zero]
    linarith

/-- Conversion to an unsigned integer of the given width. -/
def truncateUnsigned (width : ℕ) (value : K) : Option ℕ :=
  if -1 < value ∧ value < 2 ^ width then some ⌊value⌋.toNat else none

/-- The conversion gives the integer of the type that the number truncates to. -/
theorem truncateUnsigned_eq_some_iff {width : ℕ} :
    truncateUnsigned width value = some n ↔
      n < 2 ^ width ∧ TruncatesTo value n := by
  unfold truncateUnsigned
  split
  · next bounds =>
      have truncates := truncatesTo_floor bounds.1
      rw [Option.some_inj]
      constructor
      · rintro rfl
        refine ⟨?_, truncates⟩
        have upper : ⌊value⌋ < (2 ^ width : ℕ) := by
          rw [Int.floor_lt]
          push_cast
          exact bounds.2
        have positive := Nat.two_pow_pos width
        omega
      · rintro ⟨_, other⟩
        exact truncates.unique other
  · next outside =>
      constructor
      · intro converts
        cases converts
      · rintro ⟨bounded, truncates⟩
        have within : ((n + 1 : ℕ) : K) ≤ ((2 ^ width : ℕ) : K) :=
          Nat.cast_le.mpr bounded
        push_cast at within
        exact absurd ⟨truncates.lower, lt_of_lt_of_le truncates.2 within⟩ outside

end Values

end Foundation
end Hiemal
