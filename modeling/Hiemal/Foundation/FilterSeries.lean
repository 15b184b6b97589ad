import Hiemal.Foundation.CausalFilter
import Mathlib.Algebra.BigOperators.NatAntidiagonal
import Mathlib.Data.List.GetD
import Mathlib.RingTheory.PowerSeries.Basic

/-!
# Filters as power series

Behind an empty past, a filter multiplies the power series of the signal by that of its
coefficients, as far as the signal reaches. So filters behind one another multiply, and
make up one filter, whose coefficients are those of the product.
-/

namespace Hiemal
namespace Foundation

open PowerSeries

variable {R : Type*} [CommRing R]

/-- The power series with the given first coefficients, and zeros behind them. -/
noncomputable def series (values : List R) : PowerSeries R :=
  PowerSeries.mk fun index => values.getD index 0

theorem coeff_series (values : List R) (index : ℕ) :
    coeff index (series values) = values.getD index 0 :=
  coeff_mk index _

/-- A convolution is a coefficient of the product. -/
theorem convolution_eq_coeff (coefficients signal : List R) (index : ℕ) :
    convolution coefficients signal index =
      coeff index (series coefficients * series signal) := by
  have terms :
      coeff index (series coefficients * series signal) =
        ∑ k ∈ Finset.range (index + 1),
          coefficients.getD k 0 * signal.getD (index - k) 0 := by
    rw [coeff_mul, Finset.Nat.sum_antidiagonal_eq_sum_range_succ_mk]
    apply Finset.sum_congr rfl
    intro k _
    rw [coeff_series, coeff_series]
  rw [terms, convolution]
  apply Finset.sum_subset
  · intro k listed
    rw [Finset.mem_filter] at listed
    rw [Finset.mem_range]
    omega
  · intro k listed outside
    -- behind the coefficients
    rw [Finset.mem_range] at listed
    have beyond : coefficients.length ≤ k := by
      by_contra inside
      apply outside
      rw [Finset.mem_filter, Finset.mem_range]
      omega
    rw [List.getD_eq_default _ _ beyond, zero_mul]

/-- A coefficient of a product depends on the coefficients up to its index. -/
theorem coeff_mul_congr
    (factor : PowerSeries R)
    {first second : PowerSeries R}
    {index : ℕ}
    (agree : ∀ k ≤ index, coeff k first = coeff k second) :
    coeff index (factor * first) = coeff index (factor * second) := by
  rw [coeff_mul, coeff_mul]
  apply Finset.sum_congr rfl
  intro split listed
  rw [Finset.HasAntidiagonal.mem_antidiagonal] at listed
  rw [agree split.2 (by omega)]

/-- Behind an empty past, filtering multiplies. -/
theorem getD_filterFrom_eq_coeff
    (coefficients signal : List R)
    {index : ℕ}
    (inside : index < signal.length) :
    (filterFrom coefficients [] signal).getD index 0 =
      coeff index (series coefficients * series signal) := by
  rw [getD_filterFrom_nil coefficients signal inside, convolution_eq_coeff]

/-! ## Filters behind one another -/

/-- The coefficients of a filter behind another one. -/
def cascade (first second : List R) : List R :=
  (List.range (first.length + second.length - 1)).map (convolution first second)

@[simp] theorem length_cascade (first second : List R) :
    (cascade first second).length = first.length + second.length - 1 := by
  rw [cascade, List.length_map, List.length_range]

theorem series_cascade (first second : List R) :
    series (cascade first second) = series first * series second := by
  ext index
  rw [coeff_series]
  by_cases inside : index < first.length + second.length - 1
  · rw [cascade, List.getD_eq_getElem?_getD, List.getElem?_map,
      List.getElem?_range inside, Option.map_some, Option.getD_some,
      convolution_eq_coeff]
  · -- in each term one of the two indices is behind its list
    rw [List.getD_eq_default _ _ (by rw [length_cascade]; omega), coeff_mul]
    symm
    apply Finset.sum_eq_zero
    intro split listed
    rw [Finset.HasAntidiagonal.mem_antidiagonal] at listed
    rw [coeff_series, coeff_series]
    rcases Nat.lt_or_ge split.1 first.length with short | behind
    · rw [List.getD_eq_default second _ (by omega), mul_zero]
    · rw [List.getD_eq_default first _ behind, zero_mul]

/-- **Filters compose.** Filtering twice is filtering once with the product. -/
theorem filterFrom_cascade (first second signal : List R) :
    filterFrom second [] (filterFrom first [] signal) =
      filterFrom (cascade first second) [] signal := by
  apply List.ext_getElem
  · simp only [length_filterFrom]
  · intro index short inside
    have reached : index < signal.length := by
      rwa [length_filterFrom] at inside
    have between : index < (filterFrom first [] signal).length := by
      rwa [length_filterFrom]
    have agree (k : ℕ) (before : k ≤ index) :
        coeff k (series (filterFrom first [] signal)) =
          coeff k (series first * series signal) := by
      rw [coeff_series, getD_filterFrom_eq_coeff first signal (by omega)]
    have twice := getD_filterFrom_eq_coeff second _ between
    have once := getD_filterFrom_eq_coeff (cascade first second) signal reached
    rw [coeff_mul_congr _ agree, ← mul_assoc, mul_comm (series second)] at twice
    rw [series_cascade, ← twice, List.getD_eq_getElem _ _ inside,
      List.getD_eq_getElem _ _ short] at once
    exact once.symm

/-- The order of two filters does not matter. -/
theorem filterFrom_comm (first second signal : List R) :
    filterFrom second [] (filterFrom first [] signal) =
      filterFrom first [] (filterFrom second [] signal) := by
  rw [filterFrom_cascade, filterFrom_cascade]
  have same : cascade first second = cascade second first := by
    apply List.ext_getElem
    · rw [length_cascade, length_cascade, Nat.add_comm]
    · intro index inside reached
      have product := congrArg (coeff index) (series_cascade first second)
      have swapped := congrArg (coeff index) (series_cascade second first)
      rw [coeff_series, List.getD_eq_getElem _ _ inside] at product
      rw [coeff_series, List.getD_eq_getElem _ _ reached, mul_comm] at swapped
      rw [product, swapped]
  rw [same]

end Foundation
end Hiemal
