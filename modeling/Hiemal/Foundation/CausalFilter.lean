import Mathlib.Algebra.BigOperators.Group.Finset.Basic
import Mathlib.Algebra.BigOperators.Group.List.Basic
import Mathlib.Algebra.Ring.Basic

/-!
# Finite impulse response filters

The output of such a filter at a sample is the product sum of its coefficients
with the samples up to there, most recent first. A filter that starts with an
empty past at the beginning of each block agrees with the filter on the whole
signal exactly when, at every sample, the earlier blocks contribute zero. Behind an
empty past the output is the convolution of the coefficients with the signal.
-/

namespace Hiemal
namespace Foundation

variable {R : Type*} [Ring R]

/-- The product sum of two lists, as far as both reach. -/
def dot (history coefficients : List R) : R :=
  (List.zipWith (· * ·) history coefficients).sum

/-- Filter samples behind a past, which lists its most recent sample first. -/
def filterFrom (coefficients : List R) : (past : List R) → List R → List R
  | _, [] => []
  | past, sample :: samples =>
      dot (sample :: past) coefficients ::
        filterFrom coefficients (sample :: past) samples

@[simp] theorem length_filterFrom
    (coefficients past samples : List R) :
    (filterFrom coefficients past samples).length = samples.length := by
  induction samples generalizing past with
  | nil => rfl
  | cons sample samples inductionHypothesis =>
      rw [filterFrom, List.length_cons, inductionHypothesis, List.length_cons]

/-- Filtering in two steps carries the first samples over as the past. -/
theorem filterFrom_append
    (coefficients past first second : List R) :
    filterFrom coefficients past (first ++ second) =
      filterFrom coefficients past first ++
        filterFrom coefficients (first.reverse ++ past) second := by
  induction first generalizing past with
  | nil => rfl
  | cons sample first inductionHypothesis =>
      rw [List.cons_append, filterFrom, filterFrom, inductionHypothesis]
      simp

/-- A product sum splits where the history does. -/
theorem dot_append
    (recent past coefficients : List R) :
    dot (recent ++ past) coefficients =
      dot recent coefficients + dot past (coefficients.drop recent.length) := by
  induction recent generalizing coefficients with
  | nil => simp [dot]
  | cons sample recent inductionHypothesis =>
      cases coefficients with
      | nil => simp [dot]
      | cons coefficient coefficients =>
          have rest := inductionHypothesis coefficients
          simp only [dot] at rest ⊢
          simp only [List.cons_append, List.zipWith_cons_cons, List.sum_cons,
            List.length_cons, List.drop_succ_cons, rest, add_assoc]

/-- The product sum over any range that covers the coefficients. -/
theorem dot_eq_sum_range
    (history : List R)
    {coefficients : List R}
    {count : Nat}
    (covers : coefficients.length ≤ count) :
    dot history coefficients =
      ((List.range count).map fun index =>
        history.getD index 0 * coefficients.getD index 0).sum := by
  induction coefficients generalizing history count with
  | nil => simp [dot]
  | cons coefficient coefficients inductionHypothesis =>
      obtain ⟨rest, rfl⟩ : ∃ rest, count = rest + 1 :=
        ⟨count - 1, by simp at covers; omega⟩
      cases history with
      | nil => simp [dot]
      | cons sample history =>
          have covered : coefficients.length ≤ rest := by simpa using covers
          have tail := inductionHypothesis history covered
          rw [List.range_succ_eq_map, List.map_cons, List.sum_cons,
            List.map_map]
          simp only [dot, List.zipWith_cons_cons, List.sum_cons] at tail ⊢
          rw [tail]
          rfl

/-- Forgetting what lies behind the recent samples is harmless exactly when it
contributes zero to each output. -/
theorem filterFrom_forget_iff
    (coefficients recent past samples : List R) :
    filterFrom coefficients (recent ++ past) samples =
        filterFrom coefficients recent samples ↔
      ∀ index < samples.length,
        dot past (coefficients.drop (recent.length + index + 1)) = 0 := by
  induction samples generalizing recent with
  | nil => simp [filterFrom]
  | cons sample samples inductionHypothesis =>
      have head :
          dot (sample :: (recent ++ past)) coefficients =
              dot (sample :: recent) coefficients ↔
            dot past (coefficients.drop (recent.length + 1)) = 0 := by
        rw [← List.cons_append, dot_append, List.length_cons, add_eq_left]
      have tail := inductionHypothesis (sample :: recent)
      rw [List.cons_append, List.length_cons] at tail
      rw [filterFrom, filterFrom, List.cons.injEq, head, tail,
        List.length_cons, Nat.forall_lt_succ_left]
      have shifted (index : Nat) :
          recent.length + 1 + index + 1 = recent.length + (index + 1) + 1 := by
        omega
      simp only [shifted, Nat.add_zero]

/-- Filtering block by block agrees with filtering the whole signal exactly when
the past of each block contributes zero to each output of the block. -/
theorem filterFrom_flatten_iff
    (coefficients past : List R)
    (blocks : List (List R)) :
    (blocks.map (filterFrom coefficients [])).flatten =
        filterFrom coefficients past blocks.flatten ↔
      ∀ before block after, blocks = before ++ block :: after →
        ∀ index < block.length,
          dot (before.flatten.reverse ++ past)
            (coefficients.drop (index + 1)) = 0 := by
  induction blocks generalizing past with
  | nil => simp [filterFrom]
  | cons block blocks inductionHypothesis =>
      have first :
          filterFrom coefficients [] block =
              filterFrom coefficients past block ↔
            ∀ index < block.length,
              dot past (coefficients.drop (index + 1)) = 0 := by
        have forget := filterFrom_forget_iff coefficients [] past block
        simpa [eq_comm] using forget
      have rest := inductionHypothesis (block.reverse ++ past)
      rw [List.map_cons, List.flatten_cons, List.flatten_cons,
        filterFrom_append]
      constructor
      · intro equal before current after split
        obtain ⟨firstEqual, restEqual⟩ :=
          List.append_inj equal (by simp)
        cases before with
        | nil =>
            cases split
            exact first.mp firstEqual
        | cons head before =>
            rw [List.cons_append, List.cons.injEq] at split
            obtain ⟨rfl, split⟩ := split
            simpa using rest.mp restEqual before current after split
      · intro contributes
        have firstEqual := first.mpr (contributes [] block blocks rfl)
        have restEqual := rest.mpr fun before current after split => by
          simpa using contributes (block :: before) current after
            (by rw [split]; rfl)
        rw [firstEqual, restEqual]

/-- Each output is the product sum with the samples up to there. -/
theorem getD_filterFrom
    (coefficients past samples : List R)
    {index : Nat}
    (inside : index < samples.length) :
    (filterFrom coefficients past samples).getD index 0 =
      dot ((samples.take (index + 1)).reverse ++ past) coefficients := by
  induction samples generalizing past index with
  | nil => cases inside
  | cons sample samples inductionHypothesis =>
      cases index with
      | zero => rfl
      | succ index =>
          rw [filterFrom, List.getD_cons_succ,
            inductionHypothesis _ (Nat.lt_of_succ_lt_succ inside),
            List.take_succ_cons, List.reverse_cons, List.append_assoc,
            List.singleton_append]

/-- The convolution of coefficients with a signal that is zero before its first
sample. -/
def convolution (coefficients signal : List R) (index : Nat) : R :=
  ∑ k ∈ Finset.range coefficients.length with k ≤ index,
    coefficients.getD k 0 * signal.getD (index - k) 0

/-- The samples up to an index, most recent first. -/
theorem getD_reverse_take
    (signal : List R)
    {index : Nat}
    (inside : index < signal.length)
    (k : Nat) :
    (signal.take (index + 1)).reverse.getD k 0 =
      if k ≤ index then signal.getD (index - k) 0 else 0 := by
  have reached : (signal.take (index + 1)).length = index + 1 := by
    rw [List.length_take, Nat.min_eq_left inside]
  rw [List.getD_eq_getElem?_getD, List.getD_eq_getElem?_getD]
  split
  · next before =>
      rw [List.getElem?_reverse (by omega), reached, Nat.add_sub_cancel,
        List.getElem?_take_of_lt (by omega)]
  · next beyond =>
      rw [List.getElem?_eq_none (by rw [List.length_reverse]; omega)]
      rfl

/-- Behind an empty past, filtering is convolution. -/
theorem getD_filterFrom_nil
    {S : Type*}
    [CommRing S]
    (coefficients signal : List S)
    {index : Nat}
    (inside : index < signal.length) :
    (filterFrom coefficients [] signal).getD index 0 =
      convolution coefficients signal index := by
  rw [getD_filterFrom coefficients [] signal inside, List.append_nil,
    dot_eq_sum_range _ le_rfl, convolution, Finset.sum_filter]
  change _ = (Multiset.map _ (Multiset.range coefficients.length)).sum
  rw [Multiset.range, Multiset.map_coe, Multiset.sum_coe]
  apply congrArg List.sum
  apply List.map_congr_left
  intro k _
  rw [getD_reverse_take signal inside]
  split
  · exact mul_comm _ _
  · exact zero_mul _

end Foundation
end Hiemal
