import Mathlib.Data.List.Basic
import Mathlib.Data.List.Infix

/-!
# Replacing a pattern

Each occurrence of a pattern is replaced, from the left to the right and without
overlaps. What stands behind the last element that could end an occurrence stays as it
is.
-/

namespace Hiemal
namespace Foundation

variable {α : Type*}

/-- Replace a pattern that is not empty; `skip` elements still belong to the last
occurrence. -/
def replaceFrom [DecidableEq α] (pattern replacement : List α) :
    (skip : Nat) → List α → List α
  | _, [] => []
  | skip + 1, _ :: text => replaceFrom pattern replacement skip text
  | 0, item :: text =>
      if pattern.isPrefixOf (item :: text) then
        replacement ++ replaceFrom pattern replacement (pattern.length - 1) text
      else item :: replaceFrom pattern replacement 0 text

variable {front text back : List α} {last : α}

/-- A pattern does not end in a text without its last element. -/
theorem prefix_append_iff (absent : last ∉ back) :
    front ++ [last] <+: text ++ back ↔ front ++ [last] <+: text := by
  constructor
  · intro occurs
    rcases List.prefix_or_prefix_of_prefix occurs (List.prefix_append text back) with
      inside | ⟨beyond, longer⟩
    · exact inside
    · rcases List.eq_nil_or_concat beyond with rfl | ⟨start, item, rfl⟩
      · rw [List.append_nil] at longer
        exact longer ▸ List.prefix_rfl
      · rw [← longer, List.prefix_append_right_inj] at occurs
        rw [List.concat_eq_append, ← List.append_assoc] at longer
        obtain ⟨-, same⟩ := List.append_inj' longer rfl
        cases List.singleton_inj.mp same
        exact absurd (occurs.subset (by simp)) absent
  · intro inside
    exact inside.trans (List.prefix_append text back)

variable [DecidableEq α] {replacement : List α}

/-- Nothing changes in a text without the last element of the pattern. -/
theorem replaceFrom_absent (absent : last ∉ text) :
    replaceFrom (front ++ [last]) replacement 0 text = text := by
  induction text with
  | nil => rfl
  | cons item text inductionHypothesis =>
      have rest := inductionHypothesis fun member =>
        absent (List.mem_cons_of_mem item member)
      have none : (front ++ [last]).isPrefixOf (item :: text) = false := by
        apply Bool.eq_false_iff.mpr
        intro occurs
        apply absent
        exact (List.isPrefixOf_iff_prefix.mp occurs).subset (by simp)
      rw [replaceFrom, none, if_neg Bool.false_ne_true, rest]

/-- The end of a text stays when it does not have the last element of the pattern. -/
theorem replaceFrom_append
    {skip : Nat}
    (absent : last ∉ back)
    (inside : skip ≤ text.length) :
    replaceFrom (front ++ [last]) replacement skip (text ++ back) =
      replaceFrom (front ++ [last]) replacement skip text ++ back := by
  induction text generalizing skip with
  | nil =>
      obtain rfl := Nat.le_zero.mp inside
      exact replaceFrom_absent absent
  | cons item text inductionHypothesis =>
      cases skip with
      | succ skip => exact inductionHypothesis (Nat.le_of_succ_le_succ inside)
      | zero =>
          have same :
              (front ++ [last]).isPrefixOf (item :: (text ++ back)) =
                (front ++ [last]).isPrefixOf (item :: text) := by
            apply Bool.eq_iff_iff.mpr
            rw [List.isPrefixOf_iff_prefix, List.isPrefixOf_iff_prefix]
            exact @prefix_append_iff _ front (item :: text) back last absent
          rw [List.cons_append, replaceFrom, same, replaceFrom]
          by_cases occurs : (front ++ [last]).isPrefixOf (item :: text) = true
          · have length := (List.isPrefixOf_iff_prefix.mp occurs).length_le
            rw [List.length_append, List.length_singleton, List.length_cons] at length
            rw [if_pos occurs, if_pos occurs, List.append_assoc]
            apply congrArg (replacement ++ ·)
            apply inductionHypothesis
            rw [List.length_append, List.length_singleton]
            omega
          · rw [if_neg occurs, if_neg occurs, List.cons_append]
            apply congrArg (item :: ·)
            exact inductionHypothesis (Nat.zero_le text.length)

end Foundation
end Hiemal
