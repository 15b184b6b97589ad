import Mathlib.Algebra.BigOperators.Group.List.Basic
import Mathlib.Algebra.GroupWithZero.Nat

/-!
# Terminated segments

Several lists are kept in one table, one after the other, each followed by a
terminator. A list is read from its start up to the first terminator.
-/

namespace Hiemal
namespace Foundation

variable {α : Type*}

/-- The table of some lists. The terminator is `none`. -/
def terminated (segments : List (List α)) : List (Option α) :=
  segments.flatMap fun segment => segment.map some ++ [none]

/-- Where a list starts in the table. -/
def segmentStart (segments : List (List α)) (index : Nat) : Nat :=
  ((segments.take index).map fun segment => segment.length + 1).sum

/-- Read up to the first terminator; `none` past the end of the table. -/
def readSegment : List (Option α) → Option (List α)
  | [] => none
  | none :: _ => some []
  | some item :: table => (readSegment table).map (item :: ·)

theorem terminated_cons (segment : List α) (segments : List (List α)) :
    terminated (segment :: segments) =
      segment.map some ++ none :: terminated segments := by
  rw [terminated, List.flatMap_cons, List.append_assoc]
  rfl

@[simp] theorem segmentStart_zero (segments : List (List α)) :
    segmentStart segments 0 = 0 := by
  rw [segmentStart, List.take_zero]
  rfl

theorem segmentStart_cons_succ
    (segment : List α)
    (segments : List (List α))
    (index : Nat) :
    segmentStart (segment :: segments) (index + 1) =
      segment.length + 1 + segmentStart segments index := by
  rw [segmentStart, List.take_succ_cons, List.map_cons, List.sum_cons]
  rfl

/-- The table has one cell for each item and one for each terminator. -/
theorem length_terminated (segments : List (List α)) :
    (terminated segments).length = segmentStart segments segments.length := by
  induction segments with
  | nil => rfl
  | cons segment segments inductionHypothesis =>
      rw [terminated_cons, List.length_cons, segmentStart_cons_succ,
        List.length_append, List.length_map, List.length_cons, inductionHypothesis]
      omega

theorem readSegment_append (segment : List α) (table : List (Option α)) :
    readSegment (segment.map some ++ none :: table) = some segment := by
  induction segment with
  | nil => rfl
  | cons item segment inductionHypothesis =>
      rw [List.map_cons, List.cons_append, readSegment, inductionHypothesis]
      rfl

/-- From its start every list is read as it is. -/
theorem readSegment_terminated
    {segments : List (List α)}
    {index : Nat}
    (inside : index < segments.length) :
    readSegment ((terminated segments).drop (segmentStart segments index)) =
      some segments[index] := by
  induction segments generalizing index with
  | nil => cases inside
  | cons segment segments inductionHypothesis =>
      cases index with
      | zero =>
          rw [segmentStart_zero, List.drop_zero, terminated_cons, readSegment_append]
          rfl
      | succ index =>
          have rest := @inductionHypothesis index (Nat.lt_of_succ_lt_succ inside)
          have front : (segment.map some ++ [none]).length = segment.length + 1 := by
            rw [List.length_append, List.length_map]
            rfl
          rw [segmentStart_cons_succ, terminated_cons, List.append_cons,
            ← List.drop_drop, ← front, List.drop_left, rest]
          rfl

theorem exists_readSegment
    {table : List (Option α)}
    (ends : none ∈ table) :
    ∃ segment, readSegment table = some segment := by
  induction table with
  | nil => cases ends
  | cons cell table inductionHypothesis =>
      cases cell with
      | none => exact ⟨[], rfl⟩
      | some item =>
          obtain ⟨segment, read⟩ :=
            inductionHypothesis (List.mem_of_ne_of_mem (by simp) ends)
          exact ⟨item :: segment, by rw [readSegment, read]; rfl⟩

/-- A terminator follows every cell of the table. -/
theorem none_mem_drop_terminated
    {segments : List (List α)}
    {start : Nat}
    (inside : start < (terminated segments).length) :
    none ∈ (terminated segments).drop start := by
  induction segments generalizing start with
  | nil => cases inside
  | cons segment segments inductionHypothesis =>
      rw [terminated_cons, List.length_append, List.length_map,
        List.length_cons] at inside
      rw [terminated_cons]
      by_cases here : start ≤ segment.length
      · rw [List.drop_append_of_le_length (by rw [List.length_map]; exact here)]
        exact List.mem_append_right _ List.mem_cons_self
      · obtain ⟨offset, rfl⟩ : ∃ offset, start = segment.length + 1 + offset :=
          ⟨start - (segment.length + 1), by omega⟩
        have front : (segment.map some ++ [none]).length = segment.length + 1 := by
          rw [List.length_append, List.length_map]
          rfl
        rw [List.append_cons, ← List.drop_drop, ← front, List.drop_left]
        exact inductionHypothesis (by omega)

end Foundation
end Hiemal
