import Mathlib.Data.List.Basic
import Mathlib.Data.List.TakeWhile

/-!
# Maximal runs

The maximal runs of a list are its longest segments of elements that satisfy a
predicate. A run begins where such an element does not follow another one, and
ends before the first element behind it that does not satisfy the predicate. This
module lists the maximal runs in order, each with what comes before it, and says
how they are met when the list is read from the front.
-/

namespace Hiemal
namespace Foundation

variable {α : Type*}

/-- No element satisfies the predicate at the end of what was read. -/
def EndsOutside (p : α → Bool) (before : List α) : Prop :=
  ∀ last ∈ before.getLast?, p last = false

/-- The maximal runs that begin in the rest of a list, each with what comes before
it. -/
def runsBehind (p : α → Bool) : (before rest : List α) → List (List α × List α)
  | _, [] => []
  | before, first :: rest =>
      if p first ∧ ¬before.getLast?.any p then
        (before, (first :: rest).takeWhile p) ::
          runsBehind p (before ++ [first]) rest
      else runsBehind p (before ++ [first]) rest

/-- The maximal runs of a list. -/
def maximalRuns (p : α → Bool) (list : List α) : List (List α × List α) :=
  runsBehind p [] list

section Reading

variable {p : α → Bool} {before run gap rest : List α}

theorem endsOutside_iff :
    EndsOutside p before ↔ ¬before.getLast?.any p := by
  unfold EndsOutside
  cases before.getLast? <;> simp

theorem endsOutside_nil : EndsOutside p [] := by
  simp [EndsOutside]

/-- Nothing begins in a gap. -/
theorem runsBehind_gap
    (outside : ∀ element ∈ gap, p element = false) :
    runsBehind p before (gap ++ rest) = runsBehind p (before ++ gap) rest := by
  induction gap generalizing before with
  | nil => rw [List.nil_append, List.append_nil]
  | cons first gap inductionHypothesis =>
      rw [List.forall_mem_cons] at outside
      rw [List.cons_append, runsBehind, if_neg (by simp [outside.1]),
        inductionHypothesis outside.2, List.append_assoc, List.singleton_append]

/-- Nothing begins inside a run. -/
theorem runsBehind_inside
    (inside : ∀ element ∈ run, p element)
    (follows : ¬EndsOutside p before) :
    runsBehind p before (run ++ rest) = runsBehind p (before ++ run) rest := by
  rw [endsOutside_iff, not_not] at follows
  induction run generalizing before with
  | nil => rw [List.nil_append, List.append_nil]
  | cons first run inductionHypothesis =>
      rw [List.forall_mem_cons] at inside
      have next : (before ++ [first]).getLast?.any p := by
        simp [inside.1]
      rw [List.cons_append, runsBehind, if_neg (by simp [follows]),
        inductionHypothesis inside.2 next, List.append_assoc,
        List.singleton_append]

/-- A run that is met first is the first maximal run. -/
theorem runsBehind_run
    (starts : EndsOutside p before)
    (nonempty : run ≠ [])
    (inside : ∀ element ∈ run, p element)
    (ends : ∀ next ∈ rest.head?, p next = false) :
    runsBehind p before (run ++ rest) =
      (before, run) :: runsBehind p (before ++ run) rest := by
  obtain ⟨first, run, rfl⟩ := List.exists_cons_of_ne_nil nonempty
  have whole : (first :: run ++ rest).takeWhile p = first :: run := by
    rw [List.takeWhile_append_of_pos inside]
    cases rest with
    | nil => simp
    | cons next rest =>
        rw [List.takeWhile_cons_of_neg (by simpa using ends next rfl),
          List.append_nil]
  rw [List.forall_mem_cons] at inside
  rw [endsOutside_iff] at starts
  rw [List.cons_append] at whole ⊢
  rw [runsBehind, if_pos ⟨inside.1, starts⟩, whole,
    runsBehind_inside inside.2 (by simp [EndsOutside, inside.1]),
    List.append_assoc, List.singleton_append]

/-- Only a gap, or the end of the list, comes behind a run. -/
theorem head?_gap
    (outside : ∀ element ∈ gap, p element = false)
    (separated : gap = [] → rest = []) :
    ∀ next ∈ (gap ++ rest).head?, p next = false := by
  cases gap with
  | nil => simp [separated rfl]
  | cons first gap =>
      rintro next ⟨⟩
      exact outside first List.mem_cons_self

/-- A run, and the gap behind it. -/
theorem runsBehind_run_gap
    (starts : EndsOutside p before)
    (nonempty : run ≠ [])
    (inside : ∀ element ∈ run, p element)
    (outside : ∀ element ∈ gap, p element = false)
    (separated : gap = [] → rest = []) :
    runsBehind p before (run ++ gap ++ rest) =
      (before, run) :: runsBehind p (before ++ run ++ gap) rest := by
  rw [List.append_assoc, runsBehind_run starts nonempty inside
    (head?_gap outside separated), runsBehind_gap outside]

theorem runsBehind_nonempty
    {run : List α × List α}
    (member : run ∈ runsBehind p before rest) :
    run.2 ≠ [] := by
  induction rest generalizing before with
  | nil => cases member
  | cons first rest inductionHypothesis =>
      rw [runsBehind] at member
      split at member
      · next starts =>
          rw [List.mem_cons] at member
          obtain rfl | member := member
          · rw [List.takeWhile_cons_of_pos starts.1]
            exact List.cons_ne_nil _ _
          · exact inductionHypothesis member
      · exact inductionHypothesis member

/-- What is read ends outside the runs when a gap was read last. -/
theorem endsOutside_append
    (nonempty : gap ≠ [])
    (outside : ∀ element ∈ gap, p element = false)
    (before : List α) :
    EndsOutside p (before ++ gap) := by
  intro last member
  rw [List.getLast?_append, List.getLast?_eq_some_getLast nonempty,
    Option.some_or, Option.mem_some_iff] at member
  rw [← member]
  exact outside _ (List.getLast_mem nonempty)

/-- A list is a gap, and the rest from the first element of a run on. -/
theorem exists_gap (p : α → Bool) (list : List α) :
    ∃ gap rest, list = gap ++ rest ∧ (∀ element ∈ gap, p element = false) ∧
      ∀ first ∈ rest.head?, p first := by
  refine ⟨list.takeWhile (!p ·), list.dropWhile (!p ·),
    List.takeWhile_append_dropWhile.symm, ?_, ?_⟩
  · intro element member
    simpa using List.mem_takeWhile_imp member
  · intro first member
    have stopped := List.head?_dropWhile_not (!p ·) list
    rw [Option.mem_def.mp member] at stopped
    simpa using stopped

/-- From a run on, a list is the run, a gap, and the rest from the next run on. -/
theorem exists_run_gap
    {list : List α}
    (nonempty : list ≠ [])
    (atRun : ∀ first ∈ list.head?, p first) :
    ∃ run gap rest, list = run ++ gap ++ rest ∧ run ≠ [] ∧
      (∀ element ∈ run, p element) ∧
        (∀ element ∈ gap, p element = false) ∧ (gap = [] → rest = []) ∧
          ∀ first ∈ rest.head?, p first := by
  obtain ⟨run, behind, rfl, inside, stops⟩ := exists_gap (!p ·) list
  obtain ⟨gap, rest, rfl, outside, starts⟩ := exists_gap p behind
  refine ⟨run, gap, rest, (List.append_assoc ..).symm, ?_, ?_, outside, ?_,
    starts⟩
  · rintro rfl
    obtain ⟨first, list, same⟩ := List.exists_cons_of_ne_nil nonempty
    have met := atRun first (by rw [same]; rfl)
    have notMet := stops first (by rw [List.nil_append] at same; rw [same]; rfl)
    simp [met] at notMet
  · intro element member
    simpa using inside element member
  · rintro rfl
    cases rest with
    | nil => rfl
    | cons first rest =>
        have met := starts first rfl
        have notMet := stops first rfl
        simp [met] at notMet

end Reading

end Foundation
end Hiemal
