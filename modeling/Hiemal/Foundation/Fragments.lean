import Mathlib.Data.List.Infix

/-!
# Taking items from a queue of fragments

A queue delivers its items in fragments. A client that wants a number of items
takes them from the fragments at its head, and gives back every fragment it has
taken from, whether or not all of it was wanted. What it takes and what is left in
the queue make up the whole queue exactly if the items it wants end where a
fragment does.
-/

namespace Hiemal
namespace Foundation

universe u

variable {α : Type u}

/-- Take a number of items from fragments: the items, and the fragments not taken
from. -/
def takeFragments : (fragments : List (List α)) → (count : Nat) →
    List α × List (List α)
  | [], _ => ([], [])
  | fragment :: fragments, count =>
      if count = 0 then ([], fragment :: fragments)
      else
        let (items, rest) := takeFragments fragments (count - fragment.length)
        (fragment.take count ++ items, rest)

/-- A number of items is that of a number of whole fragments. -/
def MeetsBoundary (fragments : List (List α)) (count : Nat) : Prop :=
  count ∈ fragments.inits.map fun whole => whole.flatten.length

instance decidableMeetsBoundary
    (fragments : List (List α))
    (count : Nat) :
    Decidable (MeetsBoundary fragments count) :=
  inferInstanceAs (Decidable (_ ∈ _))

@[simp] theorem takeFragments_zero (fragments : List (List α)) :
    takeFragments fragments 0 = ([], fragments) := by
  cases fragments <;> simp [takeFragments]

section Cons

variable {count : Nat} (wanted : count ≠ 0)
variable (fragment : List α) (fragments : List (List α))

include wanted

theorem fst_takeFragments_cons :
    (takeFragments (fragment :: fragments) count).1 =
      fragment.take count ++
        (takeFragments fragments (count - fragment.length)).1 := by
  rw [takeFragments, if_neg wanted]

theorem snd_takeFragments_cons :
    (takeFragments (fragment :: fragments) count).2 =
      (takeFragments fragments (count - fragment.length)).2 := by
  rw [takeFragments, if_neg wanted]

end Cons

/-- As many items are taken as there are. -/
theorem length_takeFragments
    (fragments : List (List α))
    (count : Nat) :
    (takeFragments fragments count).1.length =
      min count fragments.flatten.length := by
  induction fragments generalizing count with
  | nil => simp [takeFragments]
  | cons fragment fragments inductionHypothesis =>
      by_cases nothing : count = 0
      · simp [nothing]
      · rw [fst_takeFragments_cons nothing, List.length_append,
          inductionHypothesis, List.length_take, List.flatten_cons,
          List.length_append]
        omega

/-- No item is there twice. -/
theorem length_takeFragments_le
    (fragments : List (List α))
    (count : Nat) :
    (takeFragments fragments count).1.length +
        (takeFragments fragments count).2.flatten.length ≤
      fragments.flatten.length := by
  induction fragments generalizing count with
  | nil => simp [takeFragments]
  | cons fragment fragments inductionHypothesis =>
      by_cases nothing : count = 0
      · simp [nothing]
      · have rest := inductionHypothesis (count - fragment.length)
        have taken := List.length_take_le' count fragment
        rw [fst_takeFragments_cons nothing, snd_takeFragments_cons nothing,
          List.length_append, List.flatten_cons, List.length_append]
        omega

/-- What is taken, and what is left behind it, keep their order. -/
theorem takeFragments_sublist
    (fragments : List (List α))
    (count : Nat) :
    ((takeFragments fragments count).1 ++
        (takeFragments fragments count).2.flatten).Sublist
      fragments.flatten := by
  induction fragments generalizing count with
  | nil => exact List.Sublist.refl _
  | cons fragment fragments inductionHypothesis =>
      by_cases nothing : count = 0
      · rw [nothing, takeFragments_zero, List.nil_append]
      · rw [fst_takeFragments_cons nothing, snd_takeFragments_cons nothing,
          List.flatten_cons, List.append_assoc]
        exact (List.take_sublist count fragment).append
          (inductionHypothesis (count - fragment.length))

theorem meetsBoundary_zero (fragments : List (List α)) :
    MeetsBoundary fragments 0 :=
  List.mem_map.mpr ⟨[], (List.mem_inits _ _).mpr List.nil_prefix, rfl⟩

/-- A boundary behind a fragment is one of the fragments behind it. -/
theorem meetsBoundary_cons_iff
    {fragment : List α}
    {fragments : List (List α)}
    {count : Nat}
    (wanted : count ≠ 0) :
    MeetsBoundary (fragment :: fragments) count ↔
      fragment.length ≤ count ∧
        MeetsBoundary fragments (count - fragment.length) := by
  simp only [MeetsBoundary, List.mem_map, List.mem_inits]
  constructor
  · rintro ⟨whole, isWhole, rfl⟩
    rcases List.prefix_cons_iff.mp isWhole with rfl | ⟨rest, rfl, isRest⟩
    · exact absurd rfl wanted
    · rw [List.flatten_cons, List.length_append, Nat.add_sub_cancel_left]
      exact ⟨Nat.le_add_right _ _, rest, isRest, rfl⟩
  · rintro ⟨covers, rest, isRest, length⟩
    refine ⟨fragment :: rest, List.prefix_cons_iff.mpr
      (.inr ⟨rest, rfl, isRest⟩), ?_⟩
    rw [List.flatten_cons, List.length_append, length]
    omega

/-- Nothing is lost if the items end where a fragment does. -/
theorem MeetsBoundary.append_eq
    {fragments : List (List α)}
    {count : Nat}
    (meets : MeetsBoundary fragments count) :
    (takeFragments fragments count).1 ++
        (takeFragments fragments count).2.flatten =
      fragments.flatten := by
  induction fragments generalizing count with
  | nil => rfl
  | cons fragment fragments inductionHypothesis =>
      by_cases nothing : count = 0
      · simp [nothing]
      · obtain ⟨covers, rest⟩ := (meetsBoundary_cons_iff nothing).mp meets
        rw [fst_takeFragments_cons nothing, snd_takeFragments_cons nothing,
          List.take_of_length_le covers, List.append_assoc,
          inductionHypothesis rest, List.flatten_cons]

/-- If nothing is lost and there are enough items, they end where a fragment
does. -/
theorem meetsBoundary_of_length_eq
    {fragments : List (List α)}
    {count : Nat}
    (enough : count ≤ fragments.flatten.length)
    (kept :
      (takeFragments fragments count).1.length +
          (takeFragments fragments count).2.flatten.length =
        fragments.flatten.length) :
    MeetsBoundary fragments count := by
  induction fragments generalizing count with
  | nil =>
      obtain rfl : count = 0 := by simpa using enough
      exact meetsBoundary_zero _
  | cons fragment fragments inductionHypothesis =>
      by_cases nothing : count = 0
      · subst nothing
        exact meetsBoundary_zero _
      · have rest := length_takeFragments_le fragments (count - fragment.length)
        rw [fst_takeFragments_cons nothing, snd_takeFragments_cons nothing,
          List.length_append, List.flatten_cons, List.length_append,
          List.length_take] at kept
        rw [List.flatten_cons, List.length_append] at enough
        rw [meetsBoundary_cons_iff nothing]
        refine ⟨by omega, inductionHypothesis (by omega) (by omega)⟩

end Foundation
end Hiemal
