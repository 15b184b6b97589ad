import Mathlib.Data.List.Basic

/-!
# First-in first-out stores of bounded capacity

Two abstract stores. A `BoundedFifo` may hold any `capacity` items at a time.
A `MarkedFifo` hands its cells out once: a high-water mark counts the cells used
so far, and only a store that has been emptied starts over. Both carry their
capacity bounds, so that an overfull store cannot be built.
-/

namespace Hiemal
namespace Foundation

variable {α : Type*} {capacity : Nat}

/-- A queue of at most `capacity` items. -/
structure BoundedFifo (α : Type*) (capacity : Nat) where
  /-- The items, oldest first. -/
  items : List α
  /-- The queue is not overfull. -/
  bounded : items.length ≤ capacity

namespace BoundedFifo

/-- The empty queue. -/
def empty : BoundedFifo α capacity where
  items := []
  bounded := Nat.zero_le capacity

/-- Number of items that may still be added. -/
def room (queue : BoundedFifo α capacity) : Nat :=
  capacity - queue.items.length

/-- Append as much of `data` as there is room for. -/
def write
    (queue : BoundedFifo α capacity)
    (data : List α) : BoundedFifo α capacity where
  items := queue.items ++ data.take queue.room
  bounded := by
    have := queue.bounded
    simp only [List.length_append, List.length_take, room]
    omega

/-- Remove the oldest `count` items, or all of them. -/
def read
    (queue : BoundedFifo α capacity)
    (count : Nat) : BoundedFifo α capacity where
  items := queue.items.drop count
  bounded := by
    have := queue.bounded
    rw [List.length_drop]
    omega

@[simp] theorem items_empty :
    (empty : BoundedFifo α capacity).items = [] := rfl

@[simp] theorem items_write
    (queue : BoundedFifo α capacity)
    (data : List α) :
    (queue.write data).items = queue.items ++ data.take queue.room := rfl

@[simp] theorem items_read
    (queue : BoundedFifo α capacity)
    (count : Nat) :
    (queue.read count).items = queue.items.drop count := rfl

end BoundedFifo

/-- A queue over `capacity` cells, each used once between two drains. -/
@[ext] structure MarkedFifo (α : Type*) (capacity : Nat) where
  /-- The items, oldest first. -/
  items : List α
  /-- Number of cells used since the queue was last empty. -/
  mark : Nat
  /-- Every item occupies a used cell. -/
  items_le_mark : items.length ≤ mark
  /-- Cells are used within the capacity. -/
  mark_le_capacity : mark ≤ capacity
  /-- A drained queue has all its cells back. -/
  mark_of_drained : items = [] → mark = 0

namespace MarkedFifo

/-- The empty queue, with every cell available. -/
def empty : MarkedFifo α capacity where
  items := []
  mark := 0
  items_le_mark := Nat.le_refl 0
  mark_le_capacity := Nat.zero_le capacity
  mark_of_drained := fun _ => rfl

/-- Number of cells not used yet. -/
def room (queue : MarkedFifo α capacity) : Nat :=
  capacity - queue.mark

/-- Append as much of `data` as there are unused cells, and use them. -/
def write
    (queue : MarkedFifo α capacity)
    (data : List α) : MarkedFifo α capacity where
  items := queue.items ++ data.take queue.room
  mark := queue.mark + (data.take queue.room).length
  items_le_mark := by
    have := queue.items_le_mark
    rw [List.length_append]
    omega
  mark_le_capacity := by
    have := queue.mark_le_capacity
    simp only [List.length_take, room]
    omega
  mark_of_drained := by
    intro drained
    obtain ⟨itemsNil, acceptedNil⟩ := List.append_eq_nil_iff.mp drained
    rw [queue.mark_of_drained itemsNil, acceptedNil, List.length_nil]

/-- Remove the oldest `count` items; removing the last one makes every cell
available again. -/
def read
    (queue : MarkedFifo α capacity)
    (count : Nat) : MarkedFifo α capacity where
  items := queue.items.drop count
  mark := if queue.items.length ≤ count then 0 else queue.mark
  items_le_mark := by
    have := queue.items_le_mark
    rw [List.length_drop]
    split <;> omega
  mark_le_capacity := by
    have := queue.mark_le_capacity
    split <;> omega
  mark_of_drained := by
    intro drained
    rw [if_pos (List.drop_eq_nil_iff.mp drained)]

@[simp] theorem items_empty :
    (empty : MarkedFifo α capacity).items = [] := rfl

@[simp] theorem items_write
    (queue : MarkedFifo α capacity)
    (data : List α) :
    (queue.write data).items = queue.items ++ data.take queue.room := rfl

@[simp] theorem mark_write
    (queue : MarkedFifo α capacity)
    (data : List α) :
    (queue.write data).mark =
      queue.mark + (data.take queue.room).length := rfl

@[simp] theorem items_read
    (queue : MarkedFifo α capacity)
    (count : Nat) :
    (queue.read count).items = queue.items.drop count := rfl

@[simp] theorem mark_read
    (queue : MarkedFifo α capacity)
    (count : Nat) :
    (queue.read count).mark =
      if queue.items.length ≤ count then 0 else queue.mark := rfl

/-- Only the data there is room for matters to a write. -/
theorem write_take_room
    (queue : MarkedFifo α capacity)
    (data : List α) :
    queue.write (data.take queue.room) = queue.write data := by
  ext1 <;> simp [List.take_take]

@[simp] theorem write_nil (queue : MarkedFifo α capacity) :
    queue.write [] = queue := by
  ext1 <;> simp

@[simp] theorem read_zero (queue : MarkedFifo α capacity) :
    queue.read 0 = queue := by
  ext1
  · simp
  · rw [mark_read]
    split
    · rename_i drained
      exact (queue.mark_of_drained
        (List.eq_nil_of_length_eq_zero (Nat.le_zero.mp drained))).symm
    · rfl

/-- Reading more than there is drains the queue. -/
theorem read_min_length
    (queue : MarkedFifo α capacity)
    (count : Nat) :
    queue.read (min count queue.items.length) = queue.read count := by
  ext1
  · simp only [items_read, ← List.drop_eq_drop_min]
  · have drains :
        queue.items.length ≤ min count queue.items.length ↔
          queue.items.length ≤ count := by
      omega
    simp only [mark_read, drains]

end MarkedFifo

end Foundation
end Hiemal
