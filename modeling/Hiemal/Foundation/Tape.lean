import Hiemal.Foundation.Fifo

/-!
# Queues on a tape

A tape of `capacity` cells is written from its beginning on and read behind a moving
position. It is rewound when everything written has been read. As a queue it is a
`MarkedFifo`; it also remembers the items that have been read since it was rewound.
-/

namespace Hiemal
namespace Foundation

variable {α : Type*} {capacity : Nat}

/-- A queue on a tape of `capacity` cells. -/
@[ext] structure Tape (α : Type*) (capacity : Nat) where
  /-- The items written since the tape was rewound, oldest first. -/
  written : List α
  /-- How many of them have been read. -/
  position : Nat
  /-- Only what was written is read. -/
  position_le : position ≤ written.length
  /-- The items fit on the tape. -/
  fits : written.length ≤ capacity
  /-- A tape that was read to the end has been rewound. -/
  rewound : position = written.length → written = []

namespace Tape

/-- The rewound tape. -/
def empty : Tape α capacity where
  written := []
  position := 0
  position_le := Nat.zero_le _
  fits := Nat.zero_le capacity
  rewound := fun _ => rfl

/-- The items not read yet. -/
def items (tape : Tape α capacity) : List α :=
  tape.written.drop tape.position

/-- Number of cells behind what was written. -/
def room (tape : Tape α capacity) : Nat :=
  capacity - tape.written.length

/-- Append as much of `data` as there are cells left. -/
def write (tape : Tape α capacity) (data : List α) : Tape α capacity where
  written := tape.written ++ data.take tape.room
  position := tape.position
  position_le := by
    have := tape.position_le
    rw [List.length_append]
    omega
  fits := by
    have := tape.fits
    simp only [List.length_append, List.length_take, room]
    omega
  rewound := by
    intro atEnd
    have inside := tape.position_le
    rw [List.length_append] at atEnd
    have nothing : data.take tape.room = [] :=
      List.length_eq_zero_iff.mp (by omega)
    rw [nothing, List.append_nil]
    exact tape.rewound (by omega)

/-- Read the oldest `count` items; reading the last one rewinds the tape. -/
def read (tape : Tape α capacity) (count : Nat) : Tape α capacity :=
  if toEnd : tape.written.length ≤ tape.position + count then empty
  else
    { written := tape.written
      position := tape.position + count
      position_le := by omega
      fits := tape.fits
      rewound := by omega }

/-- The tape as a queue with a high-water mark. -/
def marked (tape : Tape α capacity) : MarkedFifo α capacity where
  items := tape.items
  mark := tape.written.length
  items_le_mark := by
    rw [items, List.length_drop]
    omega
  mark_le_capacity := tape.fits
  mark_of_drained := by
    intro drained
    have atEnd : tape.written.length ≤ tape.position :=
      List.drop_eq_nil_iff.mp drained
    rw [tape.rewound (Nat.le_antisymm tape.position_le atEnd), List.length_nil]

@[simp] theorem items_marked (tape : Tape α capacity) :
    tape.marked.items = tape.items := rfl

@[simp] theorem mark_marked (tape : Tape α capacity) :
    tape.marked.mark = tape.written.length := rfl

theorem length_items (tape : Tape α capacity) :
    tape.items.length = tape.written.length - tape.position := by
  rw [items, List.length_drop]

@[simp] theorem marked_empty :
    (empty : Tape α capacity).marked = .empty := rfl

/-- Writing to the tape writes to the queue. -/
@[simp] theorem marked_write (tape : Tape α capacity) (data : List α) :
    (tape.write data).marked = tape.marked.write data := by
  ext1
  · exact List.drop_append_of_le_length tape.position_le
  · exact List.length_append

/-- Only the data there is room for matters to a write. -/
theorem write_take_min (tape : Tape α capacity) (data : List α) :
    tape.write (data.take (min data.length tape.room)) = tape.write data := by
  ext1
  · change _ ++ _ = _ ++ _
    rw [List.take_take, Nat.min_comm data.length, ← Nat.min_assoc, Nat.min_self,
      ← List.take_take, List.take_length]
  · rfl

/-- Reading from the tape reads from the queue. -/
@[simp] theorem marked_read (tape : Tape α capacity) (count : Nat) :
    (tape.read count).marked = tape.marked.read count := by
  have length := tape.length_items
  have inside := tape.position_le
  rw [read]
  split
  · rename_i toEnd
    have drains : tape.items.length ≤ count := by omega
    ext1
    · exact (List.drop_eq_nil_of_le drains).symm
    · exact (if_pos drains).symm
  · rename_i before
    have leaves : ¬tape.items.length ≤ count := by omega
    ext1
    · exact List.drop_drop.symm
    · exact (if_neg leaves).symm

/-- Unless the tape is rewound, reading leaves what was written. -/
theorem written_read (tape : Tape α capacity) (count : Nat) :
    (tape.read count).written = tape.written ∨
      (tape.read count).written = [] := by
  rw [read]
  split
  · exact Or.inr rfl
  · exact Or.inl rfl

end Tape

end Foundation
end Hiemal
