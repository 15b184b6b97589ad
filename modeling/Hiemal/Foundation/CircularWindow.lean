import Hiemal.Foundation.Block
import Mathlib.Data.List.Rotate

/-!
# Windows of a circular block

Read cyclically from `start`, a block of `N` cells shows every stored cell
once. The first `length` of them form a window. This module says how a window
splits into at most two linear loads, how it shrinks from the front, and that a
store placed just behind it, again in at most two linear pieces, appends to it.
-/

namespace Hiemal
namespace Foundation

variable {α : Type*}

/-- The first `length` cells of a block read cyclically from `start`. -/
def window (block : List α) (start length : Nat) : List α :=
  (block.rotate start).take length

/-- Store `data` cyclically from `position`: the cells that do not fit before
the end of the block continue at its beginning. -/
def circularStore (block : List α) (position : Nat) (data : List α) : List α :=
  if position + data.length ≤ block.length then store block position data
  else
    store (store block position (data.take (block.length - position))) 0
      (data.drop (block.length - position))

theorem length_window
    {block : List α}
    {start length : Nat}
    (fits : length ≤ block.length) :
    (window block start length).length = length := by
  rw [window, List.length_take, List.length_rotate, Nat.min_eq_left fits]

@[simp] theorem window_zero
    (block : List α)
    (start : Nat) :
    window block start 0 = [] := by
  simp [window]

/-- The cell at an offset of a window, as a cell of the block. -/
theorem getElem?_window
    {block : List α}
    {start length offset : Nat}
    (fits : length ≤ block.length)
    (bound : offset < length) :
    (window block start length)[offset]? =
      block[(start + offset) % block.length]? := by
  rw [window, List.getElem?_take_of_lt bound,
    List.getElem?_rotate (by omega), Nat.add_comm start]

/-- A window that does not reach the end of the block is one load. -/
theorem window_eq_load
    {block : List α}
    {start length : Nat}
    (fits : start + length ≤ block.length)
    (inside : start < block.length) :
    window block start length = load block start length := by
  rw [window, List.rotate_eq_drop_append_take (Nat.le_of_lt inside),
    List.take_append_of_le_length (by rw [List.length_drop]; omega), load]

/-- A window that runs past the end of the block is a load up to the end
followed by a load from the beginning. -/
theorem window_eq_load_append
    {block : List α}
    {start length : Nat}
    (past : block.length ≤ start + length)
    (inside : start < block.length)
    (fits : length ≤ block.length) :
    window block start length =
      load block start (block.length - start) ++
        load block 0 (length - (block.length - start)) := by
  have tailLength : (block.drop start).length = block.length - start :=
    List.length_drop
  have tailWhole :
      load block start (block.length - start) = block.drop start :=
    List.take_of_length_le (by omega)
  rw [tailWhole, window,
    List.rotate_eq_drop_append_take (Nat.le_of_lt inside), List.take_append,
    tailLength, List.take_of_length_le (by omega), List.take_take,
    load_zero]
  congr 2
  omega

theorem take_window
    {block : List α}
    {start length count : Nat}
    (le : count ≤ length) :
    (window block start length).take count = window block start count := by
  rw [window, List.take_take, Nat.min_eq_left le, window]

/-- Dropping cells from the front of a window advances its start. -/
theorem drop_window
    (block : List α)
    (start : Nat)
    {length count : Nat}
    (fits : length ≤ block.length)
    (le : count ≤ length) :
    (window block start length).drop count =
      window block ((start + count) % block.length) (length - count) := by
  apply List.ext_getElem?
  intro offset
  rw [List.getElem?_drop]
  by_cases bound : offset < length - count
  · rw [getElem?_window fits (by omega),
      getElem?_window (by omega) bound, Nat.mod_add_mod]
    congr 2
    omega
  · rw [List.getElem?_eq_none (by rw [length_window fits]; omega),
      List.getElem?_eq_none (by rw [length_window (by omega)]; omega)]

/-- A slice of a window that does not reach the end of the block is one load. -/
theorem slice_window
    {block : List α}
    {start length offset count : Nat}
    (within : offset + count ≤ length)
    (fits : start + (offset + count) ≤ block.length)
    (inside : start < block.length) :
    ((window block start length).drop offset).take count =
      load block (start + offset) count := by
  rw [List.take_drop, take_window within, window_eq_load fits inside,
    drop_load, Nat.add_sub_cancel_left]

/-- A slice of a window that starts before the end of the block and runs past it
is a load up to the end followed by a load from the beginning. -/
theorem slice_window_wrapped
    {block : List α}
    {start length offset count : Nat}
    (within : offset + count ≤ length)
    (before : start + offset ≤ block.length)
    (past : block.length ≤ start + (offset + count))
    (inside : start < block.length)
    (bounded : length ≤ block.length) :
    ((window block start length).drop offset).take count =
      load block (start + offset) (block.length - (start + offset)) ++
        load block 0 (count - (block.length - (start + offset))) := by
  have firstLength :
      (load block start (block.length - start)).length =
        block.length - start :=
    length_load (by omega)
  rw [List.take_drop, take_window within,
    window_eq_load_append past inside (by omega),
    List.drop_append_of_le_length (by omega), drop_load]
  congr 2 <;> omega

@[simp] theorem length_circularStore
    (block : List α)
    (position : Nat)
    (data : List α) :
    (circularStore block position data).length = block.length := by
  unfold circularStore
  split_ifs <;> simp

/-- At or behind its position a circular store shows the first cells of the
data. -/
theorem getElem?_circularStore_of_le
    {block data : List α}
    {position index : Nat}
    (fits : data.length ≤ block.length)
    (after : position ≤ index)
    (bound : index < block.length) :
    (circularStore block position data)[index]? =
      if index - position < data.length then data[index - position]?
      else block[index]? := by
  unfold circularStore
  by_cases whole : position + data.length ≤ block.length
  · rw [if_pos whole, getElem?_store whole]
    split_ifs <;> first | rfl | omega
  · have headLength :
        (data.take (block.length - position)).length =
          block.length - position :=
      List.length_take_of_le (by omega)
    have headFits :
        position + (data.take (block.length - position)).length ≤
          block.length := by omega
    rw [if_neg whole, getElem?_store (by simp; omega), List.length_drop,
      if_neg (by omega), getElem?_store headFits, headLength,
      if_pos (by omega), if_pos (by omega),
      List.getElem?_take_of_lt (by omega)]

/-- Before its position a circular store shows the cells of the data that
continue at the beginning of the block. -/
theorem getElem?_circularStore_of_lt
    {block data : List α}
    {position index : Nat}
    (inside : position < block.length)
    (fits : data.length ≤ block.length)
    (before : index < position) :
    (circularStore block position data)[index]? =
      if index + block.length - position < data.length then
        data[index + block.length - position]?
      else block[index]? := by
  unfold circularStore
  by_cases whole : position + data.length ≤ block.length
  · rw [if_pos whole, getElem?_store whole, if_neg (by omega),
      if_neg (by omega)]
  · have headLength :
        (data.take (block.length - position)).length =
          block.length - position :=
      List.length_take_of_le (by omega)
    have headFits :
        position + (data.take (block.length - position)).length ≤
          block.length := by omega
    rw [if_neg whole, getElem?_store (by simp; omega), List.length_drop,
      getElem?_store headFits, headLength, List.getElem?_drop]
    split_ifs <;> first | omega | rfl | (congr 1; omega)

/-- One subtraction reduces a number below twice the modulus. -/
theorem mod_of_lt_two_mul
    (value modulus : Nat)
    (bound : value < 2 * modulus) :
    value % modulus = if value < modulus then value else value - modulus := by
  split_ifs with small
  · exact Nat.mod_eq_of_lt small
  · rw [Nat.mod_eq_sub_mod (by omega), Nat.mod_eq_of_lt (by omega)]

/-- A circular store placed just behind a window appends the data to it. -/
theorem window_circularStore
    (block data : List α)
    {start length : Nat}
    (inside : start < block.length)
    (room : length + data.length ≤ block.length) :
    window
        (circularStore block ((start + length) % block.length) data)
        start (length + data.length) =
      window block start length ++ data := by
  have positionInside : (start + length) % block.length < block.length :=
    Nat.mod_lt _ (by omega)
  apply List.ext_getElem?
  intro offset
  by_cases bound : offset < length + data.length
  · rw [getElem?_window (by simpa using room) bound, length_circularStore,
      List.getElem?_append, length_window (by omega)]
    have indexInside : (start + offset) % block.length < block.length :=
      Nat.mod_lt _ (by omega)
    have positionValue :
        (start + length) % block.length =
          if start + length < block.length then start + length
          else start + length - block.length :=
      mod_of_lt_two_mul _ _ (by omega)
    have indexValue :
        (start + offset) % block.length =
          if start + offset < block.length then start + offset
          else start + offset - block.length :=
      mod_of_lt_two_mul _ _ (by omega)
    by_cases old : offset < length
    · rw [if_pos old, getElem?_window (by omega) old]
      by_cases after :
          (start + length) % block.length ≤ (start + offset) % block.length
      · rw [getElem?_circularStore_of_le (by omega) after indexInside,
          if_neg (by split_ifs at positionValue indexValue <;> omega)]
      · rw [getElem?_circularStore_of_lt positionInside (by omega) (by omega),
          if_neg (by split_ifs at positionValue indexValue <;> omega)]
    · rw [if_neg old]
      by_cases after :
          (start + length) % block.length ≤ (start + offset) % block.length
      · rw [getElem?_circularStore_of_le (by omega) after indexInside,
          if_pos (by split_ifs at positionValue indexValue <;> omega)]
        congr 1
        split_ifs at positionValue indexValue <;> omega
      · rw [getElem?_circularStore_of_lt positionInside (by omega) (by omega),
          if_pos (by split_ifs at positionValue indexValue <;> omega)]
        congr 1
        split_ifs at positionValue indexValue <;> omega
  · rw [List.getElem?_eq_none (by rw [length_window (by simpa using room)]; omega),
      List.getElem?_eq_none (by
        rw [List.length_append, length_window (by omega)]
        omega)]

end Foundation
end Hiemal
