import Mathlib.Algebra.GroupWithZero.Nat
import Mathlib.Data.List.Basic
import Mathlib.Data.List.SplitLengths
import Mathlib.Tactic.SplitIfs

/-!
# Fixed-size memory blocks

A block is the list of cells of one allocated object. Loads and stores address
a contiguous range of it; a store never changes the size of the block, so cells
of a range that lies outside the block are dropped. Whether a range does lie
inside is recorded separately, as an `Access` that the caller keeps in a log.
-/

namespace Hiemal
namespace Foundation

variable {α : Type*}

/-- The cells `start, …, start + length - 1` of a block. -/
def load (block : List α) (start length : Nat) : List α :=
  (block.drop start).take length

/-- Overwrite the cells from `start` on with `data`. -/
def store (block : List α) (start : Nat) (data : List α) : List α :=
  block.take start ++ data.take (block.length - start) ++
    block.drop (start + data.length)

/-- Resize a block, filling the cells past its old end with `fresh`. -/
def resize (block : List α) (size : Nat) (fresh : Nat → α) : List α :=
  block.take size ++
    (List.range' block.length (size - block.length)).map fresh

/-- A contiguous range touched in a block of `blockSize` cells. -/
structure Access where
  /-- Number of cells of the block. -/
  blockSize : Nat
  /-- First cell touched. -/
  start : Nat
  /-- Number of cells touched. -/
  length : Nat
  deriving DecidableEq

/-- The range lies inside its block. -/
def Access.InBounds (access : Access) : Prop :=
  access.start + access.length ≤ access.blockSize

instance (access : Access) : Decidable access.InBounds :=
  inferInstanceAs (Decidable (_ ≤ _))

@[simp] theorem length_store
    (block : List α)
    (start : Nat)
    (data : List α) :
    (store block start data).length = block.length := by
  simp only [store, List.length_append, List.length_take, List.length_drop]
  omega

@[simp] theorem store_nil
    (block : List α)
    (start : Nat) :
    store block start [] = block := by
  simp [store]

/-- A store past the end of a block leaves it. -/
theorem store_of_length_le
    {block : List α}
    {start : Nat}
    (past : block.length ≤ start)
    (data : List α) :
    store block start data = block := by
  rw [store, List.take_of_length_le past, List.drop_of_length_le (by omega),
    Nat.sub_eq_zero_of_le past]
  simp

theorem getElem?_store
    {block data : List α}
    {start index : Nat}
    (fits : start + data.length ≤ block.length) :
    (store block start data)[index]? =
      if start ≤ index ∧ index < start + data.length then
        data[index - start]?
      else block[index]? := by
  have dataWhole : data.take (block.length - start) = data :=
    List.take_of_length_le (by omega)
  have prefixLength : (block.take start).length = start :=
    List.length_take_of_le (by omega)
  rw [store, dataWhole, List.append_assoc, List.getElem?_append, prefixLength]
  split_ifs with before inside inside
  · omega
  · rw [List.getElem?_take_of_lt before]
  · rw [List.getElem?_append_left (by omega)]
  · rw [List.getElem?_append_right (by omega), List.getElem?_drop]
    congr 1
    omega

theorem length_load
    {block : List α}
    {start length : Nat}
    (fits : start + length ≤ block.length) :
    (load block start length).length = length := by
  simp only [load, List.length_take, List.length_drop]
  omega

@[simp] theorem load_length_zero
    (block : List α)
    (start : Nat) :
    load block start 0 = [] := by
  simp [load]

theorem load_zero
    (block : List α)
    (length : Nat) :
    load block 0 length = block.take length := rfl

/-- Loading after a position inside a load reads the rest of the same range. -/
theorem drop_load
    (block : List α)
    (start length count : Nat) :
    (load block start length).drop count =
      load block (start + count) (length - count) := by
  rw [load, List.drop_take, List.drop_drop, load]

theorem take_load
    {block : List α}
    {start length count : Nat}
    (le : count ≤ length) :
    (load block start length).take count = load block start count := by
  rw [load, List.take_take, Nat.min_eq_left le, load]

/-- A load inside a load. -/
theorem load_load
    {block : List α}
    {start length position count : Nat}
    (inside : position + count ≤ length) :
    load (load block start length) position count =
      load block (start + position) count := by
  rw [load, drop_load, take_load (by omega)]

/-- Adjacent loads form one load. -/
theorem load_append_load
    (block : List α)
    (start first second : Nat) :
    load block start first ++ load block (start + first) second =
      load block start (first + second) := by
  rw [load, load, load, List.take_add, List.drop_drop]

/-- A load that ends where a store begins does not see the store. -/
theorem load_store_before
    {block data : List α}
    {start length position : Nat}
    (before : start + length ≤ position) :
    load (store block position data) start length =
      load block start length := by
  by_cases inside : position ≤ block.length
  · have prefixLength : (block.take position).length = position :=
      List.length_take_of_le inside
    rw [load, load, store, List.append_assoc,
      List.drop_append_of_le_length (by omega),
      List.take_append_of_le_length
        (by rw [List.length_drop, prefixLength]; omega),
      List.drop_take, List.take_take]
    congr 1
    omega
  · rw [store_of_length_le (by omega)]

/-- A load of exactly the stored range returns the stored data. -/
theorem load_store_same
    {block data : List α}
    {start : Nat}
    (fits : start + data.length ≤ block.length) :
    load (store block start data) start data.length = data := by
  have dataWhole : data.take (block.length - start) = data :=
    List.take_of_length_le (by omega)
  have prefixLength : (block.take start).length = start :=
    List.length_take_of_le (by omega)
  rw [load, store, dataWhole, List.append_assoc,
    List.drop_append_of_le_length (by omega),
    List.drop_of_length_le (by omega), List.nil_append,
    List.take_append_of_le_length (Nat.le_refl _), List.take_length]

/-- A load of a front part of the stored range returns that part of the data. -/
theorem load_store_front
    {block data : List α}
    {start count : Nat}
    (fits : start + data.length ≤ block.length)
    (le : count ≤ data.length) :
    load (store block start data) start count = data.take count := by
  rw [← take_load le, load_store_same fits]

/-- One more cell than stand before a stored one. -/
theorem take_store_singleton
    {block : List α}
    {position : Nat}
    (inside : position < block.length)
    (cell : α) :
    (store block position [cell]).take (position + 1) =
      block.take position ++ [cell] := by
  have prefixLength : (block.take position ++ [cell]).length = position + 1 := by
    rw [List.length_append, List.length_take_of_le inside.le, List.length_singleton]
  have whole : [cell].take (block.length - position) = [cell] :=
    List.take_of_length_le (by
      rw [List.length_singleton]
      omega)
  rw [store, whole, ← prefixLength, List.take_left]

/-- Storing a concatenation is storing its two parts at adjacent places. -/
theorem store_append
    {block first second : List α}
    {start : Nat}
    (fits : start + (first.length + second.length) ≤ block.length) :
    store block start (first ++ second) =
      store (store block start first) (start + first.length) second := by
  apply List.ext_getElem?
  intro index
  rw [getElem?_store (by rw [List.length_append]; exact fits),
    getElem?_store (by rw [length_store]; omega),
    getElem?_store (by omega), List.length_append, List.getElem?_append]
  split_ifs <;> first | rfl | omega | (congr 1; omega)

@[simp] theorem length_resize
    (block : List α)
    (size : Nat)
    (fresh : Nat → α) :
    (resize block size fresh).length = size := by
  simp only [resize, List.length_append, List.length_take, List.length_map,
    List.length_range']
  omega

/-- Resizing keeps the old cells there is still room for. -/
theorem take_resize
    {block : List α}
    {size count : Nat}
    {fresh : Nat → α}
    (old : count ≤ block.length)
    (room : count ≤ size) :
    (resize block size fresh).take count = block.take count := by
  rw [resize, List.take_append_of_le_length
      (by rw [List.length_take]; omega),
    List.take_take, Nat.min_eq_left room]

/-- Storing as much as a block holds replaces all of its cells. -/
theorem store_of_length_eq
    {block data : List α}
    (length : data.length = block.length) :
    store block 0 data = data := by
  rw [store, Nat.sub_zero, List.take_of_length_le (Nat.le_of_eq length),
    List.drop_eq_nil_of_le (by omega), List.take_zero, List.nil_append,
    List.append_nil]

theorem store_resize_nil
    {data : List α}
    {size : Nat}
    (length : data.length = size)
    (fresh : Nat → α) :
    store (resize [] size fresh) 0 data = data := by
  apply store_of_length_eq
  rw [length_resize, length]

/-- Storing into the front part of a block. -/
theorem store_take_append_drop
    {block data : List α}
    {size : Nat}
    (fits : data.length ≤ size)
    (within : size ≤ block.length) :
    store (block.take size) 0 data ++ block.drop size = store block 0 data := by
  have length : (block.take size).length = size :=
    List.length_take_of_le within
  apply List.ext_getElem?
  intro index
  rw [getElem?_store (by omega), List.getElem?_append, length_store, length,
    getElem?_store (by omega)]
  by_cases stored : 0 ≤ index ∧ index < 0 + data.length
  · rw [if_pos stored, if_pos stored, if_pos (by omega)]
  · rw [if_neg stored, if_neg stored]
    split_ifs with front
    · rw [List.getElem?_take_of_lt front]
    · rw [List.getElem?_drop]
      congr 1
      omega

/-- Cutting a block at given lengths: each piece is the load of its range. -/
theorem getElem?_splitLengths
    (sizes : List Nat)
    (block : List α)
    (index : Nat) :
    (sizes.splitLengths block)[index]? =
      sizes[index]?.map (load block (sizes.take index).sum) := by
  induction sizes generalizing block index with
  | nil => rfl
  | cons size sizes inductionHypothesis =>
      rw [List.splitLengths_cons]
      cases index with
      | zero => rfl
      | succ index =>
          rw [List.getElem?_cons_succ, List.getElem?_cons_succ,
            inductionHypothesis, List.take_succ_cons, List.sum_cons]
          congr 1
          funext length
          rw [load, load, List.drop_drop]

/-- The pieces of a block, put together, are the block up to the sum of their
lengths. -/
theorem flatten_splitLengths_eq_take
    (sizes : List Nat)
    (block : List α) :
    (sizes.splitLengths block).flatten = block.take sizes.sum := by
  induction sizes generalizing block with
  | nil => simp
  | cons size sizes inductionHypothesis =>
      rw [List.splitLengths_cons, List.flatten_cons, inductionHypothesis,
        List.sum_cons, List.take_add]

/-! ## Pieces of equal size -/

/-- The first pieces of a block that is cut into pieces of `size` cells. -/
def pieces (size count : Nat) (block : List α) : List (List α) :=
  (List.range count).map fun index => load block (index * size) size

@[simp] theorem length_pieces (size count : Nat) (block : List α) :
    (pieces size count block).length = count := by
  rw [pieces, List.length_map, List.length_range]

@[simp] theorem pieces_zero (size : Nat) (block : List α) :
    pieces size 0 block = [] := rfl

theorem getElem?_pieces
    {count index : Nat}
    (inRange : index < count)
    (size : Nat)
    (block : List α) :
    (pieces size count block)[index]? =
      some (load block (index * size) size) := by
  rw [pieces, List.getElem?_map, List.getElem?_range inRange, Option.map_some]

theorem length_le_of_mem_pieces
    {size count : Nat}
    {block piece : List α}
    (member : piece ∈ pieces size count block) :
    piece.length ≤ size := by
  obtain ⟨index, _, rfl⟩ := List.mem_map.mp member
  exact List.length_take_le _ _

/-- Further pieces are the pieces of the rest of the block. -/
theorem pieces_add
    (size first second : Nat)
    (block : List α) :
    pieces size (first + second) block =
      pieces size first block ++
        pieces size second (block.drop (first * size)) := by
  rw [pieces, List.range_add, List.map_append, List.map_map]
  congr 1
  apply List.map_congr_left
  intro index _
  rw [Function.comp_apply, load, load, List.drop_drop, Nat.add_mul]

/-- The pieces lie in the front part of the block. -/
theorem pieces_take
    {size count length : Nat}
    (within : count * size ≤ length)
    (block : List α) :
    pieces size count (block.take length) = pieces size count block := by
  apply List.map_congr_left
  intro index inRange
  rw [List.mem_range] at inRange
  have inside : index * size + size ≤ length := by
    rw [← Nat.succ_mul]
    exact (Nat.mul_le_mul_right size inRange).trans within
  rw [← load_zero, load_load (by omega), Nat.zero_add]

/-- Pieces that are stored behind others. -/
theorem pieces_store
    {size first second : Nat}
    {block src : List α}
    (fits : first * size + second * size ≤ block.length)
    (enough : second * size ≤ src.length) :
    pieces size (first + second)
        (store block (first * size) (load src 0 (second * size))) =
      pieces size first block ++ pieces size second src := by
  have length : (load src 0 (second * size)).length = second * size :=
    length_load (by omega)
  have before :
      (store block (first * size) (load src 0 (second * size))).take
          (first * size) =
        block.take (first * size) := by
    rw [← load_zero, ← load_zero]
    exact load_store_before (Nat.zero_add _).le
  have stored :=
    @load_store_same _ block (load src 0 (second * size)) (first * size)
      (by rw [length]; exact fits)
  have behind :
      ((store block (first * size) (load src 0 (second * size))).drop
          (first * size)).take (second * size) =
        src.take (second * size) := by
    rw [length] at stored
    rw [← load_zero src, ← load]
    exact stored
  rw [pieces_add, ← pieces_take (Nat.le_refl _), before,
    pieces_take (Nat.le_refl _), ← pieces_take (Nat.le_refl _) (List.drop _ _),
    behind, pieces_take (Nat.le_refl _)]

/-- The length of lists of one length that are put together. -/
theorem length_flatMap_of_length_eq
    {β : Type*}
    {size : Nat}
    {convert : α → List β}
    (sizes : ∀ item, (convert item).length = size)
    (items : List α) :
    (items.flatMap convert).length = items.length * size := by
  rw [List.length_flatMap, List.map_congr_left fun item _ => sizes item]
  simp

/-- The pieces of pieces that were put together. -/
theorem pieces_flatten
    {size : Nat}
    {items : List (List α)}
    (sizes : ∀ item ∈ items, item.length = size) :
    pieces size items.length items.flatten = items := by
  induction items with
  | nil => rfl
  | cons item items inductionHypothesis =>
      rw [List.forall_mem_cons] at sizes
      have first : pieces size 1 (item ++ items.flatten) = [item] := by
        simp [pieces, load, ← sizes.1]
      rw [List.length_cons, Nat.add_comm, pieces_add, List.flatten_cons, first,
        Nat.one_mul, ← sizes.1, List.drop_left, sizes.1,
        inductionHypothesis sizes.2, List.singleton_append]

/-- Lists of one length that are put together, cut into pieces of that length. -/
theorem pieces_flatMap
    {β : Type*}
    {size : Nat}
    (positive : 0 < size)
    {convert : α → List β}
    (sizes : ∀ item, (convert item).length = size)
    (items : List α) :
    pieces size ((items.flatMap convert).length / size)
        (items.flatMap convert) =
      items.map convert := by
  have each : ∀ piece ∈ items.map convert, piece.length = size := by
    intro piece member
    obtain ⟨item, _, rfl⟩ := List.mem_map.mp member
    exact sizes item
  have whole := pieces_flatten each
  rw [List.length_map, ← List.flatMap_def] at whole
  rw [length_flatMap_of_length_eq sizes, Nat.mul_div_cancel _ positive, whole]

end Foundation
end Hiemal
