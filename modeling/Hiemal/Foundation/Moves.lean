import Mathlib.Data.List.Basic

/-!
# Moving cells in place

A loop that copies cells within one block moves them one after the other. Where no
cell is overwritten before it is moved, the moves come to the same as if all cells
were taken from the original block at once, whatever ranges overlap.
-/

namespace Hiemal
namespace Foundation

variable {α : Type*}

/-- One cell copied over another one of the same block. -/
structure CellMove where
  source : Nat
  target : Nat
  deriving DecidableEq

/-- Make the moves in turn; `none` if one of them is not within the block. -/
def applyMoves : List CellMove → List α → Option (List α)
  | [], block => some block
  | move :: moves, block =>
      match block[move.source]? with
      | none => none
      | some cell =>
          if move.target < block.length then
            applyMoves moves (block.set move.target cell)
          else none

/-- No cell is overwritten before it is moved. -/
def MovedFirst (moves : List CellMove) : Prop :=
  moves.Pairwise fun earlier later => earlier.target ≠ later.source

/-- Moves within a block that overwrite no cell before it is moved, and none
twice. -/
structure InPlace (moves : List CellMove) (size : Nat) : Prop where
  inside : ∀ move ∈ moves, move.source < size ∧ move.target < size
  movedFirst : MovedFirst moves
  distinct : moves.Pairwise fun earlier later => earlier.target ≠ later.target

section

variable {move : CellMove} {moves before after : List CellMove}
variable {block moved : List α} {size : Nat}

theorem inPlace_nil (size : Nat) : InPlace [] size where
  inside move member := by cases member
  movedFirst := .nil
  distinct := .nil

/-- One more move in front, of a cell over one that no later move reads or writes. -/
theorem InPlace.cons
    (inPlace : InPlace moves size)
    (source : move.source < size)
    (target : move.target < size)
    (unmoved : ∀ later ∈ moves, move.target ≠ later.source)
    (unwritten : ∀ later ∈ moves, move.target ≠ later.target) :
    InPlace (move :: moves) size where
  inside := by
    intro other member
    rcases List.mem_cons.mp member with same | later
    · rw [same]
      exact ⟨source, target⟩
    · exact inPlace.inside other later
  movedFirst := List.pairwise_cons.mpr ⟨unmoved, inPlace.movedFirst⟩
  distinct := List.pairwise_cons.mpr ⟨unwritten, inPlace.distinct⟩

theorem InPlace.tail (inPlace : InPlace (move :: moves) size) :
    InPlace moves size where
  inside later member := inPlace.inside later (List.mem_cons_of_mem move member)
  movedFirst := (List.pairwise_cons.mp inPlace.movedFirst).2
  distinct := (List.pairwise_cons.mp inPlace.distinct).2

theorem applyMoves_cons
    (source : move.source < block.length)
    (target : move.target < block.length) :
    applyMoves (move :: moves) block =
      applyMoves moves (block.set move.target (block[move.source])) := by
  rw [applyMoves, List.getElem?_eq_getElem source]
  exact if_pos target

/-- Moves in place take every cell from the original block and leave the others. -/
theorem InPlace.applies (inPlace : InPlace moves block.length) :
    ∃ moved, applyMoves moves block = some moved ∧
      moved.length = block.length ∧
      (∀ move ∈ moves, moved[move.target]? = block[move.source]?) ∧
      ∀ index, (∀ move ∈ moves, move.target ≠ index) →
        moved[index]? = block[index]? := by
  induction moves generalizing block with
  | nil =>
      refine ⟨block, rfl, rfl, ?_, fun _ _ => rfl⟩
      intro move member
      cases member
  | cons move moves inductionHypothesis =>
      obtain ⟨source, target⟩ := inPlace.inside move List.mem_cons_self
      have keepsSource := (List.pairwise_cons.mp inPlace.movedFirst).1
      have keepsTarget := (List.pairwise_cons.mp inPlace.distinct).1
      have rest : InPlace moves (block.set move.target block[move.source]).length := by
        rw [List.length_set]
        exact inPlace.tail
      obtain ⟨moved, applied, size, takes, leaves⟩ := inductionHypothesis rest
      refine ⟨moved, ?_, ?_, ?_, ?_⟩
      · rw [applyMoves_cons source target, applied]
      · rw [size, List.length_set]
      · intro other member
        rcases List.mem_cons.mp member with same | later
        · rw [same, leaves _ fun later member => (keepsTarget later member).symm,
            List.getElem?_set_self target, List.getElem?_eq_getElem source]
        · rw [takes other later, List.getElem?_set_ne (keepsSource other later)]
      · intro index untouched
        rw [leaves index fun later member =>
            untouched later (List.mem_cons_of_mem move member),
          List.getElem?_set_ne (untouched move List.mem_cons_self)]

end

/-! ## Moving a range -/

/-- The moves that bring cells `start, …` down by an offset, the first cell
first. -/
def movesDown (offset : Nat) : (start count : Nat) → List CellMove
  | _, 0 => []
  | start, count + 1 =>
      ⟨start + offset, start⟩ :: movesDown offset (start + 1) count

/-- The moves that bring the first cells up by an offset, the last of them first. -/
def movesUp (offset : Nat) : (count : Nat) → List CellMove
  | 0 => []
  | count + 1 => ⟨count, count + offset⟩ :: movesUp offset count

theorem mem_movesDown
    {offset start count : Nat}
    {move : CellMove} :
    move ∈ movesDown offset start count ↔
      ∃ index, start ≤ index ∧ index < start + count ∧
        move = ⟨index + offset, index⟩ := by
  induction count generalizing start with
  | zero =>
      constructor
      · intro member
        cases member
      · rintro ⟨index, least, most, _⟩
        omega
  | succ count inductionHypothesis =>
      rw [movesDown, List.mem_cons, inductionHypothesis]
      constructor
      · rintro (rfl | ⟨index, least, most, rfl⟩)
        · exact ⟨start, by omega, by omega, rfl⟩
        · exact ⟨index, by omega, by omega, rfl⟩
      · rintro ⟨index, least, most, rfl⟩
        by_cases first : index = start
        · exact .inl (by rw [first])
        · exact .inr ⟨index, by omega, by omega, rfl⟩

theorem mem_movesUp
    {offset count : Nat}
    {move : CellMove} :
    move ∈ movesUp offset count ↔
      ∃ index < count, move = ⟨index, index + offset⟩ := by
  induction count with
  | zero =>
      constructor
      · intro member
        cases member
      · rintro ⟨index, most, _⟩
        omega
  | succ count inductionHypothesis =>
      rw [movesUp, List.mem_cons, inductionHypothesis]
      constructor
      · rintro (rfl | ⟨index, most, rfl⟩)
        · exact ⟨count, by omega, rfl⟩
        · exact ⟨index, by omega, rfl⟩
      · rintro ⟨index, most, rfl⟩
        by_cases last : index = count
        · exact .inl (by rw [last])
        · exact .inr ⟨index, by omega, rfl⟩

/-- Downwards, the first cell has to be moved first. -/
theorem inPlace_movesDown
    {offset start count size : Nat}
    (fits : start + count + offset ≤ size) :
    InPlace (movesDown offset start count) size := by
  induction count generalizing start with
  | zero => exact inPlace_nil size
  | succ count inductionHypothesis =>
      rw [movesDown]
      apply InPlace.cons (inductionHypothesis (by omega))
      · change start + offset < size
        omega
      · change start < size
        omega
      · intro move member
        obtain ⟨index, least, most, rfl⟩ := mem_movesDown.mp member
        change start ≠ index + offset
        omega
      · intro move member
        obtain ⟨index, least, most, rfl⟩ := mem_movesDown.mp member
        change start ≠ index
        omega

/-- Upwards, the last cell has to be moved first. -/
theorem inPlace_movesUp
    {offset count size : Nat}
    (fits : count + offset ≤ size) :
    InPlace (movesUp offset count) size := by
  induction count with
  | zero => exact inPlace_nil size
  | succ count inductionHypothesis =>
      rw [movesUp]
      apply InPlace.cons (inductionHypothesis (by omega))
      · change count < size
        omega
      · change count + offset < size
        omega
      · intro move member
        obtain ⟨index, most, rfl⟩ := mem_movesUp.mp member
        change count + offset ≠ index
        omega
      · intro move member
        obtain ⟨index, most, rfl⟩ := mem_movesUp.mp member
        change count + offset ≠ index + offset
        omega

/-- All cells from an offset on are moved to the front of the block. -/
theorem applyMoves_movesDown
    {block : List α}
    {offset : Nat}
    (fits : offset ≤ block.length) :
    applyMoves (movesDown offset 0 (block.length - offset)) block =
      some (block.drop offset ++ block.drop (block.length - offset)) := by
  have inPlace := @inPlace_movesDown offset 0 (block.length - offset) block.length
    (by omega)
  obtain ⟨moved, applied, size, takes, leaves⟩ := inPlace.applies
  rw [applied]
  congr 1
  apply List.ext_getElem?
  intro index
  by_cases covered : index < block.length - offset
  · have move := takes ⟨index + offset, index⟩
      (mem_movesDown.mpr ⟨index, by omega, by omega, rfl⟩)
    rw [move, List.getElem?_append_left (by rw [List.length_drop]; omega),
      List.getElem?_drop, Nat.add_comm]
  · have kept := leaves index (by
      intro move member
      obtain ⟨other, least, most, rfl⟩ := mem_movesDown.mp member
      change other ≠ index
      omega)
    rw [kept, List.getElem?_append_right (by rw [List.length_drop]; omega),
      List.length_drop, List.getElem?_drop, Nat.add_sub_cancel' (by omega)]

/-- All cells but the last ones are moved to the end of the block. -/
theorem applyMoves_movesUp
    {block : List α}
    {offset : Nat}
    (fits : offset ≤ block.length) :
    applyMoves (movesUp offset (block.length - offset)) block =
      some (block.take offset ++ block.take (block.length - offset)) := by
  have inPlace := @inPlace_movesUp offset (block.length - offset) block.length
    (by omega)
  obtain ⟨moved, applied, size, takes, leaves⟩ := inPlace.applies
  have front : (block.take offset).length = offset := List.length_take_of_le fits
  rw [applied]
  congr 1
  apply List.ext_getElem?
  intro index
  by_cases kept : index < offset
  · have same := leaves index (by
      intro move member
      obtain ⟨other, most, rfl⟩ := mem_movesUp.mp member
      change other + offset ≠ index
      omega)
    rw [same, List.getElem?_append_left (by omega), List.getElem?_take_of_lt kept]
  · rw [List.getElem?_append_right (by omega), front]
    by_cases covered : index < block.length
    · have move := takes ⟨index - offset, index - offset + offset⟩
        (mem_movesUp.mpr ⟨index - offset, by omega, rfl⟩)
      rw [Nat.sub_add_cancel (by omega)] at move
      rw [move, List.getElem?_take_of_lt (by omega)]
    · rw [List.getElem?_eq_none (by omega), List.getElem?_eq_none]
      rw [List.length_take]
      omega

end Foundation
end Hiemal
