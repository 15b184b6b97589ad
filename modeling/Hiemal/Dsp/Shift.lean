import Hiemal.Dsp.Filter
import Hiemal.Foundation.Loop
import Hiemal.Foundation.Moves
import Mathlib.Data.UInt

/-!
# Shifts in place

Translation of `_buf_shift_up_64` and `_buf_shift_down_64` of `core/dsp.c` with
their loop indices, which are of type `int` and compared with and added to `unsigned`
ones, and with the order of their moves. The items are 8-byte cells; an access
outside the buffer is an outcome of its own.
-/

namespace Hiemal

open Foundation

variable {α : Type}

/-- The loop index, the buffer, and the moves made so far. -/
structure ShiftState (α : Type) where
  i : Int
  buf : List α
  moves : List CellMove

/-- `memset` with zeros, over whole items; `none` outside the buffer. -/
def memsetZero [Zero α] (buf : List α) (start count : Nat) : Option (List α) :=
  if start + count ≤ buf.length then some (store buf start (List.replicate count 0))
  else none

/-- Copy one item and go on with the next index; `none` outside the buffer. -/
def ShiftState.move
    (state : ShiftState α)
    (source target : Nat)
    (next : Int) : LoopStep (ShiftState α) (Option (ShiftState α)) :=
  match state.buf[source]? with
  | none => .stop none
  | some item =>
      if target < state.buf.length then
        .goOn
          { i := next
            buf := state.buf.set target item
            moves := state.moves ++ [⟨source, target⟩] }
      else .stop none

/-- The loop of `_buf_shift_down_64`. -/
def shiftDownBody
    (nItems nShift : Nat)
    (state : ShiftState α) : LoopStep (ShiftState α) (Option (ShiftState α)) :=
  if toUnsigned 32 state.i < toUnsigned 32 (nItems - nShift) then
    state.move (toUnsigned 32 (state.i + nShift)) state.i.toNat (state.i + 1)
  else .stop (some state)

/-- The loop of `_buf_shift_up_64`. -/
def shiftUpBody
    (nShift : Nat)
    (state : ShiftState α) : LoopStep (ShiftState α) (Option (ShiftState α)) :=
  if state.i ≥ 0 then
    state.move state.i.toNat (toUnsigned 32 (state.i + nShift)) (state.i - 1)
  else .stop (some state)

/-- `_buf_shift_down_64`, for at most `fuel` rounds of its loop: the buffer afterwards
and the moves of the loop, or `none` if an access is outside the buffer. -/
def bufShiftDown64InPlace
    [Zero α]
    (fuel : Nat)
    (buf : List α)
    (nBytes nShift : Nat) : Option (Option (List α × List CellMove)) :=
  let nItems := nBytes / 8
  if nShift ≥ nItems then some do
    let cleared ← memsetZero buf 0 (nBytes / 8)
    return (cleared, [])
  else do
    let last ← runLoop (shiftDownBody nItems nShift) fuel ⟨0, buf, []⟩
    return do
      let last ← last
      let cleared ← memsetZero last.buf (toUnsigned 32 (nItems - nShift))
        (toUnsigned 32 (nShift * 8) / 8)
      return (cleared, last.moves)

/-- `_buf_shift_up_64`, likewise. -/
def bufShiftUp64InPlace
    [Zero α]
    (fuel : Nat)
    (buf : List α)
    (nBytes nShift : Nat) : Option (Option (List α × List CellMove)) :=
  let nItems := nBytes / 8
  if nShift ≥ nItems then some do
    let cleared ← memsetZero buf 0 nItems
    return (cleared, [])
  else do
    let first := toSigned 32 (toUnsigned 32 (nItems - nShift - 1))
    let last ← runLoop (shiftUpBody nShift) fuel ⟨first, buf, []⟩
    return do
      let last ← last
      let cleared ← memsetZero last.buf 0 (toUnsigned 32 (nShift * 8) / 8)
      return (cleared, last.moves)

/-! ## The loops make their moves -/

theorem memsetZero_eq
    [Zero α]
    {buf : List α}
    {start count : Nat}
    (fits : start + count ≤ buf.length) :
    memsetZero buf start count =
      some (buf.take start ++ List.replicate count 0 ++ buf.drop (start + count)) := by
  have covered : (List.replicate count (0 : α)).take (buf.length - start) =
      List.replicate count 0 := by
    apply List.take_of_length_le
    rw [List.length_replicate]
    omega
  rw [memsetZero, if_pos fits, store, covered, List.length_replicate]

/-- The items behind the first ones are cleared. -/
theorem memsetZero_back
    [Zero α]
    {front back : List α}
    {start count : Nat}
    (frontLength : front.length = start)
    (backLength : back.length = count) :
    memsetZero (front ++ back) start count =
      some (front ++ List.replicate count 0) := by
  have size : (front ++ back).length = start + count := by
    rw [List.length_append, frontLength, backLength]
  rw [memsetZero_eq (Nat.le_of_eq size.symm), List.take_left' frontLength, ← size,
    List.drop_length, List.append_nil]

/-- The first items are cleared. -/
theorem memsetZero_front
    [Zero α]
    {front : List α}
    {count : Nat}
    (frontLength : front.length = count)
    (back : List α) :
    memsetZero (front ++ back) 0 count =
      some (List.replicate count 0 ++ back) := by
  have size : (front ++ back).length = count + back.length := by
    rw [List.length_append, frontLength]
  rw [memsetZero_eq (by omega), List.take_zero, List.nil_append, Nat.zero_add,
    List.drop_left' frontLength]

/-- A move that can be made is made, and the loop goes on. -/
theorem ShiftState.move_eq
    {state : ShiftState α}
    {source target : Nat}
    (next : Int)
    (sourceInside : source < state.buf.length)
    (targetInside : target < state.buf.length) :
    state.move source target next =
      .goOn
        { i := next
          buf := state.buf.set target state.buf[source]
          moves := state.moves ++ [⟨source, target⟩] } := by
  rw [ShiftState.move, List.getElem?_eq_getElem sourceInside]
  exact if_pos targetInside

/-- The loop down makes the moves down, the first one first. -/
theorem shiftDown_runLoop
    {nItems nShift start count : Nat}
    {buf moved : List α}
    {moves : List CellMove}
    (size : buf.length = nItems)
    (small : nItems < 2 ^ 32)
    (counts : start + count + nShift = nItems)
    (makes : applyMoves (movesDown nShift start count) buf = some moved) :
    runLoop (shiftDownBody nItems nShift) (count + 1) ⟨start, buf, moves⟩ =
      some (some
        ⟨(start + count : Nat), moved, moves ++ movesDown nShift start count⟩) := by
  have bound : toUnsigned 32 ((nItems : Int) - nShift) = nItems - nShift := by
    rw [← Int.ofNat_sub (by omega), toUnsigned_of_lt 32 (by omega)]
  induction count generalizing start buf moves with
  | zero =>
      rw [runLoop, shiftDownBody, toUnsigned_of_lt 32 (by omega), bound,
        if_neg (by omega)]
      cases makes
      rw [movesDown, List.append_nil]
      rfl
  | succ count inductionHypothesis =>
      have source : toUnsigned 32 ((start : Int) + nShift) = start + nShift := by
        rw [← Int.natCast_add, toUnsigned_of_lt 32 (by omega)]
      rw [movesDown, applyMoves_cons (by change start + nShift < _; omega)
        (by change start < _; omega)] at makes
      rw [runLoop, shiftDownBody, toUnsigned_of_lt 32 (by omega), bound,
        if_pos (by omega), source, Int.toNat_natCast,
        ShiftState.move_eq _ (by change start + nShift < buf.length; omega)
          (by change start < buf.length; omega)]
      have rest := @inductionHypothesis (start + 1) _ (moves ++ [⟨start + nShift, start⟩])
        (by rw [List.length_set]; exact size) (by omega) makes
      have total : start + (count + 1) = start + 1 + count := by omega
      rw [movesDown, total, List.append_cons _ _ (movesDown nShift (start + 1) count)]
      exact rest

/-- The loop up makes the moves up, the last one first. -/
theorem shiftUp_runLoop
    {nShift count : Nat}
    {buf moved : List α}
    {moves : List CellMove}
    (small : buf.length < 2 ^ 32)
    (fits : count + nShift ≤ buf.length)
    (makes : applyMoves (movesUp nShift count) buf = some moved) :
    runLoop (shiftUpBody nShift) (count + 1) ⟨(count : Int) - 1, buf, moves⟩ =
      some (some ⟨-1, moved, moves ++ movesUp nShift count⟩) := by
  induction count generalizing buf moves with
  | zero =>
      cases makes
      rw [movesUp, List.append_nil]
      rfl
  | succ count inductionHypothesis =>
      have index : ((count + 1 : Nat) : Int) - 1 = count := by omega
      have target : toUnsigned 32 ((count : Int) + nShift) = count + nShift := by
        rw [← Int.natCast_add, toUnsigned_of_lt 32 (by omega)]
      rw [movesUp, applyMoves_cons (by change count < _; omega)
        (by change count + nShift < _; omega)] at makes
      rw [index, runLoop, shiftUpBody, if_pos (by change (0 : Int) ≤ count; omega)]
      simp only [Int.toNat_natCast, target]
      rw [ShiftState.move_eq _ (by change count < buf.length; omega)
        (by change count + nShift < buf.length; omega)]
      have rest := @inductionHypothesis _ (moves ++ [⟨count, count + nShift⟩])
        (by rw [List.length_set]; exact small)
        (by rw [List.length_set]; omega) makes
      rw [movesUp, List.append_cons _ _ (movesUp nShift count)]
      exact rest


/-! ## The shifts -/

/-- The items that so many bytes hold, where an `unsigned int` holds the bytes. -/
theorem toUnsigned_bytes
    {count : Nat}
    (small : 8 * count < 2 ^ 32) :
    toUnsigned 32 ((count : Int) * 8) / 8 = count := by
  have bytes : (count : Int) * 8 = (count * 8 : Nat) := by
    push_cast
    rfl
  rw [bytes, toUnsigned_of_lt 32 (by omega), Nat.mul_div_cancel _ (by decide)]

/-- The shift down keeps the last items, and no item is overwritten before it is
moved. -/
theorem bufShiftDown64InPlace_eq
    [Zero α]
    {items : List α}
    (bytes : 8 * items.length < 2 ^ 32)
    (k : Nat) :
    ∃ fuel moves,
      bufShiftDown64InPlace fuel items (8 * items.length) k =
        some (some
          (items.drop (min k items.length) ++ List.replicate (min k items.length) 0,
            moves)) ∧
      InPlace moves items.length := by
  have count : 8 * items.length / 8 = items.length :=
    Nat.mul_div_cancel_left _ (by decide)
  unfold bufShiftDown64InPlace
  rw [count]
  dsimp only
  by_cases all : k ≥ items.length
  · refine ⟨0, [], ?_, inPlace_nil _⟩
    have cleared := memsetZero_back (List.length_nil (α := α)) (Eq.refl items.length)
    rw [List.nil_append] at cleared
    rw [if_pos all, cleared, Nat.min_eq_right all, List.drop_length]
    rfl
  · have makes := @applyMoves_movesDown _ items k (by omega)
    have ran := @shiftDown_runLoop _ items.length k 0 _ items _ [] rfl (by omega)
      (by omega) makes
    have place : toUnsigned 32 ((items.length : Int) - k) = items.length - k := by
      rw [← Int.ofNat_sub (by omega), toUnsigned_of_lt 32 (by omega)]
    have front : (items.drop k).length = items.length - k := List.length_drop
    have back : (items.drop (items.length - k)).length = k := by
      rw [List.length_drop]
      omega
    have cleared := memsetZero_back front back
    refine ⟨items.length - k + 1, movesDown k 0 (items.length - k), ?_,
      inPlace_movesDown (by omega)⟩
    rw [if_neg all, place, toUnsigned_bytes (by omega), Nat.min_eq_left (by omega)]
    change (runLoop (shiftDownBody items.length k) _ ⟨((0 : Nat) : Int), _, _⟩).bind _ = _
    rw [ran, Option.bind_some]
    change some ((memsetZero (_ ++ _) _ _).bind _) = _
    rw [cleared]
    rfl

/-- The shift up keeps the first items, and no item is overwritten before it is
moved. -/
theorem bufShiftUp64InPlace_eq
    [Zero α]
    {items : List α}
    (bytes : 8 * items.length < 2 ^ 32)
    (k : Nat) :
    ∃ fuel moves,
      bufShiftUp64InPlace fuel items (8 * items.length) k =
        some (some
          (List.replicate (min k items.length) 0 ++
              items.take (items.length - min k items.length),
            moves)) ∧
      InPlace moves items.length := by
  have count : 8 * items.length / 8 = items.length :=
    Nat.mul_div_cancel_left _ (by decide)
  unfold bufShiftUp64InPlace
  rw [count]
  dsimp only
  by_cases all : k ≥ items.length
  · refine ⟨0, [], ?_, inPlace_nil _⟩
    have cleared := memsetZero_front (Eq.refl items.length) []
    rw [List.append_nil] at cleared
    rw [if_pos all, cleared, Nat.min_eq_right all, Nat.sub_self, List.take_zero]
    rfl
  · have makes := @applyMoves_movesUp _ items k (by omega)
    have ran := @shiftUp_runLoop _ k _ items _ [] (by omega) (by omega) makes
    have first : toSigned 32 (toUnsigned 32 ((items.length : Int) - k - 1)) =
        ((items.length - k : Nat) : Int) - 1 := by
      have index : (items.length : Int) - k - 1 = (items.length - k - 1 : Nat) := by
        omega
      rw [index, toUnsigned_of_lt 32 (by omega), toSigned_of_lt 31 (by omega)]
      omega
    have front : (items.take k).length = k := List.length_take_of_le (by omega)
    have cleared := memsetZero_front front (items.take (items.length - k))
    refine ⟨items.length - k + 1, movesUp k (items.length - k), ?_,
      inPlace_movesUp (by omega)⟩
    rw [if_neg all, first, toUnsigned_bytes (by omega), Nat.min_eq_left (by omega)]
    change ((runLoop _ _ _).bind _) = _
    rw [ran, Option.bind_some]
    change some ((memsetZero (_ ++ _) _ _).bind _) = _
    rw [cleared]
    rfl

/-- Both shifts, on a buffer whose bytes an `unsigned int` counts: the items that stay
are moved in an order in which none is overwritten before it is moved, and zeros take
the place of the others. -/
theorem bufShift64_inPlace
    (items : List UInt64)
    (bytes : 8 * items.length < 2 ^ 32)
    (k : Nat) :
    (∃ fuel moves,
      bufShiftUp64InPlace fuel items (8 * items.length) k =
        some (some
          (List.replicate (min k items.length) 0 ++
              items.take (items.length - min k items.length),
            moves)) ∧
      MovedFirst moves) ∧
    ∃ fuel moves,
      bufShiftDown64InPlace fuel items (8 * items.length) k =
        some (some
          (items.drop (min k items.length) ++ List.replicate (min k items.length) 0,
            moves)) ∧
      MovedFirst moves := by
  obtain ⟨fuelUp, movesUp, up, inPlaceUp⟩ := bufShiftUp64InPlace_eq bytes k
  obtain ⟨fuelDown, movesDown, down, inPlaceDown⟩ := bufShiftDown64InPlace_eq bytes k
  exact ⟨⟨fuelUp, movesUp, up, inPlaceUp.movedFirst⟩,
    ⟨fuelDown, movesDown, down, inPlaceDown.movedFirst⟩⟩

/-- Six items shifted by two. -/
theorem bufShift64_inPlace_six :
    (∃ fuel moves,
      bufShiftUp64InPlace fuel [123, 234, 345, 456, 567, 678] 48 2 =
        some (some (([0, 0, 123, 234, 345, 456] : List UInt64), moves)) ∧
      MovedFirst moves) ∧
    ∃ fuel moves,
      bufShiftDown64InPlace fuel [123, 234, 345, 456, 567, 678] 48 2 =
        some (some (([345, 456, 567, 678, 0, 0] : List UInt64), moves)) ∧
      MovedFirst moves :=
  bufShift64_inPlace [123, 234, 345, 456, 567, 678] (by decide) 2

/-! ## The shift of the filter -/

/-- The loop without machine integers makes the same moves. -/
theorem applyMoves_shiftUpLoop
    {R : Type}
    [CommRing R]
    {nShift count : Nat}
    {buf : List R}
    (fits : count + nShift ≤ buf.length) :
    applyMoves (movesUp nShift count) buf = some (shiftUpLoop nShift count buf) := by
  induction count generalizing buf with
  | zero => rfl
  | succ count inductionHypothesis =>
      have source : count < buf.length := by omega
      have target : count + nShift < buf.length := by omega
      rw [movesUp, applyMoves_cons source target, shiftUpLoop,
        List.getD_eq_getElem?_getD, List.getElem?_eq_getElem source]
      exact inductionHypothesis (by rw [List.length_set]; omega)

/-- The shift the filter uses comes to the same as the one in place. -/
theorem bufShiftUp64_eq
    {R : Type}
    [CommRing R]
    {items : List R}
    (k : Nat) :
    bufShiftUp64 items (8 * items.length) k =
      List.replicate (min k items.length) 0 ++
        items.take (items.length - min k items.length) := by
  have count : 8 * items.length / 8 = items.length :=
    Nat.mul_div_cancel_left _ (by decide)
  unfold bufShiftUp64
  rw [count]
  dsimp only
  by_cases all : items.length ≤ k
  · rw [if_pos all, Nat.min_eq_right all, Nat.sub_self, List.take_zero,
      List.append_nil]
    exact store_of_length_eq List.length_replicate
  · have makes := @applyMoves_movesUp _ items k (by omega)
    rw [applyMoves_shiftUpLoop (by omega)] at makes
    have front : (items.take k).length = k := List.length_take_of_le (by omega)
    have cleared := memsetZero_front front (items.take (items.length - k))
    rw [memsetZero, if_pos (by rw [List.length_append, front]; omega)] at cleared
    rw [if_neg all, Nat.min_eq_left (by omega), Option.some.inj makes]
    exact Option.some.inj cleared

end Hiemal
