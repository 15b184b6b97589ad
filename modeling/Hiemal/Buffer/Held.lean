import Hiemal.Buffer.Linear
import Hiemal.Buffer.Ring
import Hiemal.Foundation.Transition

/-!
# Contents of a buffer of either type

A buffer holds a list of bytes, whatever its type and its size. Reading removes
the oldest of them, writing appends as many as the buffer reports room for. A
ring buffer without cells is a case of its own: it has no position for its
pointers, and holds nothing.
-/

namespace Hiemal

open Foundation

/-- A ring buffer without cells. -/
structure VoidRing (buf : Buffer) : Prop where
  type_eq : buf.type = .ring
  size_eq : buf.bufLenBytes = 0
  area_eq : buf.buf = []
  readPtr_eq : buf.readPtr = 0
  writePtr_eq : buf.writePtr = 0
  state_ne : buf.state ≠ .normal

/-- A buffer of the given capacity holds `items`, oldest first. -/
inductive BufferHolds (capacity : Nat) (buf : Buffer) : List UInt8 → Prop
  | ring {items : List UInt8} (holds : RingHolds capacity buf items) :
      BufferHolds capacity buf items
  | voidRing (zero : capacity = 0) (void : VoidRing buf) :
      BufferHolds capacity buf []
  | linear
      {queue : MarkedFifo UInt8 capacity}
      (holds : LinearHolds capacity buf queue) :
      BufferHolds capacity buf queue.items

/-- A buffer over no memory, in a state that is not `NORMAL`. -/
theorem voidRing_bufferInitExt
    {state : BufferState}
    (state_ne : state ≠ .normal) :
    VoidRing { bufferInitExt 0 .ring [] with state := state } where
  type_eq := rfl
  size_eq := rfl
  area_eq := rfl
  readPtr_eq := rfl
  writePtr_eq := rfl
  state_ne := state_ne

/-- A new buffer of any type over memory of its size holds nothing. -/
theorem bufferHolds_bufferInitExt
    {capacity : Nat}
    {area : List UInt8}
    (length : area.length = capacity)
    (type : BufferType) :
    BufferHolds capacity (bufferInitExt capacity type area) [] := by
  cases type with
  | ring =>
      rcases Nat.eq_zero_or_pos capacity with rfl | positive
      · obtain rfl : area = [] := List.length_eq_zero_iff.mp length
        exact .voidRing rfl (@voidRing_bufferInitExt .empty (by decide))
      · exact .ring (ringHolds_bufferInitExt positive length)
  | linear => exact .linear (linearHolds_bufferInitExt length)

/-- A ring buffer whose state is forced to `FULL` holds the memory it is over. -/
theorem bufferHolds_full
    {capacity : Nat}
    {area : List UInt8}
    (length : area.length = capacity) :
    BufferHolds capacity
      { bufferInitExt capacity .ring area with state := .full } area := by
  rcases Nat.eq_zero_or_pos capacity with rfl | positive
  · obtain rfl : area = [] := List.length_eq_zero_iff.mp length
    exact .voidRing rfl (voidRing_bufferInitExt (by decide))
  · exact .ring
      { type_eq := rfl
        size_eq := rfl
        area_length := length
        readPtr_lt := positive
        writePtr_eq := by simp [bufferInitExt, length]
        bounded := Nat.le_of_eq length
        state_eq := by
          rw [length, fillState, if_neg (by omega), if_pos rfl]
        contents := by
          show window area 0 area.length = area
          simp [window] }

/-! ## A ring buffer without cells -/

section Void

variable {buf : Buffer}

theorem VoidRing.sameData
    {other : Buffer}
    (void : VoidRing buf)
    (same : other.data = buf.data) :
    VoidRing other := by
  obtain ⟨area, size, readPtr, writePtr, type, state⟩ :=
    BufferData.mk.injEq .. ▸ same
  exact
    { type_eq := type ▸ void.type_eq
      size_eq := size ▸ void.size_eq
      area_eq := area ▸ void.area_eq
      readPtr_eq := readPtr ▸ void.readPtr_eq
      writePtr_eq := writePtr ▸ void.writePtr_eq
      state_ne := state ▸ void.state_ne }

theorem VoidRing.withMutex
    (void : VoidRing buf)
    (m : HmMutex) :
    VoidRing { buf with m := m } :=
  void.sameData rfl

theorem VoidRing.rbufNWriteBytes_eq (void : VoidRing buf) :
    rbufNWriteBytes buf = 0 := by
  have state := void.state_ne
  cases flag : buf.state with
  | normal => exact absurd flag state
  | empty => simp [rbufNWriteBytes, void.type_eq, flag, void.size_eq]
  | full => simp [rbufNWriteBytes, void.type_eq, flag]

theorem VoidRing.rbufNReadBytes_eq (void : VoidRing buf) :
    rbufNReadBytes buf = 0 := by
  simp [rbufNReadBytes, void.type_eq, void.size_eq, void.rbufNWriteBytes_eq,
    toUnsigned]

theorem VoidRing.bufferNWriteBytes_eq (void : VoidRing buf) :
    bufferNWriteBytes buf = 0 := by
  unfold bufferNWriteBytes
  rw [void.type_eq]
  exact void.rbufNWriteBytes_eq

theorem VoidRing.bufferNReadBytes_eq (void : VoidRing buf) :
    bufferNReadBytes buf = 0 := by
  unfold bufferNReadBytes
  rw [void.type_eq]
  exact void.rbufNReadBytes_eq

theorem VoidRing.rbufLinearBytesWrite_eq (void : VoidRing buf) :
    rbufLinearBytesWrite buf = 0 := by
  have state := void.state_ne
  cases flag : buf.state with
  | normal => exact absurd flag state
  | empty =>
      simp [rbufLinearBytesWrite, void.type_eq, flag, void.size_eq,
        void.writePtr_eq, toUnsigned]
  | full => simp [rbufLinearBytesWrite, void.type_eq, flag]

theorem VoidRing.rbufLinearBytesRead_eq (void : VoidRing buf) :
    rbufLinearBytesRead buf = 0 := by
  have state := void.state_ne
  cases flag : buf.state with
  | normal => exact absurd flag state
  | empty => simp [rbufLinearBytesRead, void.type_eq, flag]
  | full =>
      simp [rbufLinearBytesRead, void.type_eq, flag, void.size_eq,
        void.readPtr_eq, toUnsigned]

/-- Whatever the state flag was, a transfer of nothing ends with equal
pointers. -/
theorem VoidRing.setBufferState_eq
    (void : VoidRing buf)
    {mode : Char}
    (transfer : mode = 'r' ∨ mode = 'w') :
    Hiemal.setBufferState buf mode =
      { buf with state := if mode = 'r' then .empty else .full } := by
  have read := void.readPtr_eq
  have write := void.writePtr_eq
  obtain rfl | rfl := transfer <;>
    simp [Hiemal.setBufferState, setRbufState, void.type_eq, void.size_eq,
      read, write]

theorem VoidRing.setBufferState
    (void : VoidRing buf)
    {mode : Char}
    (transfer : mode = 'r' ∨ mode = 'w') :
    VoidRing (Hiemal.setBufferState buf mode) := by
  rw [void.setBufferState_eq transfer]
  exact
    { type_eq := void.type_eq
      size_eq := void.size_eq
      area_eq := void.area_eq
      readPtr_eq := void.readPtr_eq
      writePtr_eq := void.writePtr_eq
      state_ne := by
        show (if mode = 'r' then BufferState.empty else .full) ≠ .normal
        split <;> decide }

/-- A ring buffer without cells whose state flag is `state`. -/
def VoidRingAt (state : BufferState) (buf : Buffer) : Prop :=
  VoidRing buf ∧ buf.state = state

theorem VoidRing.rbufWriteHeld_moves
    (void : VoidRing buf)
    (src : List UInt8) :
    Moves (VoidRingAt .full) 0 none (rbufWriteHeld buf src 0) := by
  have stored :
      VoidRing
        { buf with
          buf := store buf.buf buf.writePtr (src.take 0)
          writePtr := buf.writePtr + 0 } :=
    { type_eq := void.type_eq
      size_eq := void.size_eq
      area_eq := by simp [void.area_eq]
      readPtr_eq := void.readPtr_eq
      writePtr_eq := void.writePtr_eq
      state_ne := void.state_ne }
  unfold rbufWriteHeld
  simp only [void.rbufLinearBytesWrite_eq, Nat.lt_irrefl, if_false]
  apply finishTransfer_moves
  · refine ⟨(stored.setBufferState (Or.inr rfl)).withMutex _, ?_⟩
    rw [stored.setBufferState_eq (Or.inr rfl)]
    rfl
  · simp [areaAccess, Access.InBounds, void.writePtr_eq]

theorem VoidRing.rbufReadHeld_moves
    (void : VoidRing buf)
    (dest : Option (List UInt8)) :
    Moves (VoidRingAt .empty) 0 dest (rbufReadHeld buf dest 0) := by
  have nothing : copyOut buf dest 0 buf.readPtr 0 = dest := by
    cases dest <;> simp [copyOut]
  have advanced : VoidRing { buf with readPtr := buf.readPtr + 0 } :=
    { type_eq := void.type_eq
      size_eq := void.size_eq
      area_eq := void.area_eq
      readPtr_eq := void.readPtr_eq
      writePtr_eq := void.writePtr_eq
      state_ne := void.state_ne }
  unfold rbufReadHeld
  simp only [void.rbufLinearBytesRead_eq, Nat.lt_irrefl, if_false, nothing]
  apply finishTransfer_moves
  · refine ⟨(advanced.setBufferState (Or.inl rfl)).withMutex _, ?_⟩
    rw [advanced.setBufferState_eq (Or.inl rfl)]
    rfl
  · exact copyOutAccess_inBounds dest (by rw [void.readPtr_eq]; omega)

end Void

/-! ## Counts and calls -/

section Calls

variable {capacity : Nat} {buf : Buffer} {items : List UInt8}

/-- The contents depend on the data of the buffer only. -/
theorem BufferHolds.sameData
    {other : Buffer}
    (holds : BufferHolds capacity buf items)
    (same : other.data = buf.data) :
    BufferHolds capacity other items := by
  cases holds with
  | ring holds => exact .ring (holds.sameData same)
  | voidRing zero void => exact .voidRing zero (void.sameData same)
  | linear holds => exact .linear (holds.sameData same)

/-- A new buffer of any type and size holds nothing. -/
theorem bufferHolds_bufferInit (capacity : Nat) (type : BufferType) :
    BufferHolds capacity (bufferInit capacity type) [] :=
  (bufferHolds_bufferInitExt List.length_replicate type).sameData rfl

/-- The readable count is the number of bytes held. -/
theorem BufferHolds.bufferNReadBytes_eq
    (holds : BufferHolds capacity buf items)
    (capacityBound : capacity < 2 ^ 32) :
    bufferNReadBytes buf = items.length := by
  cases holds with
  | ring holds =>
      unfold bufferNReadBytes
      rw [holds.type_eq]
      exact rbufNReadBytes_eq holds capacityBound
  | voidRing zero void => exact void.bufferNReadBytes_eq
  | linear holds =>
      unfold bufferNReadBytes
      rw [holds.type_eq]
      exact lbufNReadBytes_eq holds capacityBound

/-- A buffer holds at most its capacity. -/
theorem BufferHolds.length_le (holds : BufferHolds capacity buf items) :
    items.length ≤ capacity := by
  cases holds with
  | ring holds => exact holds.bounded
  | voidRing zero void => exact Nat.zero_le capacity
  | linear holds =>
      rename_i queue
      exact Nat.le_trans queue.items_le_mark queue.mark_le_capacity

/-- The number of bytes a call transfers. -/
def BufferIo.count (buf : Buffer) : BufferIo → Nat
  | .write _ nBytes => min nBytes (bufferNWriteBytes buf)
  | .read _ nBytes => min nBytes (bufferNReadBytes buf)
  | .reset => 0

/-- The caller's block after a call on a buffer that holds `items`. -/
def BufferIo.destAfter (items : List UInt8) :
    BufferIo → Option (List UInt8)
  | .write _ _ => none
  | .read dest nBytes => delivered dest (items.take nBytes)
  | .reset => none

/-- What a buffer that held `items` holds after a call. -/
def BufferIo.itemsAfter (buf : Buffer) (items : List UInt8) :
    BufferIo → List UInt8
  | .write src nBytes =>
      items ++ src.take (min nBytes (bufferNWriteBytes buf))
  | .read _ nBytes => items.drop nBytes
  | .reset => []

/-- The state flag of a ring buffer without cells after a call: nothing is
transferred, yet a write marks the buffer full and a read marks it empty. -/
def BufferIo.voidState (state : BufferState) : BufferIo → BufferState
  | .write _ nBytes => if nBytes = 0 then state else .full
  | .read _ nBytes => if nBytes = 0 then state else .empty
  | .reset => .empty

/-- A call on a ring buffer without cells returns and transfers nothing. -/
theorem BufferIo.call_voidRing
    (void : VoidRing buf)
    (free : buf.m.locked = false)
    (io : BufferIo) :
    ∃ call, io.call buf = some call ∧
      Moves (VoidRingAt (io.voidState buf.state)) 0 (io.destAfter []) call := by
  have held := void.withMutex { locked := true }
  cases io with
  | write src nBytes =>
      have clamp : prepareBufWrite { buf with m := { locked := true } } nBytes =
          0 := by
        rw [prepareBufWrite_eq, held.bufferNWriteBytes_eq, Nat.min_zero]
      obtain ⟨call, returns, moves⟩ :
          ∃ call, rbufWrite buf src nBytes = some call ∧
            Moves (VoidRingAt (voidState buf.state (.write src nBytes))) 0 none
              call := by
        apply lockedTransfer_moves void.type_eq free
        · intro none
          exact ⟨⟨void, (if_pos none).symm⟩, rfl, rfl⟩
        · intro some
          rw [clamp, voidState, if_neg some]
          exact held.rbufWriteHeld_moves src
      refine ⟨signalWrite (recordWrite buf src nBytes) call, ?_,
        signalWrite_moves moves (by simp)⟩
      simp only [BufferIo.call, bufferWrite, void.type_eq, returns,
        Option.map_some]
  | read dest nBytes =>
      have clamp : prepareBufRead { buf with m := { locked := true } } nBytes =
          0 := by
        rw [prepareBufRead_eq, held.bufferNReadBytes_eq, Nat.min_zero]
      obtain ⟨call, returns, moves⟩ :
          ∃ call, rbufRead buf dest nBytes = some call ∧
            Moves (VoidRingAt (voidState buf.state (.read dest nBytes))) 0 dest
              call := by
        apply lockedTransfer_moves void.type_eq free
        · intro none
          exact ⟨⟨void, (if_pos none).symm⟩, rfl, rfl⟩
        · intro some
          rw [clamp, voidState, if_neg some]
          exact held.rbufReadHeld_moves dest
      refine ⟨call, ?_, ?_⟩
      · simp only [BufferIo.call, bufferRead, void.type_eq, returns]
      · simpa [BufferIo.destAfter] using moves
  | reset =>
      refine ⟨_, rfl, ?_⟩
      exact
        { after :=
            ⟨{ type_eq := void.type_eq
               size_eq := void.size_eq
               area_eq := void.area_eq
               readPtr_eq := rfl
               writePtr_eq := rfl
               state_ne := by simp [returnEarly, bufferReset] },
              rfl⟩
          free := free
          rc_eq := (toSigned_zero 32).symm
          dest_eq := rfl
          inBounds := by simp [BufferCall.accesses, returnEarly] }

/-- A call on a buffer whose mutex is free returns: a write appends what there
is room for, a read removes and delivers the oldest bytes, a reset discards
everything. -/
theorem BufferHolds.call
    (holds : BufferHolds capacity buf items)
    (capacityBound : capacity < 2 ^ 32)
    (free : buf.m.locked = false)
    (io : BufferIo)
    (supplied : io.Supplied) :
    ∃ call, io.call buf = some call ∧
      Moves (BufferHolds capacity · (io.itemsAfter buf items)) (io.count buf)
        (io.destAfter items) call := by
  have readable := holds.bufferNReadBytes_eq capacityBound
  cases holds with
  | ring holds =>
      have writable : bufferNWriteBytes buf = capacity - items.length := by
        unfold bufferNWriteBytes
        rw [holds.type_eq]
        exact rbufNWriteBytes_eq holds capacityBound
      let queue : BoundedFifo UInt8 capacity := ⟨items, holds.bounded⟩
      obtain ⟨call, returns, moves⟩ :=
        BufferIo.call_ring capacityBound queue holds free io supplied
      cases io with
      | write src nBytes =>
          refine ⟨call, returns, ?_⟩
          simp only [BufferIo.itemsAfter, BufferIo.count, writable]
          rw [Nat.min_comm, ← List.take_take, Nat.min_comm]
          exact moves.mono .ring
      | read dest nBytes =>
          refine ⟨call, returns, ?_⟩
          simp only [BufferIo.count, readable]
          exact moves.mono .ring
      | reset => exact ⟨call, returns, moves.mono .ring⟩
  | voidRing zero void =>
      obtain ⟨call, returns, moves⟩ := BufferIo.call_voidRing void free io
      have noRoom := void.bufferNWriteBytes_eq
      have nothing : io.count buf = 0 ∧ io.itemsAfter buf [] = [] := by
        cases io <;>
          simp [BufferIo.count, BufferIo.itemsAfter, noRoom, readable]
      rw [nothing.1, nothing.2]
      exact ⟨call, returns, moves.mono fun after => .voidRing zero after.1⟩
  | linear holds =>
      rename_i queue
      have writable : bufferNWriteBytes buf = queue.room := by
        unfold bufferNWriteBytes
        rw [holds.type_eq]
        exact lbufNWriteBytes_eq holds capacityBound
      obtain ⟨call, returns, moves⟩ :=
        BufferIo.call_linear capacityBound queue holds free io supplied
      refine ⟨call, returns, ?_⟩
      cases io with
      | write src nBytes =>
          have written : (queue.write (src.take nBytes)).items =
              queue.items ++ src.take (min nBytes queue.room) := by
            rw [MarkedFifo.items_write, List.take_take, Nat.min_comm]
          simp only [BufferIo.itemsAfter, BufferIo.count, writable]
          rw [← written]
          exact moves.mono .linear
      | read dest nBytes =>
          simp only [BufferIo.count, readable]
          exact moves.mono .linear
      | reset => exact moves.mono .linear

/-- A read that fills a block delivers the oldest bytes at its beginning. -/
theorem BufferHolds.bufferRead_block
    (holds : BufferHolds capacity buf items)
    (capacityBound : capacity < 2 ^ 32)
    (free : buf.m.locked = false)
    {block : List UInt8}
    {nBytes : Nat}
    (length : block.length = nBytes) :
    ∃ call,
      bufferRead buf (some block) nBytes = some call ∧
        Moves (BufferHolds capacity · (items.drop nBytes))
          (items.take nBytes).length
          (some (store block 0 (items.take nBytes))) call := by
  obtain ⟨call, returns, moves⟩ :=
    holds.call capacityBound free (.read (some block) nBytes) (by
      rintro other ⟨⟩
      exact Nat.le_of_eq length.symm)
  have count : BufferIo.count buf (.read (some block) nBytes) =
      (items.take nBytes).length := by
    rw [BufferIo.count, holds.bufferNReadBytes_eq capacityBound,
      List.length_take]
  rw [count] at moves
  exact ⟨call, returns, moves⟩

/-- A buffer holds one list of bytes only: reading all of them delivers it. -/
theorem BufferHolds.unique
    (holds : BufferHolds capacity buf items)
    {others : List UInt8}
    (holdsOthers : BufferHolds capacity buf others)
    (capacityBound : capacity < 2 ^ 32)
    (free : buf.m.locked = false) :
    items = others := by
  have lengths : others.length = items.length := by
    rw [← holdsOthers.bufferNReadBytes_eq capacityBound,
      holds.bufferNReadBytes_eq capacityBound]
  obtain ⟨call, returns, moves⟩ :=
    holds.bufferRead_block capacityBound free (@rfl _ items.length)
  obtain ⟨other, otherReturns, otherMoves⟩ :=
    holdsOthers.bufferRead_block capacityBound free (@rfl _ items.length)
  obtain rfl : call = other :=
    Option.some.inj (returns.symm.trans otherReturns)
  have same := moves.dest_eq.symm.trans otherMoves.dest_eq
  rw [List.take_length, ← lengths, List.take_length,
    store_of_length_eq rfl, store_of_length_eq lengths,
    Option.some.injEq] at same
  exact same

/-- A buffer of the given capacity between two calls: it holds something and its
mutex is free. -/
structure BufferIdle (capacity : Nat) (buf : Buffer) : Prop where
  holds : ∃ items, BufferHolds capacity buf items
  free : buf.m.locked = false

theorem bufferIdle_bufferInit (capacity : Nat) (type : BufferType) :
    BufferIdle capacity (bufferInit capacity type) where
  holds := ⟨[], bufferHolds_bufferInit capacity type⟩
  free := rfl

/-- A call leaves the buffer ready for the next one. -/
theorem BufferIdle.step
    (idle : BufferIdle capacity buf)
    (capacityBound : capacity < 2 ^ 32)
    {io : BufferIo}
    (supplied : io.Supplied)
    {next : Buffer}
    {call : BufferCall}
    (stepped : bufferStep buf io = some (next, call)) :
    BufferIdle capacity next ∧ next.setup = buf.setup := by
  obtain ⟨items, holds⟩ := idle.holds
  obtain ⟨served, returns, moves⟩ :=
    holds.call capacityBound idle.free io supplied
  simp only [bufferStep, returns, Option.map_some, Option.some.injEq,
    Prod.mk.injEq] at stepped
  obtain ⟨rfl, rfl⟩ := stepped
  exact ⟨⟨⟨_, moves.after⟩, moves.free⟩, BufferIo.call_setup returns⟩

/-- So does every run of calls. -/
theorem BufferIdle.run
    (idle : BufferIdle capacity buf)
    (capacityBound : capacity < 2 ^ 32)
    {ios : List BufferIo}
    (supplied : ∀ io ∈ ios, io.Supplied)
    {final : Buffer}
    {calls : List BufferCall}
    (ran : runSteps bufferStep buf ios = some (final, calls)) :
    BufferIdle capacity final ∧ final.setup = buf.setup := by
  have preserves (state : Buffer) (io : BufferIo) (next : Buffer)
      (call : BufferCall)
      (invariant : BufferIdle capacity state ∧ state.setup = buf.setup)
      (supplied : io.Supplied)
      (stepped : bufferStep state io = some (next, call)) :
      BufferIdle capacity next ∧ next.setup = buf.setup := by
    obtain ⟨nextIdle, nextSetup⟩ :=
      invariant.1.step capacityBound supplied stepped
    exact ⟨nextIdle, nextSetup.trans invariant.2⟩
  exact runSteps_invariant preserves ⟨idle, rfl⟩ supplied ran

end Calls

end Hiemal
