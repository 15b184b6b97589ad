import Hiemal.Buffer.Outcome
import Hiemal.Foundation.Fifo
import Hiemal.Foundation.Transition

/-!
# The linear buffer is a queue with a high-water mark

A linear buffer holds the bytes between its read pointer and its write pointer.
The write pointer is the high-water mark of the abstract queue: it only moves
forward, until a transfer leaves the two pointers equal and both return to the
beginning of the area.
-/

namespace Hiemal

open Foundation

/-- The state flag of a linear buffer that holds `length` bytes below `mark`. -/
def markedState (capacity mark length : Nat) : BufferState :=
  if length = 0 then .empty
  else if mark = capacity then .full
  else .normal

/-- A linear buffer of the given capacity represents a queue. -/
structure LinearHolds
    (capacity : Nat)
    (buf : Buffer)
    (queue : MarkedFifo UInt8 capacity) : Prop where
  type_eq : buf.type = .linear
  size_eq : buf.bufLenBytes = capacity
  area_length : buf.buf.length = capacity
  writePtr_eq : buf.writePtr = queue.mark
  readPtr_eq : buf.readPtr + queue.items.length = queue.mark
  state_eq :
    buf.state = markedState capacity queue.mark queue.items.length
  contents : load buf.buf buf.readPtr queue.items.length = queue.items

/-- The contents depend on the data of the buffer only. -/
theorem LinearHolds.sameData
    {capacity : Nat}
    {buf other : Buffer}
    {queue : MarkedFifo UInt8 capacity}
    (holds : LinearHolds capacity buf queue)
    (same : other.data = buf.data) :
    LinearHolds capacity other queue := by
  obtain ⟨area, size, readPtr, writePtr, type, state⟩ :=
    BufferData.mk.injEq .. ▸ same
  exact
    { type_eq := type ▸ holds.type_eq
      size_eq := size ▸ holds.size_eq
      area_length := area ▸ holds.area_length
      writePtr_eq := writePtr ▸ holds.writePtr_eq
      readPtr_eq := readPtr ▸ holds.readPtr_eq
      state_eq := state ▸ holds.state_eq
      contents := area ▸ readPtr ▸ holds.contents }

/-- Taking or releasing the mutex does not touch the contents. -/
theorem LinearHolds.withMutex
    {capacity : Nat}
    {buf : Buffer}
    {queue : MarkedFifo UInt8 capacity}
    (holds : LinearHolds capacity buf queue)
    (m : HmMutex) :
    LinearHolds capacity { buf with m := m } queue :=
  holds.sameData rfl

/-- A new linear buffer over memory of its size represents the empty queue. -/
theorem linearHolds_bufferInitExt
    {capacity : Nat}
    {area : List UInt8}
    (length : area.length = capacity) :
    LinearHolds capacity (bufferInitExt capacity .linear area) .empty where
  type_eq := rfl
  size_eq := rfl
  area_length := length
  writePtr_eq := rfl
  readPtr_eq := rfl
  state_eq := rfl
  contents := by simp

theorem linearHolds_bufferInit (capacity : Nat) :
    LinearHolds capacity (bufferInit capacity .linear) .empty :=
  (linearHolds_bufferInitExt List.length_replicate).sameData rfl

/-- A linear buffer that was reset represents the empty queue. -/
theorem linearHolds_bufferReset
    {capacity : Nat}
    {buf : Buffer}
    {queue : MarkedFifo UInt8 capacity}
    (type_eq : buf.type = .linear)
    (size_eq : buf.bufLenBytes = capacity)
    (area_length : buf.buf.length = capacity)
    (drained : queue.items = []) :
    LinearHolds capacity (bufferReset buf) queue where
  type_eq := type_eq
  size_eq := size_eq
  area_length := area_length
  writePtr_eq := (queue.mark_of_drained drained).symm
  readPtr_eq := by
    rw [queue.mark_of_drained drained, drained]
    rfl
  state_eq := by
    rw [drained]
    rfl
  contents := by simp [drained]

/-! ## Byte counts -/

section Counts

variable {capacity nBytes : Nat} {buf : Buffer}
variable {queue : MarkedFifo UInt8 capacity}
variable (holds : LinearHolds capacity buf queue)
variable (capacityBound : capacity < 2 ^ 32)

include holds capacityBound

theorem lbufNWriteBytes_eq : lbufNWriteBytes buf = queue.room := by
  have inside := queue.mark_le_capacity
  have difference :
      (capacity : Int) - buf.writePtr = ((capacity - queue.mark : Nat) : Int) := by
    rw [holds.writePtr_eq]
    omega
  simp only [lbufNWriteBytes, holds.type_eq, holds.size_eq, difference, ne_eq,
    not_true_eq_false, if_false]
  exact toUnsigned_of_lt 32 (by omega)

theorem lbufNReadBytes_eq : lbufNReadBytes buf = queue.items.length := by
  have inside := queue.mark_le_capacity
  have position := holds.readPtr_eq
  have difference :
      (buf.writePtr : Int) - buf.readPtr = (queue.items.length : Int) := by
    rw [holds.writePtr_eq]
    omega
  simp only [lbufNReadBytes, holds.type_eq, difference, ne_eq,
    not_true_eq_false, if_false]
  exact toUnsigned_of_lt 32 (by omega)

theorem prepareBufWrite_linear :
    prepareBufWrite buf nBytes = min nBytes queue.room := by
  rw [prepareBufWrite_eq, bufferNWriteBytes, holds.type_eq]
  simp only [lbufNWriteBytes_eq holds capacityBound]

theorem prepareBufRead_linear :
    prepareBufRead buf nBytes = min nBytes queue.items.length := by
  rw [prepareBufRead_eq, bufferNReadBytes, holds.type_eq]
  simp only [lbufNReadBytes_eq holds capacityBound]

end Counts

/-! ## State updates -/

/-- Ending a transfer with the pointers of `queue` in place represents `queue`:
equal pointers return to the beginning. -/
theorem linearHolds_setBufferState
    {capacity : Nat}
    {buf : Buffer}
    {queue : MarkedFifo UInt8 capacity}
    (type_eq : buf.type = .linear)
    (size_eq : buf.bufLenBytes = capacity)
    (area_length : buf.buf.length = capacity)
    (distance : buf.readPtr + queue.items.length = buf.writePtr)
    (marked : queue.items ≠ [] → buf.writePtr = queue.mark)
    (contents : load buf.buf buf.readPtr queue.items.length = queue.items) :
    LinearHolds capacity (setBufferState buf '-') queue := by
  by_cases drained : queue.items = []
  · have equal : buf.readPtr = buf.writePtr := by
      simpa [drained] using distance
    have returned : setBufferState buf '-' = bufferReset buf := by
      simp only [setBufferState, setLbufState, type_eq, equal, ne_eq,
        not_true_eq_false, if_true, if_false]
    rw [returned]
    exact linearHolds_bufferReset type_eq size_eq area_length drained
  · have lengthPositive : 0 < queue.items.length :=
      List.length_pos_iff.mpr drained
    have pointer := marked drained
    have different : buf.readPtr ≠ queue.mark := by omega
    have kept :
        setBufferState buf '-' =
          { buf with
            state := markedState capacity queue.mark queue.items.length } := by
      simp only [setBufferState, setLbufState, type_eq, size_eq, pointer,
        different, markedState, Nat.ne_of_gt lengthPositive, ne_eq,
        not_true_eq_false, if_false]
      split <;> rfl
    rw [kept]
    exact
      { type_eq := type_eq
        size_eq := size_eq
        area_length := area_length
        writePtr_eq := marked drained
        readPtr_eq := by rw [← marked drained]; exact distance
        state_eq := rfl
        contents := contents }

/-! ## Transfers -/

section Transfers

variable {capacity nBytes : Nat} {buf : Buffer}
variable {queue : MarkedFifo UInt8 capacity}
variable (holds : LinearHolds capacity buf queue)
variable (capacityBound : capacity < 2 ^ 32)

include holds capacityBound

omit capacityBound in
/-- With the mutex held, writing bytes into unused cells appends them. -/
theorem lbufWriteHeld_moves
    {src : List UInt8}
    {count : Nat}
    (supplied : count ≤ src.length)
    (room : count ≤ queue.room) :
    Moves (LinearHolds capacity · (queue.write (src.take count))) count none
      (lbufWriteHeld buf src count) := by
  have inside := queue.mark_le_capacity
  have position := holds.readPtr_eq
  have pointer := holds.writePtr_eq
  have dataLength : (src.take count).length = count :=
    List.length_take_of_le supplied
  have accepted : (src.take count).take queue.room = src.take count :=
    List.take_of_length_le (by omega)
  have fits : queue.mark + count ≤ capacity := by
    unfold MarkedFifo.room at room
    omega
  have written : (queue.write (src.take count)).items =
      queue.items ++ src.take count := by
    rw [MarkedFifo.items_write, accepted]
  refine finishTransfer_moves (LinearHolds.withMutex ?_ _) ?_
  · refine linearHolds_setBufferState holds.type_eq holds.size_eq ?_ ?_ ?_ ?_
    · simpa using holds.area_length
    · rw [written, List.length_append, dataLength]
      show buf.readPtr + (queue.items.length + count) = buf.writePtr + count
      omega
    · intro _
      rw [MarkedFifo.mark_write, accepted, dataLength]
      show buf.writePtr + count = queue.mark + count
      omega
    · have end_eq : buf.writePtr = buf.readPtr + queue.items.length := by
        omega
      rw [written, List.length_append, ← load_append_load]
      show load (store buf.buf buf.writePtr (src.take count)) buf.readPtr
            queue.items.length ++
          load (store buf.buf buf.writePtr (src.take count))
            (buf.readPtr + queue.items.length) (src.take count).length =
        queue.items ++ src.take count
      rw [load_store_before (by omega), holds.contents, ← end_eq,
        load_store_same (by rw [holds.area_length, dataLength]; omega)]
  · simp only [areaAccess, accessesOf_cons_access, accessesOf_nil,
      List.mem_singleton, forall_eq, Access.InBounds, holds.size_eq]
    omega

/-- A write to a linear buffer appends the bytes there are unused cells for. -/
theorem lbufWrite_moves
    (free : buf.m.locked = false)
    {src : List UInt8}
    (supplied : nBytes ≤ src.length) :
    ∃ call, lbufWrite buf src nBytes = some call ∧
      Moves (LinearHolds capacity · (queue.write (src.take nBytes)))
        (min nBytes queue.room) none call := by
  apply lockedTransfer_moves holds.type_eq free
  · intro none
    subst none
    exact ⟨by simpa using holds, Nat.zero_min _, rfl⟩
  · intro _
    have held := holds.withMutex { locked := true }
    rw [prepareBufWrite_linear held capacityBound, Nat.min_comm,
      ← queue.write_take_room, List.take_take]
    exact lbufWriteHeld_moves held (by omega) (by omega)

omit capacityBound in
/-- With the mutex held, reading bytes that are there removes and delivers
them. -/
theorem lbufReadHeld_moves
    {dest : Option (List UInt8)}
    {count : Nat}
    (available : count ≤ queue.items.length) :
    Moves (LinearHolds capacity · (queue.read count)) count
      (delivered dest (queue.items.take count))
      (lbufReadHeld buf dest count) := by
  have inside := queue.mark_le_capacity
  have position := holds.readPtr_eq
  have pointer := holds.writePtr_eq
  have copied :
      copyOut buf dest 0 buf.readPtr count =
        delivered dest (queue.items.take count) := by
    rw [← holds.contents, take_load available]
    rfl
  unfold lbufReadHeld
  rw [copied]
  refine finishTransfer_moves (LinearHolds.withMutex ?_ _) ?_
  · refine linearHolds_setBufferState holds.type_eq holds.size_eq
      holds.area_length ?distance ?marked ?contents
    case distance =>
      rw [MarkedFifo.items_read, List.length_drop]
      show buf.readPtr + count + (queue.items.length - count) = buf.writePtr
      omega
    case marked =>
      intro remaining
      rw [MarkedFifo.items_read, Ne, List.drop_eq_nil_iff] at remaining
      rw [MarkedFifo.mark_read, if_neg remaining]
      exact pointer
    case contents =>
      rw [MarkedFifo.items_read, List.length_drop]
      show load buf.buf (buf.readPtr + count) (queue.items.length - count) =
        queue.items.drop count
      rw [← drop_load, holds.contents]
  · exact copyOutAccess_inBounds dest (by rw [holds.size_eq]; omega)

/-- A read from a linear buffer removes and delivers the oldest bytes. -/
theorem lbufRead_moves
    (free : buf.m.locked = false)
    (dest : Option (List UInt8)) :
    ∃ call, lbufRead buf dest nBytes = some call ∧
      Moves (LinearHolds capacity · (queue.read nBytes))
        (min nBytes queue.items.length)
        (delivered dest (queue.items.take nBytes)) call := by
  apply lockedTransfer_moves holds.type_eq free
  · intro none
    subst none
    exact ⟨by simpa using holds, Nat.zero_min _, by simp⟩
  · intro _
    have held := holds.withMutex { locked := true }
    rw [prepareBufRead_linear held capacityBound, ← queue.read_min_length,
      @List.take_eq_take_min _ queue.items]
    exact lbufReadHeld_moves held (by omega)

end Transfers

/-! ## Refinement of the queue with a high-water mark -/

/-- The purpose of a linear buffer: calls act on a queue whose cells are used
once between two drains. -/
def Foundation.MarkedFifo.serve
    {capacity : Nat}
    (queue : MarkedFifo UInt8 capacity) :
    BufferIo → QueueReply (MarkedFifo UInt8 capacity)
  | .write src nBytes =>
      { count := min nBytes queue.room
        dest := none
        after := queue.write (src.take nBytes) }
  | .read dest nBytes =>
      { count := min nBytes queue.items.length
        dest := delivered dest (queue.items.take nBytes)
        after := queue.read nBytes }
  | .reset => { count := 0, dest := none, after := .empty }

/-- A call on a linear buffer of the given capacity agrees with the reply of
the queue: the returned count, the delivered bytes, both counters, the state
flag, and all ranges inside the raw area. -/
structure LinearServes
    (capacity : Nat)
    (call : BufferCall)
    (reply : QueueReply (MarkedFifo UInt8 capacity)) : Prop where
  rc_eq : call.rc = reply.count
  dest_eq : call.dest = reply.dest
  readable : bufferNReadBytes call.buf = reply.after.items.length
  writable : bufferNWriteBytes call.buf = capacity - reply.after.mark
  empty_iff : call.buf.state = .empty ↔ reply.after.items = []
  full_iff :
    call.buf.state = .full ↔
      reply.after.mark = capacity ∧ reply.after.items ≠ []
  area_length : call.buf.buf.length = capacity
  size_eq : call.buf.bufLenBytes = capacity
  inBounds : ∀ range ∈ call.accesses, range.InBounds

/-- The state flag tells whether the queue is drained, and otherwise whether
its cells are used up. -/
theorem LinearHolds.state_iff
    {capacity : Nat}
    {buf : Buffer}
    {queue : MarkedFifo UInt8 capacity}
    (holds : LinearHolds capacity buf queue) :
    (buf.state = .empty ↔ queue.items = []) ∧
      (buf.state = .full ↔ queue.mark = capacity ∧ queue.items ≠ []) := by
  rw [holds.state_eq, markedState]
  by_cases drained : queue.items = []
  · simp [drained]
  · by_cases full : queue.mark = capacity <;> simp [drained, full]

/-- A transfer that leaves the linear buffer representing the queue agrees with
the queue. -/
theorem Transfers.linearServes
    {capacity : Nat}
    {reply : QueueReply (MarkedFifo UInt8 capacity)}
    {call : BufferCall}
    (capacityBound : capacity < 2 ^ 31)
    (transfers :
      Transfers (LinearHolds capacity · reply.after) reply.count reply.dest
        call) :
    LinearServes capacity call reply where
  rc_eq := transfers.rc_eq
  dest_eq := transfers.dest_eq
  readable := by
    unfold bufferNReadBytes
    rw [transfers.after.type_eq]
    exact lbufNReadBytes_eq transfers.after (by omega)
  writable := by
    unfold bufferNWriteBytes
    rw [transfers.after.type_eq]
    exact lbufNWriteBytes_eq transfers.after (by omega)
  empty_iff := transfers.after.state_iff.1
  full_iff := transfers.after.state_iff.2
  area_length := transfers.after.area_length
  size_eq := transfers.after.size_eq
  inBounds := transfers.inBounds

/-- One call on a linear buffer whose mutex is free returns and acts on the
contents as on a queue with a high-water mark. -/
theorem BufferIo.call_linear
    {capacity : Nat}
    {buf : Buffer}
    (capacityBound : capacity < 2 ^ 32)
    (queue : MarkedFifo UInt8 capacity)
    (holds : LinearHolds capacity buf queue)
    (free : buf.m.locked = false)
    (io : BufferIo)
    (supplied : io.Supplied) :
    ∃ call, io.call buf = some call ∧
      Moves (LinearHolds capacity · (queue.serve io).after)
        (queue.serve io).count (queue.serve io).dest call := by
  cases io with
  | write src nBytes =>
      obtain ⟨call, returns, moves⟩ :=
        lbufWrite_moves holds capacityBound free supplied
      refine ⟨signalWrite (recordWrite buf src nBytes) call, ?_,
        signalWrite_moves moves (by simp)⟩
      simp only [BufferIo.call, bufferWrite, holds.type_eq, returns,
        Option.map_some]
  | read dest nBytes =>
      obtain ⟨call, returns, moves⟩ :=
        lbufRead_moves holds capacityBound free dest
      refine ⟨call, ?_, moves⟩
      simp only [BufferIo.call, bufferRead, holds.type_eq, returns]
  | reset =>
      exact ⟨_, rfl,
        { after :=
            linearHolds_bufferReset holds.type_eq holds.size_eq
              holds.area_length rfl
          free := free
          rc_eq := (toSigned_zero 32).symm
          dest_eq := rfl
          inBounds := by simp [BufferCall.accesses, returnEarly] }⟩

/-- A call transfers no more bytes than the queue has cells. -/
theorem Foundation.MarkedFifo.serve_count_le
    {capacity : Nat}
    (queue : MarkedFifo UInt8 capacity)
    (io : BufferIo) :
    (queue.serve io).count ≤ capacity := by
  have inside := queue.mark_le_capacity
  have length := queue.items_le_mark
  cases io with
  | write src nBytes => exact (Nat.min_le_right _ _).trans (Nat.sub_le _ _)
  | read dest nBytes =>
      exact (Nat.min_le_right _ _).trans (length.trans inside)
  | reset => exact Nat.zero_le _

/-- Step lemma of the refinement. -/
theorem bufferStep_linear
    {capacity : Nat}
    (capacityBound : capacity < 2 ^ 31)
    (buf : Buffer)
    (queue : MarkedFifo UInt8 capacity)
    (io : BufferIo)
    (related : LinearHolds capacity buf queue ∧ buf.m.locked = false)
    (supplied : io.Supplied) :
    ∃ next call, bufferStep buf io = some (next, call) ∧
      (LinearHolds capacity next
          (QueueReply.step MarkedFifo.serve queue io).1 ∧
        next.m.locked = false) ∧
      LinearServes capacity call
        (QueueReply.step MarkedFifo.serve queue io).2 := by
  obtain ⟨call, returns, moves⟩ :=
    BufferIo.call_linear (by omega) queue related.1 related.2 io supplied
  have transfers := moves.transfers
    (Nat.lt_of_le_of_lt (queue.serve_count_le io) capacityBound)
  exact ⟨call.buf, call, by simp [bufferStep, returns],
    ⟨transfers.after, transfers.free⟩, transfers.linearServes capacityBound⟩

/-- Every sequence of calls on a new linear buffer is served as by a queue of
the same capacity with a high-water mark. -/
theorem linearBuffer_refines_markedFifo
    (capacity : Nat)
    (capacityBound : capacity < 2 ^ 31)
    (ios : List BufferIo)
    (supplied : ∀ io ∈ ios, io.Supplied) :
    ∃ final calls,
      runSteps bufferStep (bufferInit capacity .linear) ios =
          some (final, calls) ∧
        List.Forall₂ (LinearServes capacity) calls
          (runTotal (QueueReply.step MarkedFifo.serve)
            (MarkedFifo.empty : MarkedFifo UInt8 capacity) ios).2 := by
  obtain ⟨final, calls, ran, _, serves⟩ :=
    runSteps_simulates (bufferStep_linear capacityBound) ios
      (bufferInit capacity .linear) MarkedFifo.empty
      ⟨linearHolds_bufferInit capacity, rfl⟩ supplied
  exact ⟨final, calls, ran, serves⟩

/-- The refinement on a buffer of four bytes: it is filled, read in part, found
full although two bytes are free, drained, and written again. -/
theorem linearBuffer_refines_markedFifo_four :
    ∃ final calls,
      runSteps bufferStep (bufferInit 4 .linear)
          [.write [1, 2, 3, 4, 5] 5, .read (some [0, 0]) 2, .write [6] 1,
            .read none 9, .write [7, 8, 9] 3] =
          some (final, calls) ∧
        List.Forall₂ (LinearServes 4) calls
          (runTotal (QueueReply.step MarkedFifo.serve)
            (MarkedFifo.empty : MarkedFifo UInt8 4)
            [.write [1, 2, 3, 4, 5] 5, .read (some [0, 0]) 2, .write [6] 1,
              .read none 9, .write [7, 8, 9] 3]).2 :=
  linearBuffer_refines_markedFifo 4 (by decide) _ (by
    simp [BufferIo.Supplied])

end Hiemal
