import Hiemal.Buffer.Lock
import Hiemal.Buffer.Room
import Hiemal.Buffer.View
import Hiemal.Foundation.Tape

/-!
# A linear buffer keeps what was read

Up to its write pointer, the raw area of a linear buffer holds everything written
since both pointers were last at its beginning, also the bytes that have been read.
A view sees them, since it copies from the beginning of the area.
-/

namespace Hiemal

open Foundation

/-- A linear buffer of the given capacity represents a tape. -/
structure TapeHolds
    (capacity : Nat)
    (buf : Buffer)
    (tape : Tape UInt8 capacity) : Prop where
  holds : LinearHolds capacity buf tape.marked
  area : load buf.buf 0 tape.written.length = tape.written

section Area

variable {buf : Buffer} {call : BufferCall}

/-- Only a write changes the raw area. -/
theorem bufferRead_area
    {dest : Option (List UInt8)}
    {nBytes : Nat}
    (linear : buf.type = .linear)
    (returns : bufferRead buf dest nBytes = some call) :
    call.buf.buf = buf.buf := by
  simp only [bufferRead, linear, lbufRead, lockedTransfer, threadMutexLock]
    at returns
  split_ifs at returns
  · cases returns
    rfl
  · cases returns
    rfl
  · cases returns
  · cases returns
    exact setBufferState_buf _ _

/-- A write stores what it accepts from the write pointer on. -/
theorem bufferWrite_area
    {src : List UInt8}
    {nBytes : Nat}
    (linear : buf.type = .linear)
    (returns : bufferWrite buf src nBytes = some call) :
    call.buf.buf =
      store buf.buf buf.writePtr
        (src.take (min nBytes (bufferNWriteBytes buf))) := by
  simp only [bufferWrite, linear, Option.map_eq_some_iff] at returns
  obtain ⟨written, writtenReturns, rfl⟩ := returns
  rw [signalWrite_buf]
  simp only [lbufWrite, lockedTransfer, threadMutexLock] at writtenReturns
  split_ifs at writtenReturns with other none held
  · exact absurd linear other
  · cases writtenReturns
    rw [none, Nat.zero_min, List.take_zero, store_nil]
    rfl
  · cases writtenReturns
  · cases writtenReturns
    have clamp :
        prepareBufWrite { buf with m := { locked := true } } nBytes =
          min nBytes (bufferNWriteBytes buf) :=
      prepareBufWrite_eq _ nBytes
    rw [← clamp]
    exact setBufferState_buf _ _

end Area

section Tape

variable {capacity : Nat} {buf : Buffer} {tape : Tape UInt8 capacity}

theorem TapeHolds.sameData
    {other : Buffer}
    (holds : TapeHolds capacity buf tape)
    (same : other.data = buf.data) :
    TapeHolds capacity other tape where
  holds := holds.holds.sameData same
  area := by
    have area : other.buf = buf.buf := congrArg BufferData.buf same
    rw [area]
    exact holds.area

/-- A new linear buffer is a rewound tape. -/
theorem tapeHolds_bufferInit (capacity : Nat) :
    TapeHolds capacity (bufferInit capacity .linear) .empty where
  holds := linearHolds_bufferInit capacity
  area := load_length_zero _ 0

theorem tapeHolds_bufferReset (holds : TapeHolds capacity buf tape) :
    TapeHolds capacity (bufferReset buf) .empty where
  holds :=
    linearHolds_bufferReset holds.holds.type_eq holds.holds.size_eq
      holds.holds.area_length rfl
  area := load_length_zero _ 0

/-- A read moves the tape on. -/
theorem TapeHolds.bufferRead
    (holds : TapeHolds capacity buf tape)
    (capacityBound : capacity < 2 ^ 32)
    (free : buf.m.locked = false)
    {dest : Option (List UInt8)}
    {nBytes : Nat}
    (supplied : ∀ block ∈ dest, nBytes ≤ block.length) :
    ∃ call,
      bufferRead buf dest nBytes = some call ∧
        TapeHolds capacity call.buf (tape.read nBytes) ∧
          call.buf.m.locked = false ∧
            call.dest = delivered dest (tape.items.take nBytes) := by
  obtain ⟨call, returns, moves⟩ :=
    BufferIo.call_linear capacityBound tape.marked holds.holds free
      (.read dest nBytes) supplied
  have after : LinearHolds capacity call.buf (tape.read nBytes).marked := by
    rw [Tape.marked_read]
    exact moves.after
  refine ⟨call, returns, ⟨after, ?_⟩, moves.free, moves.dest_eq⟩
  rw [bufferRead_area holds.holds.type_eq returns]
  rcases tape.written_read nBytes with same | none
  · rw [same]
    exact holds.area
  · rw [none]
    exact load_length_zero _ 0

/-- A write appends to the tape. -/
theorem TapeHolds.bufferWrite
    (holds : TapeHolds capacity buf tape)
    (capacityBound : capacity < 2 ^ 32)
    (free : buf.m.locked = false)
    {src : List UInt8}
    {nBytes : Nat}
    (supplied : nBytes ≤ src.length) :
    ∃ call,
      bufferWrite buf src nBytes = some call ∧
        TapeHolds capacity call.buf (tape.write (src.take nBytes)) ∧
          call.buf.m.locked = false := by
  obtain ⟨call, returns, moves⟩ :=
    BufferIo.call_linear capacityBound tape.marked holds.holds free
      (.write src nBytes) supplied
  have after :
      LinearHolds capacity call.buf (tape.write (src.take nBytes)).marked := by
    rw [Tape.marked_write]
    exact moves.after
  refine ⟨call, returns, ⟨after, ?_⟩, moves.free⟩
  have room : bufferNWriteBytes buf = tape.room :=
    holds.holds.bufferNWriteBytes_eq capacityBound
  have accepted :
      (tape.write (src.take nBytes)).written =
        tape.written ++ src.take (min nBytes tape.room) := by
    rw [Nat.min_comm, ← List.take_take]
    rfl
  have mark : buf.writePtr = tape.written.length := holds.holds.writePtr_eq
  have fits :
      tape.written.length + (src.take (min nBytes tape.room)).length ≤
        buf.buf.length := by
    have inside := tape.fits
    rw [holds.holds.area_length, List.length_take, Tape.room]
    omega
  rw [bufferWrite_area holds.holds.type_eq returns, room, mark, accepted,
    List.length_append, ← load_append_load, load_store_before (by omega),
    Nat.zero_add, load_store_same fits, holds.area]

/-- A view copies from the beginning of the tape, as many items as are left to be
read, and leaves the mutex held. -/
theorem TapeHolds.bufferView
    (holds : TapeHolds capacity buf tape)
    (capacityBound : capacity < 2 ^ 32)
    (free : buf.m.locked = false)
    (dest : List UInt8)
    (nBytes : Nat) :
    ∃ call,
      bufferView buf dest 0 nBytes = some call ∧
        TapeHolds capacity call.buf tape ∧
          call.buf.m.locked = true ∧
            call.dest =
              some (store dest 0
                (tape.written.take (min nBytes tape.items.length))) := by
  obtain ⟨call, returns, dest_eq, _, data⟩ :=
    bufferView_linear holds.holds.type_eq free dest 0 nBytes
  obtain ⟨_, others, held⟩ :=
    bufferView_linear_keeps holds.holds.type_eq free dest 0 nBytes
  rw [returns] at others
  cases others
  refine ⟨call, returns, holds.sameData data, held, ?_⟩
  have readable : bufferNReadBytes buf = tape.items.length :=
    (BufferHolds.linear holds.holds).bufferNReadBytes_eq capacityBound
  have within : min nBytes tape.items.length ≤ tape.written.length := by
    rw [tape.length_items]
    omega
  rw [dest_eq, prepareBufRead_eq, readable, ← take_load within, holds.area]

end Tape

end Hiemal
