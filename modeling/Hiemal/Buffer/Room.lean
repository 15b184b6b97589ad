import Hiemal.Buffer.Held

/-!
# Room in a buffer

Next to the bytes it holds, a buffer of either type has room for a number of bytes
more. A write that is given more appends what there is room for, and a sequence of
writes uses the room up.
-/

namespace Hiemal

open Foundation

section Room

variable {capacity room : Nat} {buf : Buffer} {items : List UInt8}

/-- A buffer of the given capacity holds `items`, and has room for that many bytes
more. -/
structure BufferOffers
    (capacity : Nat)
    (buf : Buffer)
    (items : List UInt8)
    (room : Nat) : Prop where
  holds : BufferHolds capacity buf items
  room_eq : bufferNWriteBytes buf = room

theorem RingHolds.bufferNWriteBytes_eq
    (holds : RingHolds capacity buf items)
    (capacityBound : capacity < 2 ^ 32) :
    bufferNWriteBytes buf = capacity - items.length := by
  unfold bufferNWriteBytes
  rw [holds.type_eq]
  exact rbufNWriteBytes_eq holds capacityBound

theorem LinearHolds.bufferNWriteBytes_eq
    {queue : MarkedFifo UInt8 capacity}
    (holds : LinearHolds capacity buf queue)
    (capacityBound : capacity < 2 ^ 32) :
    bufferNWriteBytes buf = queue.room := by
  unfold bufferNWriteBytes
  rw [holds.type_eq]
  exact lbufNWriteBytes_eq holds capacityBound

/-- There is room for at most the capacity. -/
theorem BufferHolds.bufferNWriteBytes_le
    (holds : BufferHolds capacity buf items)
    (capacityBound : capacity < 2 ^ 32) :
    bufferNWriteBytes buf ≤ capacity := by
  cases holds with
  | ring holds =>
      rw [holds.bufferNWriteBytes_eq capacityBound]
      exact Nat.sub_le capacity _
  | voidRing zero void =>
      rw [void.bufferNWriteBytes_eq]
      exact Nat.zero_le capacity
  | linear holds =>
      rw [holds.bufferNWriteBytes_eq capacityBound]
      exact Nat.sub_le capacity _

/-- A new buffer has room for its capacity. -/
theorem bufferOffers_bufferInit
    (capacityBound : capacity < 2 ^ 32)
    (type : BufferType) :
    BufferOffers capacity (bufferInit capacity type) [] capacity where
  holds := bufferHolds_bufferInit capacity type
  room_eq := by
    cases type with
    | ring => rfl
    | linear =>
        exact (linearHolds_bufferInit capacity).bufferNWriteBytes_eq
          capacityBound

/-- A write uses the room up that it needs. -/
theorem BufferOffers.bufferWrite
    (offers : BufferOffers capacity buf items room)
    (capacityBound : capacity < 2 ^ 32)
    (free : buf.m.locked = false)
    {src : List UInt8}
    {nBytes : Nat}
    (supplied : nBytes ≤ src.length) :
    ∃ call,
      bufferWrite buf src nBytes = some call ∧
        Moves
          (BufferOffers capacity · (items ++ src.take (min nBytes room))
            (room - nBytes))
          (min nBytes room) none call := by
  obtain ⟨holds, rfl⟩ := offers
  cases holds with
  | ring holds =>
      let queue : BoundedFifo UInt8 capacity := ⟨items, holds.bounded⟩
      obtain ⟨call, returns, moves⟩ :=
        BufferIo.call_ring capacityBound queue holds free (.write src nBytes)
          supplied
      refine ⟨call, returns, ?_⟩
      rw [holds.bufferNWriteBytes_eq capacityBound, Nat.min_comm,
        ← List.take_take, Nat.min_comm]
      apply moves.mono
      intro after
      refine ⟨.ring after, ?_⟩
      rw [after.bufferNWriteBytes_eq capacityBound]
      simp only [BoundedFifo.serve, BoundedFifo.items_write, List.length_append,
        List.length_take, BoundedFifo.room, queue]
      omega
  | voidRing zero void =>
      obtain ⟨call, returns, moves⟩ :=
        BufferIo.call_voidRing void free (.write src nBytes)
      refine ⟨call, returns, ?_⟩
      rw [void.bufferNWriteBytes_eq, Nat.min_zero, Nat.zero_sub]
      apply moves.mono
      intro after
      exact ⟨.voidRing zero after.1, after.1.bufferNWriteBytes_eq⟩
  | linear holds =>
      rename_i queue
      obtain ⟨call, returns, moves⟩ :=
        BufferIo.call_linear capacityBound queue holds free (.write src nBytes)
          supplied
      refine ⟨call, returns, ?_⟩
      rw [holds.bufferNWriteBytes_eq capacityBound, Nat.min_comm,
        ← List.take_take, Nat.min_comm]
      apply moves.mono
      intro after
      refine ⟨.linear after, ?_⟩
      rw [after.bufferNWriteBytes_eq capacityBound]
      simp only [MarkedFifo.serve, MarkedFifo.mark_write, List.length_take,
        MarkedFifo.room]
      omega

end Room

end Hiemal
