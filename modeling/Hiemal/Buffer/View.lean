import Hiemal.Buffer.Held

/-!
# Peeking into a buffer

A view of a ring buffer copies bytes at an offset behind the read pointer and
leaves the buffer as it is. The code clamps the request to all readable bytes,
whatever the offset, and subtracts the offset from the length of the run up to the
end of the area. This module says for which offsets and requests the copy is the
one asked for.

A view of a linear buffer copies from the beginning of the area, wherever the read
pointer is, and returns zero, so it agrees with a read of nothing only.
-/

namespace Hiemal

open Foundation

/-- The readable bytes of a ring buffer: those from the read pointer on, around
the end of the area. -/
def readableBytes (buf : Buffer) : List UInt8 :=
  window buf.buf buf.readPtr (bufferNReadBytes buf)

/-- A view of the readable bytes from `offset` on, cut to `nBytes`: the count, the
caller's block, the unchanged buffer, and that no cell outside the area is
touched. -/
structure Views
    (buf : Buffer)
    (dest : List UInt8)
    (offset nBytes : Nat)
    (call : BufferCall) : Prop where
  rc_eq : call.rc = min nBytes (bufferNReadBytes buf - offset)
  dest_eq :
    call.dest =
      some (store dest 0
        (((readableBytes buf).drop offset).take
          (min nBytes (bufferNReadBytes buf - offset))))
  unchanged : call.buf = buf
  inside : ∀ range ∈ call.accesses, range.length = 0 ∨ range.InBounds

/-- The requests a view serves as asked: an empty one, and one whose offset does
not lie behind the end of the area, that does not reach past the readable bytes
unless it starts at the first of them, and whose count an `int` holds. -/
def Viewable (buf : Buffer) (offset nBytes : Nat) : Prop :=
  nBytes = 0 ∨
    offset ≤ rbufLinearBytesRead buf ∧
      (offset = 0 ∨ nBytes ≤ bufferNReadBytes buf - offset) ∧
        min nBytes (bufferNReadBytes buf - offset) < 2 ^ 31

/-- What a ring buffer of any size holds are its readable bytes. -/
theorem BufferHolds.readableBytes_eq
    {capacity : Nat}
    {buf : Buffer}
    {items : List UInt8}
    (holds : BufferHolds capacity buf items)
    (capacityBound : capacity < 2 ^ 32)
    (ring : buf.type = .ring) :
    readableBytes buf = items := by
  rw [readableBytes, holds.bufferNReadBytes_eq capacityBound]
  cases holds with
  | ring holds => exact holds.contents
  | voidRing zero void => exact window_zero buf.buf buf.readPtr
  | linear holds => exact absurd (holds.type_eq.symm.trans ring) (by decide)

/-! ## The two branches -/

section Branches

variable {buf : Buffer} {offset nBytes : Nat} (dest : List UInt8)
variable (ring : buf.type = .ring) (free : buf.m.locked = false)

include ring free

omit ring in
/-- Releasing the mutex that was taken gives the buffer back. -/
theorem withMutex_released :
    { buf with m := threadMutexUnlock { locked := true } } = buf := by
  obtain ⟨_, _, _, _, _, _, _, _, _, _, _, ⟨locked⟩, _⟩ := buf
  cases free
  rfl

/-- The linear count of the code, with the offset subtracted as an
`unsigned int`. -/
theorem bufferView_eq :
    bufferView buf dest offset nBytes =
      let count := prepareBufRead buf nBytes
      let linear := toUnsigned 32 ((rbufLinearBytesRead buf : Int) - offset)
      if linear < count then
        some
          { buf
            rc := toSigned 32 count
            dest :=
              some
                (store
                  (store dest 0 (load buf.buf (buf.readPtr + offset) linear))
                  linear (load buf.buf 0 (count - linear)))
            effects :=
              [.lock, areaAccess buf (buf.readPtr + offset) linear,
                areaAccess buf 0 (count - linear), .unlock] }
      else
        some
          { buf
            rc := toSigned 32 count
            dest :=
              some (store dest 0 (load buf.buf (buf.readPtr + offset) count))
            effects :=
              [.lock, areaAccess buf (buf.readPtr + offset) count, .unlock] } := by
  have released := withMutex_released free
  have notLinear : buf.type ≠ .linear := by
    rw [ring]
    decide
  have linear (m : HmMutex) :
      rbufLinearBytesRead { buf with m := m } = rbufLinearBytesRead buf := rfl
  have clamp (m : HmMutex) :
      prepareBufRead { buf with m := m } nBytes = prepareBufRead buf nBytes :=
    rfl
  simp only [bufferView, threadMutexLock, free, Bool.false_eq_true, if_false,
    Option.bind_eq_bind, Option.bind_some, notLinear, linear, clamp]
  split <;>
    simp only [returnUnlocked, released, areaAccess, List.cons_append,
      List.nil_append, pure]

/-- A view returns the clamped count in both branches, and the buffer as it
was. -/
theorem bufferView_returns :
    ∃ call, bufferView buf dest offset nBytes = some call ∧
      call.buf = buf ∧ call.rc = toSigned 32 (prepareBufRead buf nBytes) := by
  rw [bufferView_eq dest ring free]
  dsimp only
  split <;> exact ⟨_, rfl, rfl, by dsimp only⟩

/-- A view that is clamped to nothing touches nothing, wherever it starts. -/
theorem bufferView_nothing
    (count : prepareBufRead buf nBytes = 0) :
    ∃ call, bufferView buf dest offset nBytes = some call ∧
      Views buf dest offset nBytes call := by
  have wanted : min nBytes (bufferNReadBytes buf - offset) = 0 := by
    rw [prepareBufRead_eq] at count
    omega
  rw [bufferView_eq dest ring free, count]
  refine ⟨_, if_neg (Nat.not_lt_zero _), ?_⟩
  exact
    { rc_eq := by
        rw [wanted]
        exact toSigned_zero 32
      dest_eq := by
        rw [wanted]
        simp
      unchanged := rfl
      inside := by simp [BufferCall.accesses, areaAccess] }

end Branches

theorem rbufLinearBytesRead_lt (buf : Buffer) :
    rbufLinearBytesRead buf < 2 ^ 32 := by
  unfold rbufLinearBytesRead
  split
  · decide
  · cases buf.state with
    | normal =>
        dsimp only
        split <;> exact toUnsigned_lt 32 _
    | empty => exact Nat.two_pow_pos 32
    | full => exact toUnsigned_lt 32 _

/-- Before the end of the run the subtraction of the offset is exact. -/
theorem linear_sub_of_le
    {linear offset : Nat}
    (bounded : linear < 2 ^ 32)
    (before : offset ≤ linear) :
    toUnsigned 32 ((linear : Int) - offset) = linear - offset := by
  rw [← Nat.cast_sub before]
  exact toUnsigned_of_lt 32 (by omega)

/-- Behind the end of the run it wraps around. -/
theorem linear_sub_of_lt
    {linear offset : Nat}
    (bounded : offset < 2 ^ 32)
    (behind : linear < offset) :
    toUnsigned 32 ((linear : Int) - offset) = 2 ^ 32 - (offset - linear) := by
  unfold toUnsigned
  omega

section Ring

variable {capacity offset nBytes : Nat} {buf : Buffer} {items : List UInt8}
variable (dest : List UInt8)
variable (holds : RingHolds capacity buf items)
variable (capacityBound : capacity < 2 ^ 32)
variable (free : buf.m.locked = false)

include holds capacityBound free

/-- A view of a slice that starts before the end of the area copies the slice. -/
theorem bufferView_slice
    (before : offset ≤ rbufLinearBytesRead buf)
    (within : offset + prepareBufRead buf nBytes ≤ items.length)
    (room : nBytes ≤ dest.length) :
    ∃ call, bufferView buf dest offset nBytes = some call ∧
      call.buf = buf ∧
      call.rc = toSigned 32 (prepareBufRead buf nBytes) ∧
      call.dest =
        some (store dest 0
          ((items.drop offset).take (prepareBufRead buf nBytes))) ∧
      ∀ range ∈ call.accesses, range.InBounds := by
  have readPtrLt := holds.readPtr_lt
  have bounded := holds.bounded
  have area := holds.area_length
  have countLe : prepareBufRead buf nBytes ≤ nBytes := by
    rw [prepareBufRead_eq]
    exact Nat.min_le_left _ _
  have cases := rbufLinearBytesRead_cases holds capacityBound
  rw [bufferView_eq dest holds.type_eq free,
    linear_sub_of_le (rbufLinearBytesRead_lt buf) before]
  generalize prepareBufRead buf nBytes = count at *
  dsimp only
  rw [← holds.contents]
  by_cases split : rbufLinearBytesRead buf - offset < count
  · have linear : rbufLinearBytesRead buf = capacity - buf.readPtr := by
      rcases cases with linear | ⟨covers, _⟩ <;> omega
    rw [if_pos split,
      slice_window_wrapped within (by omega) (by omega) (by omega) (by omega)]
    have run : rbufLinearBytesRead buf - offset =
        buf.buf.length - (buf.readPtr + offset) := by
      omega
    have firstLength :
        (load buf.buf (buf.readPtr + offset)
          (buf.buf.length - (buf.readPtr + offset))).length =
            buf.buf.length - (buf.readPtr + offset) :=
      length_load (by omega)
    have secondLength :
        (load buf.buf 0
          (count - (buf.buf.length - (buf.readPtr + offset)))).length =
            count - (buf.buf.length - (buf.readPtr + offset)) :=
      length_load (by omega)
    refine ⟨_, rfl, rfl, by dsimp only, ?_, ?_⟩
    · rw [store_append (by omega), firstLength, Nat.zero_add, run]
    · simp [BufferCall.accesses, areaAccess, Access.InBounds, holds.size_eq]
      omega
  · have whole : buf.readPtr + (offset + count) ≤ buf.buf.length := by
      rcases cases with linear | ⟨_, fits⟩ <;> omega
    rw [if_neg split, slice_window within whole (by omega)]
    refine ⟨_, rfl, rfl, by dsimp only, rfl, ?_⟩
    simp [BufferCall.accesses, areaAccess, Access.InBounds, holds.size_eq]
    omega

/-- A view of something whose offset lies behind the end of the area touches
cells outside it. -/
theorem bufferView_behind
    (readable : offset ≤ items.length)
    (behind : rbufLinearBytesRead buf < offset)
    (positive : 0 < nBytes) :
    ∃ call, bufferView buf dest offset nBytes = some call ∧
      ∃ range ∈ call.accesses, 0 < range.length ∧ ¬range.InBounds := by
  have readPtrLt := holds.readPtr_lt
  have bounded := holds.bounded
  have linear : rbufLinearBytesRead buf = capacity - buf.readPtr := by
    rcases rbufLinearBytesRead_cases holds capacityBound with
      linear | ⟨covers, _⟩ <;> omega
  have count : 0 < prepareBufRead buf nBytes := by
    rw [prepareBufRead_ring holds capacityBound]
    omega
  rw [bufferView_eq dest holds.type_eq free, linear_sub_of_lt (by omega) behind]
  dsimp only
  split
  · refine ⟨_, rfl, _, List.mem_cons_self, ?_, ?_⟩
    · dsimp only
      omega
    · simp only [Access.InBounds, holds.size_eq]
      omega
  · refine ⟨_, rfl, _, List.mem_cons_self, count, ?_⟩
    simp only [Access.InBounds, holds.size_eq]
    omega

/-- The requests served as asked are exactly the viewable ones. -/
theorem RingHolds.bufferView_iff
    (readable : offset ≤ items.length)
    (nBytesBound : nBytes < 2 ^ 32)
    (room : nBytes ≤ dest.length) :
    (∃ call, bufferView buf dest offset nBytes = some call ∧
        Views buf dest offset nBytes call) ↔
      Viewable buf offset nBytes := by
  have count : prepareBufRead buf nBytes = min nBytes items.length :=
    prepareBufRead_ring holds capacityBound
  have length : bufferNReadBytes buf = items.length :=
    (BufferHolds.ring holds).bufferNReadBytes_eq capacityBound
  have contents : readableBytes buf = items :=
    (BufferHolds.ring holds).readableBytes_eq capacityBound holds.type_eq
  constructor
  · rintro ⟨call, returns, views⟩
    rcases Nat.eq_zero_or_pos nBytes with none | positive
    · exact Or.inl none
    refine Or.inr ⟨?_, ?_⟩
    · -- an offset behind the end of the area makes the copy leave it
      by_contra behind
      obtain ⟨other, otherReturns, range, member, lengthPositive, outside⟩ :=
        bufferView_behind dest holds capacityBound free readable
          (Nat.lt_of_not_le behind) positive
      rw [returns, Option.some.injEq] at otherReturns
      subst otherReturns
      rcases views.inside range member with empty | inside
      · omega
      · exact outside inside
    · obtain ⟨other, otherReturns, _, rc⟩ :=
        bufferView_returns dest holds.type_eq free
      rw [returns, Option.some.injEq] at otherReturns
      subst otherReturns
      rw [views.rc_eq, length] at rc
      obtain ⟨equal, small⟩ :=
        (toSigned_eq_natCast_iff 31 (by rw [count]; omega)).mp rc.symm
      rw [count] at equal
      rw [length]
      exact ⟨by omega, small⟩
  · rintro (rfl | ⟨before, reaches, small⟩)
    · exact bufferView_nothing dest holds.type_eq free
        (by rw [prepareBufRead_eq, Nat.zero_min])
    · rw [length] at reaches small
      have exact_count :
          prepareBufRead buf nBytes = min nBytes (items.length - offset) := by
        rw [count]
        omega
      obtain ⟨call, returns, unchanged, rc, copied, inBounds⟩ :=
        bufferView_slice dest holds capacityBound free before (by omega) room
      rw [exact_count] at rc copied
      exact ⟨call, returns,
        { rc_eq := by rw [rc, length, toSigned_of_lt 31 small]
          dest_eq := by rw [copied, length, contents]
          unchanged := unchanged
          inside := fun range member => Or.inr (inBounds range member) }⟩

end Ring

/-- Of every ring buffer reached by writes and reads, a view serves exactly the
viewable requests as asked. -/
theorem bufferView_iff_viewable
    (capacity : Nat)
    (capacityBound : capacity < 2 ^ 32)
    (ios : List BufferIo)
    (supplied : ∀ io ∈ ios, io.Supplied)
    (buf : Buffer)
    (calls : List BufferCall)
    (reached :
      runSteps bufferStep (bufferInit capacity .ring) ios = some (buf, calls))
    (dest : List UInt8)
    (offset nBytes : Nat)
    (readable : offset ≤ bufferNReadBytes buf)
    (nBytesBound : nBytes < 2 ^ 32)
    (room : nBytes ≤ dest.length) :
    (∃ call, bufferView buf dest offset nBytes = some call ∧
        Views buf dest offset nBytes call) ↔
      Viewable buf offset nBytes := by
  obtain ⟨idle, setup⟩ :=
    (bufferIdle_bufferInit capacity .ring).run capacityBound supplied reached
  obtain ⟨items, holds⟩ := idle.holds
  have ring : buf.type = .ring := congrArg BufferSetup.type setup
  rw [holds.bufferNReadBytes_eq capacityBound] at readable
  cases holds with
  | ring holds =>
      exact holds.bufferView_iff dest capacityBound idle.free readable
        nBytesBound room
  | voidRing zero void =>
      obtain rfl : offset = 0 := Nat.le_zero.mp readable
      have nothing : bufferNReadBytes buf = 0 := void.bufferNReadBytes_eq
      have count : prepareBufRead buf nBytes = 0 := by
        rw [prepareBufRead_eq, nothing, Nat.min_zero]
      have viewable : Viewable buf 0 nBytes :=
        Or.inr ⟨Nat.zero_le _, Or.inl rfl, by simp [nothing]⟩
      exact iff_of_true (bufferView_nothing dest ring idle.free count) viewable
  | linear holds => exact absurd (holds.type_eq.symm.trans ring) (by decide)

/-- The law for three bytes that wrap around the end of a buffer of four cells:
a view of one byte behind the read pointer. -/
theorem bufferView_iff_viewable_wrapped :
    ∃ buf calls,
      runSteps bufferStep (bufferInit 4 .ring)
          [.write [1, 2, 3] 3, .read none 2, .write [4, 5] 2] =
          some (buf, calls) ∧
        ((∃ call, bufferView buf [0] 1 1 = some call ∧
            Views buf [0] 1 1 call) ↔
          Viewable buf 1 1) := by
  refine ⟨_, _, rfl, ?_⟩
  exact bufferView_iff_viewable 4 (by decide)
    [.write [1, 2, 3] 3, .read none 2, .write [4, 5] 2]
    (by simp [BufferIo.Supplied]) _ _ rfl [0] 1 1 (by decide) (by decide)
    (by decide)

/-- A view of three bytes at offset one of three readable bytes copies and
returns three, not two. -/
theorem bufferView_ignores_offset :
    ∃ buf calls,
      runSteps bufferStep (bufferInit 4 .ring) [.write [1, 2, 3] 3] =
          some (buf, calls) ∧
        1 ≤ bufferNReadBytes buf ∧
        ¬∃ call, bufferView buf [0, 0, 0] 1 3 = some call ∧
          Views buf [0, 0, 0] 1 3 call := by
  refine ⟨_, _, rfl, by decide, ?_⟩
  rintro ⟨call, returns, views⟩
  have rc := views.rc_eq
  cases returns
  revert rc
  decide

/-! ## Linear buffers -/

/-- A view from offset zero does what a read of as many bytes would do for its
caller, and leaves the contents and the pointers of the buffer as they are. -/
def PeeksAsRead (buf : Buffer) (dest : List UInt8) (nBytes : Nat) : Prop :=
  ∃ peeked read,
    bufferView buf dest 0 nBytes = some peeked ∧
      bufferRead buf (some dest) nBytes = some read ∧
        peeked.dest = read.dest ∧ peeked.rc = read.rc ∧
          peeked.buf.data = buf.data

/-- A view of a linear buffer copies from the beginning of the area and returns
zero. -/
theorem bufferView_linear
    {buf : Buffer}
    (linear : buf.type = .linear)
    (free : buf.m.locked = false)
    (dest : List UInt8)
    (offset nBytes : Nat) :
    ∃ call, bufferView buf dest offset nBytes = some call ∧
      call.dest =
          some (store dest 0 (load buf.buf offset (prepareBufRead buf nBytes))) ∧
        call.rc = 0 ∧ call.buf.data = buf.data := by
  have clamp (m : HmMutex) :
      prepareBufRead { buf with m := m } nBytes = prepareBufRead buf nBytes :=
    rfl
  simp only [bufferView, threadMutexLock, free, Bool.false_eq_true, if_false,
    Option.bind_eq_bind, Option.bind_some, clamp, bufferViewRaw, Option.pure_def]
  rw [if_pos linear]
  exact ⟨_, rfl, rfl, rfl, rfl⟩

/-- A linear buffer is peeked into as it is read exactly where there is nothing to
read. -/
theorem LinearHolds.peeksAsRead_iff
    {capacity : Nat}
    {buf : Buffer}
    {queue : MarkedFifo UInt8 capacity}
    (holds : LinearHolds capacity buf queue)
    (capacityBound : capacity < 2 ^ 32)
    (free : buf.m.locked = false)
    {dest : List UInt8}
    {nBytes : Nat}
    (room : nBytes ≤ dest.length) :
    PeeksAsRead buf dest nBytes ↔ nBytes = 0 ∨ bufferNReadBytes buf = 0 := by
  have items := BufferHolds.linear holds
  have readable := items.bufferNReadBytes_eq capacityBound
  have within := items.length_le
  obtain ⟨peeked, peeks, peekedDest, peekedRc, peekedData⟩ :=
    bufferView_linear holds.type_eq free dest 0 nBytes
  obtain ⟨read, reads, moves⟩ :=
    items.call capacityBound free (.read (some dest) nBytes) (by
      rintro block ⟨⟩
      exact room)
  have count : BufferIo.count buf (.read (some dest) nBytes) =
      min nBytes (bufferNReadBytes buf) := rfl
  constructor
  · rintro ⟨other, otherRead, otherPeeks, otherReads, _, rc, _⟩
    rw [peeks, Option.some.injEq] at otherPeeks
    have same : bufferRead buf (some dest) nBytes = some read := reads
    rw [same, Option.some.injEq] at otherReads
    subst otherPeeks otherReads
    have returned :=
      @toUnsigned_toSigned 32 (min nBytes (bufferNReadBytes buf)) (by omega)
    rw [← count, ← moves.rc_eq, ← rc, peekedRc, count] at returned
    have zero : toUnsigned 32 0 = 0 := by decide
    omega
  · intro nothing
    have none : min nBytes (bufferNReadBytes buf) = 0 := by omega
    refine ⟨peeked, read, peeks, reads, ?_, ?_, peekedData⟩
    · have empty : queue.items.take nBytes = [] := by
        rw [List.take_eq_nil_iff]
        rcases nothing with zero | unreadable
        · exact Or.inl zero
        · exact Or.inr (List.length_eq_zero_iff.mp (readable ▸ unreadable))
      rw [peekedDest, moves.dest_eq, prepareBufRead_eq, none]
      simp [BufferIo.destAfter, empty]
    · rw [peekedRc, moves.rc_eq, count, none]
      exact (toSigned_zero 32).symm

/-- Of every linear buffer reached by writes and reads, a view agrees with a read
exactly where there is nothing to read. -/
theorem peeksAsRead_iff_nothing
    (capacity : Nat)
    (capacityBound : capacity < 2 ^ 32)
    (ios : List BufferIo)
    (supplied : ∀ io ∈ ios, io.Supplied)
    (buf : Buffer)
    (calls : List BufferCall)
    (reached :
      runSteps bufferStep (bufferInit capacity .linear) ios = some (buf, calls))
    (dest : List UInt8)
    (nBytes : Nat)
    (room : nBytes ≤ dest.length) :
    PeeksAsRead buf dest nBytes ↔ nBytes = 0 ∨ bufferNReadBytes buf = 0 := by
  obtain ⟨idle, setup⟩ :=
    (bufferIdle_bufferInit capacity .linear).run capacityBound supplied reached
  obtain ⟨items, holds⟩ := idle.holds
  have linear : buf.type = .linear := congrArg BufferSetup.type setup
  cases holds with
  | ring holds => exact absurd (linear.symm.trans holds.type_eq) (by decide)
  | voidRing zero void => exact absurd (linear.symm.trans void.type_eq) (by decide)
  | linear holds => exact holds.peeksAsRead_iff capacityBound idle.free room

/-- The law for a buffer with one of two bytes left, and a request of nothing. -/
theorem peeksAsRead_iff_nothing_zero :
    ∃ buf calls,
      runSteps bufferStep (bufferInit 4 .linear)
          [.write [1, 2] 2, .read none 1] = some (buf, calls) ∧
        PeeksAsRead buf [0] 0 := by
  refine ⟨_, _, rfl, ?_⟩
  exact (peeksAsRead_iff_nothing 4 (by decide) [.write [1, 2] 2, .read none 1]
    (by simp [BufferIo.Supplied]) _ _ rfl [0] 0 (by decide)).mpr (Or.inl rfl)

/-- With one of the two bytes `1`, `2` read, a view of one byte copies `1` and
returns zero, where a read delivers `2` and returns one. -/
theorem not_peeksAsRead_consumed :
    ∃ buf calls,
      runSteps bufferStep (bufferInit 4 .linear)
          [.write [1, 2] 2, .read none 1] = some (buf, calls) ∧
        ¬PeeksAsRead buf [0] 1 := by
  refine ⟨_, _, rfl, ?_⟩
  rintro ⟨peeked, read, peeks, reads, copied, _⟩
  cases peeks
  cases reads
  revert copied
  decide

end Hiemal
