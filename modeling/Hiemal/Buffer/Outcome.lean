import Hiemal.Buffer.Defs

/-!
# Outcomes of transfers

What a transfer through a buffer is expected to leave behind, stated for an
arbitrary relation on the buffer afterwards, and how the common beginning and
end of the transfer functions establish it.
-/

namespace Hiemal

open Foundation

/-- The outcome of a call that transfers `count` bytes: what the buffer
satisfies afterwards, the free mutex, the returned count, the caller's block,
and that every range of the raw area is touched within bounds. -/
structure Transfers
    (holdsAfter : Buffer → Prop)
    (count : Nat)
    (dest : Option (List UInt8))
    (call : BufferCall) : Prop where
  after : holdsAfter call.buf
  free : call.buf.m.locked = false
  rc_eq : call.rc = count
  dest_eq : call.dest = dest
  inBounds : ∀ range ∈ call.accesses, range.InBounds

/-- The same for any count an `unsigned int` holds: what is returned is the
count, converted to `int`. -/
structure Moves
    (holdsAfter : Buffer → Prop)
    (count : Nat)
    (dest : Option (List UInt8))
    (call : BufferCall) : Prop where
  after : holdsAfter call.buf
  free : call.buf.m.locked = false
  rc_eq : call.rc = toSigned 32 count
  dest_eq : call.dest = dest
  inBounds : ∀ range ∈ call.accesses, range.InBounds

section

variable {holdsAfter : Buffer → Prop} {count nBytes : Nat} {buf : Buffer}
variable {dest destAfter : Option (List UInt8)}

/-- A count below `2 ^ 31` is returned as it is. -/
theorem Moves.transfers
    {call : BufferCall}
    (moves : Moves holdsAfter count dest call)
    (bounded : count < 2 ^ 31) :
    Transfers holdsAfter count dest call where
  after := moves.after
  free := moves.free
  rc_eq := by rw [moves.rc_eq, toSigned_of_lt 31 bounded]
  dest_eq := moves.dest_eq
  inBounds := moves.inBounds

/-- What holds of the buffer afterwards can be weakened. -/
theorem Moves.mono
    {weaker : Buffer → Prop}
    {call : BufferCall}
    (moves : Moves holdsAfter count dest call)
    (implies : holdsAfter call.buf → weaker call.buf) :
    Moves weaker count dest call where
  after := implies moves.after
  free := moves.free
  rc_eq := moves.rc_eq
  dest_eq := moves.dest_eq
  inBounds := moves.inBounds

/-- The common end of a transfer establishes its outcome. -/
theorem finishTransfer_moves
    {mode : Char}
    {accesses : List BufferEffect}
    (after : holdsAfter
      { setBufferState buf mode with m := { locked := false } })
    (inBounds : ∀ range ∈ accessesOf accesses, range.InBounds) :
    Moves holdsAfter count dest
      (finishTransfer buf mode dest count accesses) where
  after := after
  free := rfl
  rc_eq := by simp only [finishTransfer, returnUnlocked]
  dest_eq := rfl
  inBounds := by
    simpa [BufferCall.accesses, finishTransfer, returnUnlocked] using inBounds

/-- The common beginning of a transfer: an empty request returns at once, any
other one runs the rest of the function with the mutex held. -/
theorem lockedTransfer_moves
    {type : BufferType}
    {held : Buffer → BufferCall}
    (type_eq : buf.type = type)
    (free : buf.m.locked = false)
    (empty : nBytes = 0 → holdsAfter buf ∧ count = 0 ∧ destAfter = dest)
    (moves : nBytes ≠ 0 →
      Moves holdsAfter count destAfter
        (held { buf with m := { locked := true } })) :
    ∃ call, lockedTransfer buf type dest nBytes held = some call ∧
      Moves holdsAfter count destAfter call := by
  by_cases none : nBytes = 0
  · obtain ⟨after, countZero, destSame⟩ := empty none
    refine ⟨returnEarly buf dest 0, by simp [lockedTransfer, type_eq, none], ?_⟩
    exact
      { after := after
        free := free
        rc_eq := by rw [countZero]; exact (toSigned_zero 32).symm
        dest_eq := destSame.symm
        inBounds := by simp [BufferCall.accesses, returnEarly] }
  · exact ⟨_, by simp [lockedTransfer, type_eq, none, threadMutexLock, free],
      moves none⟩

@[simp] theorem signalWrite_buf
    (recorded : List BufferEffect)
    (call : BufferCall) :
    (signalWrite recorded call).buf = call.buf := by
  cases call
  simp only [signalWrite]

@[simp] theorem signalWrite_dest
    (recorded : List BufferEffect)
    (call : BufferCall) :
    (signalWrite recorded call).dest = call.dest := by
  cases call
  simp only [signalWrite]

/-- Recording and signalling change neither the outcome nor the count. -/
theorem signalWrite_moves
    {recorded : List BufferEffect}
    {call : BufferCall}
    (moves : Moves holdsAfter count dest call)
    (recordedAccesses : accessesOf recorded = []) :
    Moves holdsAfter count dest (signalWrite recorded call) where
  after := by simpa using moves.after
  free := by simpa using moves.free
  rc_eq := by
    simp only [signalWrite, moves.rc_eq]
    rw [toSigned_toUnsigned_eq, toSigned_toSigned]
  dest_eq := by simpa using moves.dest_eq
  inBounds := by
    have signalled (fds : List Int) (fdHold : Bool) (rc : Nat) :
        accessesOf (if fdHold then [] else bufferSignalFds fds rc) = [] := by
      split <;> simp
    simpa [BufferCall.accesses, signalWrite, recordedAccesses, signalled] using
      moves.inBounds

end

/-- The clamp of a write is a minimum. -/
theorem prepareBufWrite_eq (buf : Buffer) (nBytes : Nat) :
    prepareBufWrite buf nBytes = min nBytes (bufferNWriteBytes buf) := by
  unfold prepareBufWrite
  split <;> omega

/-- The clamp of a read is a minimum. -/
theorem prepareBufRead_eq (buf : Buffer) (nBytes : Nat) :
    prepareBufRead buf nBytes = min nBytes (bufferNReadBytes buf) := by
  unfold prepareBufRead
  split <;> omega

/-! ## Parts of a buffer -/

/-- The part of a buffer that its contents depend on. -/
structure BufferData where
  buf : List UInt8
  bufLenBytes : Nat
  readPtr : Nat
  writePtr : Nat
  type : BufferType
  state : BufferState

def Buffer.data (buf : Buffer) : BufferData where
  buf := buf.buf
  bufLenBytes := buf.bufLenBytes
  readPtr := buf.readPtr
  writePtr := buf.writePtr
  type := buf.type
  state := buf.state

/-- The part of a buffer that is set up once and that no transfer touches. -/
structure BufferSetup where
  type : BufferType
  bufLenBytes : Nat
  extBuf : Bool
  r : Option Nat
  rId : Nat
  fdSet : List Int
  fdHold : Bool
  eventList : List Nat

def Buffer.setup (buf : Buffer) : BufferSetup where
  type := buf.type
  bufLenBytes := buf.bufLenBytes
  extBuf := buf.extBuf
  r := buf.r
  rId := buf.rId
  fdSet := buf.fdSet
  fdHold := buf.fdHold
  eventList := buf.eventList

@[simp] theorem setup_setBufferState (buf : Buffer) (mode : Char) :
    (setBufferState buf mode).setup = buf.setup := by
  unfold setBufferState
  split
  · unfold setLbufState
    split_ifs <;> rfl
  · unfold setRbufState
    dsimp only
    split_ifs <;> first | rfl | (split <;> rfl)

@[simp] theorem setBufferState_buf (buf : Buffer) (mode : Char) :
    (setBufferState buf mode).buf = buf.buf := by
  unfold setBufferState
  split
  · unfold setLbufState bufferReset
    split_ifs <;> rfl
  · unfold setRbufState
    dsimp only
    split_ifs <;> first | rfl | (split <;> rfl)

@[simp] theorem setup_finishTransfer
    (buf : Buffer)
    (mode : Char)
    (dest : Option (List UInt8))
    (nBytes : Nat)
    (accesses : List BufferEffect) :
    (finishTransfer buf mode dest nBytes accesses).buf.setup = buf.setup :=
  setup_setBufferState buf mode

theorem setup_lockedTransfer
    {buf : Buffer}
    {type : BufferType}
    {dest : Option (List UInt8)}
    {nBytes : Nat}
    {held : Buffer → BufferCall}
    {call : BufferCall}
    (returns : lockedTransfer buf type dest nBytes held = some call)
    (kept : ∀ buf, (held buf).buf.setup = buf.setup) :
    call.buf.setup = buf.setup := by
  unfold lockedTransfer threadMutexLock at returns
  split_ifs at returns
  · cases returns
    rfl
  · cases returns
    rfl
  · cases returns
  · cases returns
    exact kept _

/-- No call touches the setup of its buffer. -/
theorem BufferIo.call_setup
    {buf : Buffer}
    {io : BufferIo}
    {call : BufferCall}
    (returns : io.call buf = some call) :
    call.buf.setup = buf.setup := by
  cases io with
  | write src nBytes =>
      simp only [BufferIo.call, bufferWrite, Option.map_eq_some_iff] at returns
      obtain ⟨written, writtenReturns, rfl⟩ := returns
      rw [signalWrite_buf]
      cases type : buf.type with
      | linear =>
          rw [type] at writtenReturns
          exact setup_lockedTransfer writtenReturns fun _ =>
            setup_setBufferState _ _
      | ring =>
          rw [type] at writtenReturns
          refine setup_lockedTransfer writtenReturns fun _ => ?_
          unfold rbufWriteHeld
          dsimp only
          split <;> exact setup_setBufferState _ _
  | read dest nBytes =>
      simp only [BufferIo.call, bufferRead] at returns
      cases type : buf.type with
      | linear =>
          rw [type] at returns
          exact setup_lockedTransfer returns fun _ => setup_setBufferState _ _
      | ring =>
          rw [type] at returns
          refine setup_lockedTransfer returns fun _ => ?_
          unfold rbufReadHeld
          dsimp only
          split <;> exact setup_setBufferState _ _
  | reset =>
      cases returns
      rfl

/-! ## The caller's block -/

/-- The caller's block after `data` was delivered to it. -/
def delivered
    (dest : Option (List UInt8))
    (data : List UInt8) : Option (List UInt8) :=
  dest.map fun block => store block 0 data

@[simp] theorem delivered_nil (dest : Option (List UInt8)) :
    delivered dest [] = dest := by
  simp [delivered]

/-- Two copies to adjacent places of the caller's block are one delivery. -/
theorem copyOut_copyOut
    {src : Buffer}
    {dest : Option (List UInt8)}
    {first second firstPosition secondPosition : Nat}
    (firstLength : (load src.buf firstPosition first).length = first)
    (secondLength : (load src.buf secondPosition second).length = second)
    (supplied : ∀ block ∈ dest, first + second ≤ block.length) :
    copyOut src (copyOut src dest 0 firstPosition first) first secondPosition
        second =
      delivered dest
        (load src.buf firstPosition first ++
          load src.buf secondPosition second) := by
  cases dest with
  | none => rfl
  | some block =>
      have room := supplied block rfl
      simp only [copyOut, delivered, Option.map_some, Option.some.injEq]
      rw [store_append (by omega), firstLength, Nat.zero_add]

theorem copyOutAccess_inBounds
    {src : Buffer}
    (dest : Option (List UInt8))
    {position nBytes : Nat}
    (fits : position + nBytes ≤ src.bufLenBytes) :
    ∀ range ∈ accessesOf (copyOutAccess src dest position nBytes),
      range.InBounds := by
  unfold copyOutAccess
  split
  · simpa [areaAccess, Access.InBounds] using fits
  · simp

/-! ## Replies of an abstract queue -/

/-- What a client of a queue sees of a call, and the queue after it. -/
structure QueueReply (Queue : Type) where
  /-- The number of bytes transferred. -/
  count : Nat
  /-- The caller's block after the call. -/
  dest : Option (List UInt8)
  /-- The queue after the call. -/
  after : Queue

/-- Serving a call as a transition of the queue that outputs its reply. -/
def QueueReply.step
    {Queue : Type}
    (serve : Queue → BufferIo → QueueReply Queue)
    (queue : Queue)
    (io : BufferIo) : Queue × QueueReply Queue :=
  ((serve queue io).after, serve queue io)

end Hiemal
