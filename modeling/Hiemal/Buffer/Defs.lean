import Hiemal.Foundation.Block
import Hiemal.Foundation.MachineInteger

/-!
# The buffer object

Translation of `core/buffer.c`. Pointers into the raw memory area are offsets
from `buf->buf`. An operation maps the buffer before a call to a `BufferCall`:
the buffer after it, the C return value, the caller's destination block, and
the effects of the call in program order, among them every range of the raw
area handed to `memcpy`. It is `none` when the call blocks on the mutex.

`unsigned int` is 32 bits wide and pointer differences are 64 bits wide.
Allocation is taken to succeed.
-/

namespace Hiemal

open Foundation

/-- `buffer_type_t`. -/
inductive BufferType
  | ring
  | linear
  deriving DecidableEq, Repr

/-- `buffer_state_t`. -/
inductive BufferState
  | normal
  | empty
  | full
  deriving DecidableEq, Repr

/-- `buffer_io_type_t`. -/
inductive BufferIoType
  | read
  | write
  deriving DecidableEq, Repr

/-- `struct _buffer_io_event`, the record sent to an event registered on a
buffer. -/
structure BufferIoEvent where
  ioType : BufferIoType
  nBytesTransferred : Nat
  nBytesReadable : Nat
  nBytesWriteable : Nat
  deriving DecidableEq, Repr

/-- The state of `hm_mutex_t`. The default mutex is not recursive. -/
structure HmMutex where
  locked : Bool
  deriving DecidableEq, Repr

/-- What a buffer operation does besides updating the buffer. -/
inductive BufferEffect
  /-- `thread_mutex_lock(&(buf->m))` returned. -/
  | lock
  /-- `thread_mutex_unlock(&(buf->m))`. -/
  | unlock
  /-- A range of the raw memory area is read or written by `memcpy`. -/
  | access (range : Access)
  /-- A record is written to the pipe of a registered event. -/
  | wake (event : Nat) (info : BufferIoEvent)
  /-- A byte count is written to a descriptor of the descriptor set. -/
  | signal (fd : Int) (nBytes : Nat)
  /-- Bytes are passed to `hm_recording_write`. -/
  | record (recording rId : Nat) (data : List UInt8)
  deriving DecidableEq

/-- `struct _buffer`. Recordings and events are named by numbers; the
descriptor list starts with its sentinel node. -/
structure Buffer where
  buf : List UInt8
  bufLenBytes : Nat
  readPtr : Nat
  writePtr : Nat
  type : BufferType
  state : BufferState
  extBuf : Bool
  r : Option Nat
  rId : Nat
  fdSet : List Int
  fdHold : Bool
  m : HmMutex
  eventList : List Nat
  deriving DecidableEq

/-- The outcome of a buffer operation that returns. -/
structure BufferCall where
  /-- The buffer after the call. -/
  buf : Buffer
  /-- The C return value. -/
  rc : Int
  /-- The caller's destination block after the call, if there is one. -/
  dest : Option (List UInt8)
  /-- The effects, in program order. -/
  effects : List BufferEffect

/-- The ranges of the raw memory area touched by a list of effects. -/
def accessesOf (effects : List BufferEffect) : List Access :=
  effects.filterMap fun
    | .access range => some range
    | _ => none

/-- The ranges of the raw memory area touched by a call. -/
def BufferCall.accesses (call : BufferCall) : List Access :=
  accessesOf call.effects

@[simp] theorem accessesOf_nil : accessesOf [] = [] := rfl

@[simp] theorem accessesOf_append
    (first second : List BufferEffect) :
    accessesOf (first ++ second) = accessesOf first ++ accessesOf second :=
  List.filterMap_append

@[simp] theorem accessesOf_cons_access
    (range : Access)
    (effects : List BufferEffect) :
    accessesOf (.access range :: effects) = range :: accessesOf effects := rfl

@[simp] theorem accessesOf_cons_lock (effects : List BufferEffect) :
    accessesOf (.lock :: effects) = accessesOf effects := rfl

@[simp] theorem accessesOf_cons_unlock (effects : List BufferEffect) :
    accessesOf (.unlock :: effects) = accessesOf effects := rfl

@[simp] theorem accessesOf_cons_record
    (recording rId : Nat)
    (data : List UInt8)
    (effects : List BufferEffect) :
    accessesOf (.record recording rId data :: effects) =
      accessesOf effects := rfl

/-- The error code `BAD_ARG`. -/
def badArg : Nat := 0x105

/-- The mutex is acquired if it is free; otherwise the caller blocks. -/
def threadMutexLock (m : HmMutex) : Option HmMutex :=
  if m.locked then none else some { locked := true }

def threadMutexUnlock (_ : HmMutex) : HmMutex :=
  { locked := false }

/-- `buffer_fd_set_init`: the list holds only the sentinel descriptor. -/
def bufferFdSetInit : List Int := [-1]

/-- `buffer_init_ext`, over memory that already holds `rawBuffer`. -/
def bufferInitExt
    (nBytes : Nat)
    (type : BufferType)
    (rawBuffer : List UInt8) : Buffer where
  buf := rawBuffer
  bufLenBytes := nBytes
  readPtr := 0
  writePtr := 0
  type := type
  state := .empty
  extBuf := true
  r := none
  rId := 0
  fdSet := bufferFdSetInit
  fdHold := false
  m := { locked := false }
  eventList := []

/-- `buffer_init`. -/
def bufferInit (nBytes : Nat) (type : BufferType) : Buffer :=
  { bufferInitExt nBytes type (List.replicate nBytes 0) with extBuf := false }

def bufferReset (buf : Buffer) : Buffer :=
  { buf with readPtr := 0, writePtr := 0, state := .empty }

/-! ## Byte counts -/

def lbufNWriteBytes (buf : Buffer) : Nat :=
  if buf.type ≠ .linear then badArg
  else toUnsigned 32 ((buf.bufLenBytes : Int) - buf.writePtr)

def rbufNWriteBytes (buf : Buffer) : Nat :=
  if buf.type ≠ .ring then badArg
  else match buf.state with
    | .empty => buf.bufLenBytes
    | .full => 0
    | .normal =>
        let diff := Int.tmod ((buf.readPtr : Int) - buf.writePtr) buf.bufLenBytes
        toUnsigned 32 (if diff < 0 then diff + buf.bufLenBytes else diff)

def lbufNReadBytes (buf : Buffer) : Nat :=
  if buf.type ≠ .linear then badArg
  else toUnsigned 32 ((buf.writePtr : Int) - buf.readPtr)

def rbufNReadBytes (buf : Buffer) : Nat :=
  if buf.type ≠ .ring then badArg
  else toUnsigned 32 ((buf.bufLenBytes : Int) - rbufNWriteBytes buf)

/-- Bytes that can be written without wrapping around. -/
def rbufLinearBytesWrite (buf : Buffer) : Nat :=
  if buf.type ≠ .ring then badArg
  else
    let writePos := toUnsigned 32 buf.writePtr
    match buf.state with
    | .full => 0
    | .empty => toUnsigned 32 ((buf.bufLenBytes : Int) - writePos)
    | .normal =>
        if buf.writePtr < buf.readPtr then
          toUnsigned 32 ((buf.readPtr : Int) - buf.writePtr)
        else toUnsigned 32 ((buf.bufLenBytes : Int) - writePos)

/-- Bytes that can be read without wrapping around. -/
def rbufLinearBytesRead (buf : Buffer) : Nat :=
  if buf.type ≠ .ring then badArg
  else
    let readPos := toUnsigned 32 buf.readPtr
    match buf.state with
    | .full => toUnsigned 32 ((buf.bufLenBytes : Int) - readPos)
    | .empty => 0
    | .normal =>
        if buf.readPtr < buf.writePtr then
          toUnsigned 32 ((buf.writePtr : Int) - buf.readPtr)
        else toUnsigned 32 ((buf.bufLenBytes : Int) - readPos)

def bufferNWriteBytes (buf : Buffer) : Nat :=
  match buf.type with
  | .linear => lbufNWriteBytes buf
  | .ring => rbufNWriteBytes buf

def bufferNReadBytes (buf : Buffer) : Nat :=
  match buf.type with
  | .linear => lbufNReadBytes buf
  | .ring => rbufNReadBytes buf

/-! ## State updates -/

def setLbufState (buf : Buffer) : Buffer :=
  if buf.type ≠ .linear then buf
  else if buf.readPtr = buf.writePtr then bufferReset buf
  else if buf.writePtr = buf.bufLenBytes then { buf with state := .full }
  else { buf with state := .normal }

def setRbufState (buf : Buffer) (mode : Char) : Buffer :=
  if buf.type ≠ .ring then buf
  else
    let buf :=
      if buf.bufLenBytes ≤ buf.readPtr then
        { buf with readPtr := buf.readPtr - buf.bufLenBytes }
      else buf
    let buf :=
      if buf.bufLenBytes ≤ buf.writePtr then
        { buf with writePtr := buf.writePtr - buf.bufLenBytes }
      else buf
    if buf.readPtr ≠ buf.writePtr then { buf with state := .normal }
    else match mode with
      | 'r' => { buf with state := .empty }
      | 'w' => { buf with state := .full }
      -- any other mode leaves the switch without a case
      | _ => buf

def setBufferState (buf : Buffer) (mode : Char) : Buffer :=
  match buf.type with
  | .linear => setLbufState buf
  | .ring => setRbufState buf mode

/-! ## Notifications -/

/-- `hm_event_buffer_wake`: one record per registered event, in list order. -/
def hmEventBufferWake
    (bufEventList : List Nat)
    (ioType : BufferIoType)
    (nBytesTransferred nBytesReadable nBytesWriteable : Nat) :
    List BufferEffect :=
  bufEventList.map fun e =>
    .wake e { ioType, nBytesTransferred, nBytesReadable, nBytesWriteable }

/-- The wake-up at the end of every transfer. -/
def wakeEvents
    (buf : Buffer)
    (ioType : BufferIoType)
    (nBytes : Nat) : List BufferEffect :=
  if 0 < buf.eventList.length then
    hmEventBufferWake buf.eventList ioType nBytes
      (bufferNReadBytes buf) (bufferNWriteBytes buf)
  else []

@[simp] theorem accessesOf_wakeEvents
    (buf : Buffer)
    (ioType : BufferIoType)
    (nBytes : Nat) :
    accessesOf (wakeEvents buf ioType nBytes) = [] := by
  unfold wakeEvents
  split
  · simp [accessesOf, hmEventBufferWake]
  · rfl

/-- `buffer_signal_fds`: the count is written to every descriptor behind the
sentinel. -/
def bufferSignalFds (fdSet : List Int) (nBytes : Nat) : List BufferEffect :=
  fdSet.tail.map fun fd => .signal fd nBytes

@[simp] theorem accessesOf_bufferSignalFds
    (fdSet : List Int)
    (nBytes : Nat) :
    accessesOf (bufferSignalFds fdSet nBytes) = [] := by
  rw [accessesOf, bufferSignalFds, List.filterMap_map]
  exact List.filterMap_eq_nil_iff.mpr fun _ _ => rfl

/-! ## Transfers -/

/-- A range of the raw area touched by a `memcpy`. -/
def areaAccess (buf : Buffer) (position nBytes : Nat) : BufferEffect :=
  .access { blockSize := buf.bufLenBytes, start := position, length := nBytes }

/-- The clamp made by `PREPARE_BUF_WRITE` once the mutex is held. -/
def prepareBufWrite (buf : Buffer) (nBytes : Nat) : Nat :=
  if bufferNWriteBytes buf < nBytes then bufferNWriteBytes buf else nBytes

/-- The clamp made by `PREPARE_BUF_READ` once the mutex is held. -/
def prepareBufRead (buf : Buffer) (nBytes : Nat) : Nat :=
  if bufferNReadBytes buf < nBytes then bufferNReadBytes buf else nBytes

/-- The outcome of a call that returns before taking the mutex. -/
def returnEarly (buf : Buffer) (dest : Option (List UInt8)) (rc : Int) :
    BufferCall :=
  { buf, rc, dest, effects := [] }

/-- The outcome of a call that took the mutex first and ends with
`thread_mutex_unlock` and `return n_bytes`. -/
def returnUnlocked
    (buf : Buffer)
    (dest : Option (List UInt8))
    (nBytes : Nat)
    (effects : List BufferEffect) : BufferCall where
  buf := { buf with m := threadMutexUnlock buf.m }
  rc := toSigned 32 nBytes
  dest := dest
  effects := .lock :: effects ++ [.unlock]

/-- The common beginning of the four transfer functions: the type assertion,
the early return for an empty request, and the lock. `held` is the rest of the
function, run with the mutex held. -/
def lockedTransfer
    (buf : Buffer)
    (type : BufferType)
    (dest : Option (List UInt8))
    (nBytes : Nat)
    (held : Buffer → BufferCall) : Option BufferCall :=
  if buf.type ≠ type then some (returnEarly buf dest badArg)
  else if nBytes = 0 then some (returnEarly buf dest 0)
  else do
    let m ← threadMutexLock buf.m
    return held { buf with m := m }

/-- The common end of the four transfer functions: the state update, the
wake-up, the unlock and the return. All four tag the wake-up `WRITE`. -/
def finishTransfer
    (buf : Buffer)
    (mode : Char)
    (dest : Option (List UInt8))
    (nBytes : Nat)
    (accesses : List BufferEffect) : BufferCall :=
  let buf := setBufferState buf mode
  returnUnlocked buf dest nBytes (accesses ++ wakeEvents buf .write nBytes)

/-- `_lbuf_write` after `PREPARE_BUF_WRITE`. -/
def lbufWriteHeld
    (dest : Buffer)
    (src : List UInt8)
    (nBytes : Nat) : BufferCall :=
  finishTransfer
    { dest with
      buf := store dest.buf dest.writePtr (src.take nBytes)
      writePtr := dest.writePtr + nBytes }
    '-' none nBytes [areaAccess dest dest.writePtr nBytes]

def lbufWrite
    (dest : Buffer)
    (src : List UInt8)
    (nBytes : Nat) : Option BufferCall :=
  lockedTransfer dest .linear none nBytes fun held =>
    lbufWriteHeld held src (prepareBufWrite held nBytes)

/-- `_rbuf_write` after `PREPARE_BUF_WRITE`. -/
def rbufWriteHeld
    (dest : Buffer)
    (src : List UInt8)
    (nBytes : Nat) : BufferCall :=
  let linearBytesAvailable := rbufLinearBytesWrite dest
  if linearBytesAvailable < nBytes then
    -- split write: up to the end of the area, then from its beginning
    let remaining := nBytes - linearBytesAvailable
    finishTransfer
      { dest with
        buf :=
          store
            (store dest.buf dest.writePtr (src.take linearBytesAvailable)) 0
            ((src.drop linearBytesAvailable).take remaining)
        writePtr := remaining }
      'w' none nBytes
      [areaAccess dest dest.writePtr linearBytesAvailable,
        areaAccess dest 0 remaining]
  else
    finishTransfer
      { dest with
        buf := store dest.buf dest.writePtr (src.take nBytes)
        writePtr := dest.writePtr + nBytes }
      'w' none nBytes [areaAccess dest dest.writePtr nBytes]

def rbufWrite
    (dest : Buffer)
    (src : List UInt8)
    (nBytes : Nat) : Option BufferCall :=
  lockedTransfer dest .ring none nBytes fun held =>
    rbufWriteHeld held src (prepareBufWrite held nBytes)

/-- The recording hook of a `WITH_PROTOBUF` build. Without it, and for every
buffer no recording was added to, `r` is `NULL`. -/
def recordWrite
    (dest : Buffer)
    (src : List UInt8)
    (nBytes : Nat) : List BufferEffect :=
  match dest.r with
  | none => []
  | some r => [.record r dest.rId (src.take nBytes)]

@[simp] theorem accessesOf_recordWrite
    (dest : Buffer)
    (src : List UInt8)
    (nBytes : Nat) :
    accessesOf (recordWrite dest src nBytes) = [] := by
  unfold recordWrite
  split <;> simp

/-- The end of `buffer_write`, after the type-specific write returned. -/
def signalWrite
    (recorded : List BufferEffect)
    (call : BufferCall) : BufferCall :=
  let rc := toUnsigned 32 call.rc
  let signals :=
    if call.buf.fdHold then [] else bufferSignalFds call.buf.fdSet rc
  { call with
    rc := toSigned 32 rc
    effects := recorded ++ call.effects ++ signals }

def bufferWrite
    (dest : Buffer)
    (src : List UInt8)
    (nBytes : Nat) : Option BufferCall :=
  let written :=
    match dest.type with
    | .linear => lbufWrite dest src nBytes
    | .ring => rbufWrite dest src nBytes
  written.map (signalWrite (recordWrite dest src nBytes))

/-- A `memcpy` from the raw area to the caller's block, skipped when the
destination is `NULL`. -/
def copyOut
    (src : Buffer)
    (dest : Option (List UInt8))
    (destPosition position nBytes : Nat) : Option (List UInt8) :=
  dest.map fun block =>
    store block destPosition (load src.buf position nBytes)

/-- The range of the raw area touched by `copyOut`. -/
def copyOutAccess
    (src : Buffer)
    (dest : Option (List UInt8))
    (position nBytes : Nat) : List BufferEffect :=
  if dest.isSome then [areaAccess src position nBytes] else []

/-- `_lbuf_read` after `PREPARE_BUF_READ`. -/
def lbufReadHeld
    (src : Buffer)
    (dest : Option (List UInt8))
    (nBytes : Nat) : BufferCall :=
  finishTransfer
    { src with readPtr := src.readPtr + nBytes }
    '-' (copyOut src dest 0 src.readPtr nBytes) nBytes
    (copyOutAccess src dest src.readPtr nBytes)

def lbufRead
    (src : Buffer)
    (dest : Option (List UInt8))
    (nBytes : Nat) : Option BufferCall :=
  lockedTransfer src .linear dest nBytes fun held =>
    lbufReadHeld held dest (prepareBufRead held nBytes)

/-- `_rbuf_read` after `PREPARE_BUF_READ`. -/
def rbufReadHeld
    (src : Buffer)
    (dest : Option (List UInt8))
    (nBytes : Nat) : BufferCall :=
  let linearBytesAvailable := rbufLinearBytesRead src
  if linearBytesAvailable < nBytes then
    -- split read: up to the end of the area, then from its beginning
    let remaining := nBytes - linearBytesAvailable
    let first := copyOut src dest 0 src.readPtr linearBytesAvailable
    finishTransfer
      { src with readPtr := remaining }
      'r' (copyOut src first linearBytesAvailable 0 remaining) nBytes
      (copyOutAccess src dest src.readPtr linearBytesAvailable ++
        copyOutAccess src dest 0 remaining)
  else
    finishTransfer
      { src with readPtr := src.readPtr + nBytes }
      'r' (copyOut src dest 0 src.readPtr nBytes) nBytes
      (copyOutAccess src dest src.readPtr nBytes)

def rbufRead
    (src : Buffer)
    (dest : Option (List UInt8))
    (nBytes : Nat) : Option BufferCall :=
  lockedTransfer src .ring dest nBytes fun held =>
    rbufReadHeld held dest (prepareBufRead held nBytes)

def bufferRead
    (src : Buffer)
    (dest : Option (List UInt8))
    (nBytes : Nat) : Option BufferCall :=
  match src.type with
  | .linear => lbufRead src dest nBytes
  | .ring => rbufRead src dest nBytes

/-! ## Peeking -/

/-- `buffer_view_raw`: a copy from the raw area at `offset`, returning zero. -/
def bufferViewRaw
    (src : Buffer)
    (dest : List UInt8)
    (offset nBytes : Nat) : List UInt8 × Int :=
  (store dest 0 (load src.buf offset nBytes), 0)

def bufferView
    (src : Buffer)
    (dest : List UInt8)
    (offset nBytes : Nat) : Option BufferCall := do
  let m ← threadMutexLock src.m
  let src := { src with m := m }
  let nBytes := prepareBufRead src nBytes
  if src.type = .linear then
    -- this branch returns with the mutex held
    let (dest, rc) := bufferViewRaw src dest offset nBytes
    return {
      buf := src
      rc := rc
      dest := some dest
      effects := [.lock, areaAccess src offset nBytes] }
  else
    let linearBytesAvailable :=
      toUnsigned 32 ((rbufLinearBytesRead src : Int) - offset)
    if linearBytesAvailable < nBytes then
      let remaining := nBytes - linearBytesAvailable
      let accesses :=
        [areaAccess src (src.readPtr + offset) linearBytesAvailable,
          areaAccess src 0 remaining]
      let first := load src.buf (src.readPtr + offset) linearBytesAvailable
      let dest := store dest 0 first
      let dest := store dest linearBytesAvailable (load src.buf 0 remaining)
      return returnUnlocked src (some dest) nBytes accesses
    else
      let accesses := [areaAccess src (src.readPtr + offset) nBytes]
      let dest := store dest 0 (load src.buf (src.readPtr + offset) nBytes)
      return returnUnlocked src (some dest) nBytes accesses

/-! ## Sequences of calls -/

/-- One call that moves data through a buffer or discards it. -/
inductive BufferIo
  /-- `buffer_write(buf, src, n_bytes)`. -/
  | write (src : List UInt8) (nBytes : Nat)
  /-- `buffer_read(buf, dest, n_bytes)`; `none` is a `NULL` destination. -/
  | read (dest : Option (List UInt8)) (nBytes : Nat)
  /-- `buffer_reset(buf)`. -/
  | reset

/-- The caller's side of a call: the blocks passed hold at least the requested
number of bytes. -/
def BufferIo.Supplied : BufferIo → Prop
  | .write src nBytes => nBytes ≤ src.length
  | .read dest nBytes => ∀ block ∈ dest, nBytes ≤ block.length
  | .reset => True

/-- Execute one call. -/
def BufferIo.call (buf : Buffer) : BufferIo → Option BufferCall
  | .write src nBytes => bufferWrite buf src nBytes
  | .read dest nBytes => bufferRead buf dest nBytes
  | .reset => some (returnEarly (bufferReset buf) none 0)

/-- Execute one call as a transition that outputs its whole outcome. -/
def bufferStep (buf : Buffer) (io : BufferIo) : Option (Buffer × BufferCall) :=
  (io.call buf).map fun call => (call.buf, call)

end Hiemal
