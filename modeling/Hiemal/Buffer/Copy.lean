import Hiemal.Buffer.Lock

/-!
# Copies of a buffer

`buffer_copy` takes over the raw area, both positions and the state flag. It leaves
out what is attached to its source: the recording, the descriptors, the events, and
the mutex, which may be held. This module says that nothing else is lost: whatever
is called on the copy is served as the source would serve it, where a call on the source
does not block on a full pipe or descriptor, which the copy has none of.
-/

namespace Hiemal

open Foundation

/-- `buffer_copy`. -/
def bufferCopy (srcBuf : Buffer) : Buffer :=
  let nBytes := srcBuf.bufLenBytes
  let newBuf := bufferInit nBytes srcBuf.type
  { newBuf with
    buf := store newBuf.buf 0 (load srcBuf.buf 0 nBytes)
    readPtr := srcBuf.readPtr
    writePtr := srcBuf.writePtr
    state := srcBuf.state }

/-- The buffer with nothing attached to it. -/
def Buffer.detached (buf : Buffer) : Buffer :=
  { buf with
    extBuf := false
    r := none
    rId := 0
    fdSet := bufferFdSetInit
    fdHold := false
    eventList := [] }

/-- The effect stays inside the buffer: nothing that is attached to it learns of
it. -/
def BufferEffect.Stays : BufferEffect → Bool
  | .lock | .unlock | .access _ => true
  | .wake _ _ | .signal _ _ | .record _ _ _ => false

/-- What remains of a call when nothing is attached to the buffer. -/
def BufferCall.detached (call : BufferCall) : BufferCall where
  buf := call.buf.detached
  rc := call.rc
  dest := call.dest
  effects := call.effects.filter BufferEffect.Stays

/-- A copy is its source with a free mutex and nothing attached. -/
theorem bufferCopy_eq
    {srcBuf : Buffer}
    (whole : srcBuf.buf.length = srcBuf.bufLenBytes) :
    bufferCopy srcBuf =
      { srcBuf with m := { locked := false } }.detached := by
  have length : (load srcBuf.buf 0 srcBuf.bufLenBytes).length =
      (List.replicate srcBuf.bufLenBytes (0 : UInt8)).length := by
    rw [length_load (by omega), List.length_replicate]
  have area : store (List.replicate srcBuf.bufLenBytes 0) 0
      (load srcBuf.buf 0 srcBuf.bufLenBytes) = srcBuf.buf := by
    rw [store_of_length_eq length, load_zero,
      List.take_of_length_le (Nat.le_of_eq whole)]
  simp only [bufferCopy, bufferInit, bufferInitExt, area, Buffer.detached]

/-! ## Calls on a detached buffer -/

@[simp] theorem filter_stays_areaAccess
    (buf : Buffer)
    (position nBytes : Nat)
    (effects : List BufferEffect) :
    (areaAccess buf position nBytes :: effects).filter BufferEffect.Stays =
      areaAccess buf position nBytes :: effects.filter BufferEffect.Stays := rfl

@[simp] theorem filter_stays_copyOutAccess
    (src : Buffer)
    (dest : Option (List UInt8))
    (position nBytes : Nat) :
    (copyOutAccess src dest position nBytes).filter BufferEffect.Stays =
      copyOutAccess src dest position nBytes := by
  cases dest <;> rfl

@[simp] theorem filter_stays_wakeEvents
    (buf : Buffer)
    (ioType : BufferIoType)
    (nBytes : Nat) :
    (wakeEvents buf ioType nBytes).filter BufferEffect.Stays = [] := by
  unfold wakeEvents
  split
  · refine List.filter_eq_nil_iff.mpr fun effect member => ?_
    obtain ⟨e, _, rfl⟩ := List.mem_map.mp member
    exact Bool.false_ne_true
  · rfl

@[simp] theorem filter_stays_bufferSignalFds
    (fdSet : List Int)
    (nBytes : Nat) :
    (bufferSignalFds fdSet nBytes).filter BufferEffect.Stays = [] := by
  refine List.filter_eq_nil_iff.mpr fun effect member => ?_
  obtain ⟨fd, _, rfl⟩ := List.mem_map.mp member
  exact Bool.false_ne_true

@[simp] theorem filter_stays_recordWrite
    (dest : Buffer)
    (src : List UInt8)
    (nBytes : Nat) :
    (recordWrite dest src nBytes).filter BufferEffect.Stays = [] := by
  unfold recordWrite
  split <;> rfl

theorem setLbufState_detached (buf : Buffer) :
    setLbufState buf.detached = (setLbufState buf).detached := by
  simp only [setLbufState, apply_ite Buffer.detached]
  rfl

theorem setRbufState_detached (buf : Buffer) (mode : Char) :
    setRbufState buf.detached mode = (setRbufState buf mode).detached := by
  have read (buf : Buffer) :
      (if buf.detached.bufLenBytes ≤ buf.detached.readPtr then
        { buf.detached with
          readPtr := buf.detached.readPtr - buf.detached.bufLenBytes }
      else buf.detached) =
        (if buf.bufLenBytes ≤ buf.readPtr then
          { buf with readPtr := buf.readPtr - buf.bufLenBytes }
        else buf).detached := by
    rw [apply_ite Buffer.detached]
    rfl
  have write (buf : Buffer) :
      (if buf.detached.bufLenBytes ≤ buf.detached.writePtr then
        { buf.detached with
          writePtr := buf.detached.writePtr - buf.detached.bufLenBytes }
      else buf.detached) =
        (if buf.bufLenBytes ≤ buf.writePtr then
          { buf with writePtr := buf.writePtr - buf.bufLenBytes }
        else buf).detached := by
    rw [apply_ite Buffer.detached]
    rfl
  unfold setRbufState
  rw [read]
  dsimp only
  rw [write]
  by_cases other : buf.type ≠ .ring
  · rw [if_pos other]
    exact if_pos other
  · rw [if_neg other]
    apply (if_neg other).trans
    symm
    apply (apply_ite Buffer.detached _ _ _).trans
    congr 1
    split <;> rfl

theorem setBufferState_detached (buf : Buffer) (mode : Char) :
    setBufferState buf.detached mode = (setBufferState buf mode).detached := by
  have kind : buf.detached.type = buf.type := rfl
  unfold setBufferState
  rw [kind]
  cases buf.type with
  | linear => exact setLbufState_detached buf
  | ring => exact setRbufState_detached buf mode

theorem returnUnlocked_detached
    (buf : Buffer)
    (dest : Option (List UInt8))
    (nBytes : Nat)
    (effects : List BufferEffect) :
    (returnUnlocked buf dest nBytes effects).detached =
      returnUnlocked buf.detached dest nBytes
        (effects.filter BufferEffect.Stays) := by
  have stays :
      (BufferEffect.lock :: effects ++ [BufferEffect.unlock]).filter BufferEffect.Stays =
      .lock :: effects.filter BufferEffect.Stays ++ [.unlock] := by
    rw [List.cons_append, List.filter_cons_of_pos rfl, List.filter_append]
    rfl
  simp only [returnUnlocked, BufferCall.detached, stays, Buffer.detached]

/-- The end of a transfer wakes nothing. -/
theorem finishTransfer_detached
    (buf : Buffer)
    (mode : Char)
    (dest : Option (List UInt8))
    (nBytes : Nat)
    {accesses : List BufferEffect}
    (stays : accesses.filter BufferEffect.Stays = accesses) :
    finishTransfer buf.detached mode dest nBytes accesses =
      (finishTransfer buf mode dest nBytes accesses).detached := by
  have silent :
      wakeEvents (setBufferState buf mode).detached .write nBytes = [] := rfl
  simp only [finishTransfer, setBufferState_detached, returnUnlocked_detached,
    List.filter_append, filter_stays_wakeEvents, stays, silent]

theorem lockedTransfer_detached
    {buf : Buffer}
    {type : BufferType}
    {dest : Option (List UInt8)}
    {nBytes : Nat}
    {held : Buffer → BufferCall}
    (rest : ∀ buf, held buf.detached = (held buf).detached) :
    lockedTransfer buf.detached type dest nBytes held =
      (lockedTransfer buf type dest nBytes held).map BufferCall.detached := by
  change (if buf.type ≠ type then some (returnEarly buf.detached dest badArg)
    else if nBytes = 0 then some (returnEarly buf.detached dest 0)
    else do
      let m ← threadMutexLock buf.m
      return held { buf with m := m }.detached) = _
  unfold lockedTransfer
  split_ifs
  · rfl
  · rfl
  · cases threadMutexLock buf.m with
    | none => rfl
    | some m => exact congrArg some (rest _)

theorem lbufWriteHeld_detached (dest : Buffer) (src : List UInt8) (nBytes : Nat) :
    lbufWriteHeld dest.detached src nBytes =
      (lbufWriteHeld dest src nBytes).detached :=
  finishTransfer_detached
    { dest with
      buf := store dest.buf dest.writePtr (src.take nBytes)
      writePtr := dest.writePtr + nBytes } _ _ _ rfl

theorem lbufReadHeld_detached
    (src : Buffer)
    (dest : Option (List UInt8))
    (nBytes : Nat) :
    lbufReadHeld src.detached dest nBytes =
      (lbufReadHeld src dest nBytes).detached :=
  finishTransfer_detached { src with readPtr := src.readPtr + nBytes } _ _ _
    (filter_stays_copyOutAccess src dest _ _)

theorem rbufWriteHeld_detached (dest : Buffer) (src : List UInt8) (nBytes : Nat) :
    rbufWriteHeld dest.detached src nBytes =
      (rbufWriteHeld dest src nBytes).detached := by
  have linear : rbufLinearBytesWrite dest.detached = rbufLinearBytesWrite dest :=
    rfl
  simp only [rbufWriteHeld, linear]
  split
  · exact finishTransfer_detached
      { dest with
        buf :=
          store
            (store dest.buf dest.writePtr
              (src.take (rbufLinearBytesWrite dest))) 0
            ((src.drop (rbufLinearBytesWrite dest)).take
              (nBytes - rbufLinearBytesWrite dest))
        writePtr := nBytes - rbufLinearBytesWrite dest } _ _ _ rfl
  · exact finishTransfer_detached
      { dest with
        buf := store dest.buf dest.writePtr (src.take nBytes)
        writePtr := dest.writePtr + nBytes } _ _ _ rfl

theorem rbufReadHeld_detached
    (src : Buffer)
    (dest : Option (List UInt8))
    (nBytes : Nat) :
    rbufReadHeld src.detached dest nBytes =
      (rbufReadHeld src dest nBytes).detached := by
  have linear : rbufLinearBytesRead src.detached = rbufLinearBytesRead src := rfl
  simp only [rbufReadHeld, linear]
  split
  · refine finishTransfer_detached
      { src with readPtr := nBytes - rbufLinearBytesRead src } _ _ _ ?_
    rw [List.filter_append, filter_stays_copyOutAccess,
      filter_stays_copyOutAccess]
  · exact finishTransfer_detached
      { src with readPtr := src.readPtr + nBytes } _ _ _
      (filter_stays_copyOutAccess src dest _ _)

/-- Recording and signalling go nowhere. -/
theorem signalWrite_detached
    (dest : Buffer)
    (src : List UInt8)
    (nBytes : Nat)
    (call : BufferCall) :
    signalWrite (recordWrite dest.detached src nBytes) call.detached =
      (signalWrite (recordWrite dest src nBytes) call).detached := by
  have signals (fdHold : Bool) (fdSet : List Int) (rc : Nat) :
      (if fdHold then [] else bufferSignalFds fdSet rc).filter
        BufferEffect.Stays = [] := by
    split
    · rfl
    · exact filter_stays_bufferSignalFds fdSet rc
  obtain ⟨buf, rc, written, effects⟩ := call
  have unrecorded : recordWrite dest.detached src nBytes = [] := rfl
  rw [unrecorded]
  simp only [signalWrite, BufferCall.detached, List.filter_append,
    filter_stays_recordWrite, signals, List.nil_append, List.append_nil]
  exact congrArg (BufferCall.mk _ _ _) (List.append_nil _)

theorem BufferIo.call_detached (buf : Buffer) (io : BufferIo) :
    io.call buf.detached = (io.call buf).map BufferCall.detached := by
  cases io with
  | write src nBytes =>
      have kind : buf.detached.type = buf.type := rfl
      simp only [BufferIo.call, bufferWrite, kind, Option.map_map]
      have signals :
          signalWrite (recordWrite buf.detached src nBytes) ∘ BufferCall.detached =
            BufferCall.detached ∘ signalWrite (recordWrite buf src nBytes) := by
        funext call
        exact signalWrite_detached buf src nBytes call
      cases buf.type with
      | linear =>
          have transfers : lbufWrite buf.detached src nBytes =
              (lbufWrite buf src nBytes).map BufferCall.detached :=
            lockedTransfer_detached fun held =>
              lbufWriteHeld_detached held src (prepareBufWrite held nBytes)
          rw [transfers, Option.map_map, signals]
      | ring =>
          have transfers : rbufWrite buf.detached src nBytes =
              (rbufWrite buf src nBytes).map BufferCall.detached :=
            lockedTransfer_detached fun held =>
              rbufWriteHeld_detached held src (prepareBufWrite held nBytes)
          rw [transfers, Option.map_map, signals]
  | read dest nBytes =>
      have kind : buf.detached.type = buf.type := rfl
      simp only [BufferIo.call, bufferRead, kind]
      cases buf.type with
      | linear =>
          exact lockedTransfer_detached fun held =>
            lbufReadHeld_detached held dest (prepareBufRead held nBytes)
      | ring =>
          exact lockedTransfer_detached fun held =>
            rbufReadHeld_detached held dest (prepareBufRead held nBytes)
  | reset => rfl

theorem bufferView_detached
    (buf : Buffer)
    (dest : List UInt8)
    (offset nBytes : Nat) :
    bufferView buf.detached dest offset nBytes =
      (bufferView buf dest offset nBytes).map BufferCall.detached := by
  have mutex : threadMutexLock buf.detached.m = threadMutexLock buf.m := rfl
  unfold bufferView
  rw [mutex]
  cases threadMutexLock buf.m with
  | none => rfl
  | some m =>
      have clamp :
          prepareBufRead { buf.detached with m := m } nBytes =
            prepareBufRead { buf with m := m } nBytes := rfl
      have linear :
          rbufLinearBytesRead { buf.detached with m := m } =
            rbufLinearBytesRead { buf with m := m } := rfl
      simp only [Option.bind_eq_bind, Option.bind_some, Option.pure_def, clamp,
        linear]
      by_cases kind : buf.type = .linear
      · have same : buf.detached.type = .linear := kind
        rw [if_pos same, if_pos kind]
        rfl
      · have same : ¬buf.detached.type = .linear := kind
        rw [if_neg same, if_neg kind, apply_ite (Option.map BufferCall.detached),
          Option.map_some, Option.map_some, returnUnlocked_detached,
          returnUnlocked_detached]
        rfl

theorem bufferOpStep_detached (buf : Buffer) (op : BufferOp) :
    bufferOpStep buf.detached op =
      (bufferOpStep buf op).map (Prod.map Buffer.detached BufferCall.detached) := by
  have served : op.call buf.detached =
      (op.call buf).map BufferCall.detached := by
    cases op with
    | transfer io => exact io.call_detached buf
    | view dest offset nBytes => exact bufferView_detached buf dest offset nBytes
  rw [bufferOpStep, bufferOpStep, served, Option.map_map, Option.map_map]
  rfl

/-! ## Runs -/

/-- A copy serves every sequence of calls as its source would with its mutex free:
it returns from as many of them, with the same counts and the same bytes out of the
same cells, and it records nothing, signals no descriptor and wakes no event. -/
theorem bufferCopy_serves
    (buf : Buffer)
    (whole : buf.buf.length = buf.bufLenBytes)
    (ops : List BufferOp) :
    runSteps bufferOpStep (bufferCopy buf) ops =
      (runSteps bufferOpStep { buf with m := { locked := false } } ops).map
        (Prod.map Buffer.detached (List.map BufferCall.detached)) := by
  rw [bufferCopy_eq whole]
  exact runSteps_hom bufferOpStep_detached _ ops

/-- The copy of a linear buffer whose mutex a view left held. -/
theorem bufferCopy_serves_held :
    runSteps bufferOpStep
        (bufferCopy
          { bufferInit 2 .linear with eventList := [7], m := { locked := true } })
        [.transfer (.write [1, 2] 2), .transfer (.read (some [0]) 1)] =
      (runSteps bufferOpStep
          { bufferInit 2 .linear with eventList := [7], m := { locked := false } }
          [.transfer (.write [1, 2] 2), .transfer (.read (some [0]) 1)]).map
        (Prod.map Buffer.detached (List.map BufferCall.detached)) :=
  bufferCopy_serves
    { bufferInit 2 .linear with eventList := [7], m := { locked := true } } rfl _

end Hiemal
