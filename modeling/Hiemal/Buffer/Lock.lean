import Hiemal.Buffer.Outcome
import Hiemal.Foundation.Transition

/-!
# Locking discipline of the buffer operations

Writes, reads and the ring branch of `buffer_view` release the mutex they took.
The linear branch of `buffer_view` returns without releasing it, so the next
call that needs the mutex blocks. Nothing is assumed here about the pointers or
the arguments.
-/

namespace Hiemal

open Foundation

/-- One call on a buffer, peeking included. -/
inductive BufferOp
  /-- `buffer_write`, `buffer_read` or `buffer_reset`. -/
  | transfer (io : BufferIo)
  /-- `buffer_view(buf, dest, offset, n_bytes)`. -/
  | view (dest : List UInt8) (offset nBytes : Nat)

def BufferOp.IsView : BufferOp → Prop
  | .transfer _ => False
  | .view _ _ _ => True

/-- Execute one call. -/
def BufferOp.call (buf : Buffer) : BufferOp → Option BufferCall
  | .transfer io => io.call buf
  | .view dest offset nBytes => bufferView buf dest offset nBytes

/-- Execute one call as a transition that outputs its whole outcome. -/
def bufferOpStep (buf : Buffer) (op : BufferOp) :
    Option (Buffer × BufferCall) :=
  (op.call buf).map fun call => (call.buf, call)

/-- The lock and unlock operations among the effects, in program order. -/
def lockEventsOf (effects : List BufferEffect) : List BufferEffect :=
  effects.filter fun
    | .lock | .unlock => true
    | _ => false

/-- The call returned with the mutex free, having locked and unlocked it once or
not at all. -/
structure LocksOnce (call : BufferCall) : Prop where
  free : call.buf.m.locked = false
  balanced :
    lockEventsOf call.effects = [] ∨
      lockEventsOf call.effects = [.lock, .unlock]

@[simp] theorem lockEventsOf_append
    (first second : List BufferEffect) :
    lockEventsOf (first ++ second) =
      lockEventsOf first ++ lockEventsOf second :=
  List.filter_append first second

@[simp] theorem lockEventsOf_copyOutAccess
    (src : Buffer)
    (dest : Option (List UInt8))
    (position nBytes : Nat) :
    lockEventsOf (copyOutAccess src dest position nBytes) = [] := by
  cases dest <;> rfl

@[simp] theorem lockEventsOf_wakeEvents
    (buf : Buffer)
    (ioType : BufferIoType)
    (nBytes : Nat) :
    lockEventsOf (wakeEvents buf ioType nBytes) = [] := by
  unfold wakeEvents
  split
  · simp [lockEventsOf, hmEventBufferWake]
  · rfl

@[simp] theorem lockEventsOf_bufferSignalFds
    (fdSet : List Int)
    (nBytes : Nat) :
    lockEventsOf (bufferSignalFds fdSet nBytes) = [] := by
  refine List.filter_eq_nil_iff.mpr fun effect member => ?_
  obtain ⟨fd, _, rfl⟩ := List.mem_map.mp member
  simp

@[simp] theorem lockEventsOf_recordWrite
    (dest : Buffer)
    (src : List UInt8)
    (nBytes : Nat) :
    lockEventsOf (recordWrite dest src nBytes) = [] := by
  unfold recordWrite
  split <;> rfl

@[simp] theorem setBufferState_type
    (buf : Buffer)
    (mode : Char) :
    (setBufferState buf mode).type = buf.type :=
  congrArg BufferSetup.type (setup_setBufferState buf mode)

/-- The call obeys the locking discipline and leaves the buffer's type. -/
structure Releases (type : BufferType) (call : BufferCall) : Prop where
  locksOnce : LocksOnce call
  type_eq : call.buf.type = type

section Transfers

variable {buf : Buffer} {type : BufferType} {nBytes : Nat}
variable {dest : Option (List UInt8)}

theorem returnUnlocked_releases
    {effects : List BufferEffect}
    (type_eq : buf.type = type)
    (silent : lockEventsOf effects = []) :
    Releases type (returnUnlocked buf dest nBytes effects) where
  locksOnce :=
    { free := rfl
      balanced := Or.inr (by
        show lockEventsOf ([.lock] ++ effects ++ [.unlock]) = _
        rw [lockEventsOf_append, lockEventsOf_append, silent]
        rfl) }
  type_eq := type_eq

theorem finishTransfer_releases
    {mode : Char}
    {accesses : List BufferEffect}
    (type_eq : buf.type = type)
    (silent : lockEventsOf accesses = []) :
    Releases type (finishTransfer buf mode dest nBytes accesses) :=
  returnUnlocked_releases (by simpa using type_eq) (by simpa using silent)

/-- A transfer function takes the mutex only on the way to its rest. -/
theorem lockedTransfer_releases
    {expected : BufferType}
    {held : Buffer → BufferCall}
    (type_eq : buf.type = type)
    (free : buf.m.locked = false)
    (rest : ∀ m, Releases type (held { buf with m := m })) :
    ∃ call, lockedTransfer buf expected dest nBytes held = some call ∧
      Releases type call := by
  have early (rc : Int) : Releases type (returnEarly buf dest rc) :=
    { locksOnce := { free := free, balanced := Or.inl rfl }
      type_eq := type_eq }
  unfold lockedTransfer
  by_cases other : buf.type ≠ expected
  · exact ⟨_, if_pos other, early _⟩
  · rw [if_neg other]
    by_cases none : nBytes = 0
    · exact ⟨_, if_pos none, early _⟩
    · rw [if_neg none]
      exact ⟨_, by simp [threadMutexLock, free], rest { locked := true }⟩

theorem lbufWriteHeld_releases
    (type_eq : buf.type = type)
    (src : List UInt8) :
    Releases type (lbufWriteHeld buf src nBytes) :=
  finishTransfer_releases type_eq rfl

theorem lbufReadHeld_releases
    (type_eq : buf.type = type) :
    Releases type (lbufReadHeld buf dest nBytes) :=
  finishTransfer_releases type_eq (by simp)

theorem rbufWriteHeld_releases
    (type_eq : buf.type = type)
    (src : List UInt8) :
    Releases type (rbufWriteHeld buf src nBytes) := by
  unfold rbufWriteHeld
  dsimp only
  split
  · exact finishTransfer_releases type_eq rfl
  · exact finishTransfer_releases type_eq rfl

theorem rbufReadHeld_releases
    (type_eq : buf.type = type) :
    Releases type (rbufReadHeld buf dest nBytes) := by
  unfold rbufReadHeld
  dsimp only
  split
  · exact finishTransfer_releases type_eq (by simp)
  · exact finishTransfer_releases type_eq (by simp)

end Transfers

/-- Recording and signalling do not touch the mutex. -/
theorem signalWrite_releases
    {type : BufferType}
    {recorded : List BufferEffect}
    {call : BufferCall}
    (silent : lockEventsOf recorded = [])
    (releases : Releases type call) :
    Releases type (signalWrite recorded call) := by
  have signalled (fds : List Int) (fdHold : Bool) (count : Nat) :
      lockEventsOf (if fdHold then [] else bufferSignalFds fds count) = [] := by
    split
    · rfl
    · simp
  exact
    { locksOnce :=
        { free := by simpa using releases.locksOnce.free
          balanced := by
            simpa [signalWrite, silent, signalled] using
              releases.locksOnce.balanced }
      type_eq := by simpa using releases.type_eq }

/-- Every write, read or reset on a buffer whose mutex is free returns and
releases the mutex. -/
theorem BufferIo.call_releases
    {buf : Buffer}
    (free : buf.m.locked = false)
    (io : BufferIo) :
    ∃ call, io.call buf = some call ∧ Releases buf.type call := by
  cases io with
  | write src nBytes =>
      have signals {call : BufferCall} (releases : Releases buf.type call) :=
        signalWrite_releases (lockEventsOf_recordWrite buf src nBytes) releases
      cases kind : buf.type with
      | linear =>
          rw [kind] at signals
          obtain ⟨call, returns, releases⟩ :
              ∃ call, lbufWrite buf src nBytes = some call ∧
                Releases .linear call :=
            lockedTransfer_releases kind free fun _ =>
              lbufWriteHeld_releases (by exact kind) src
          exact ⟨_, by simp [BufferIo.call, bufferWrite, kind, returns],
            signals releases⟩
      | ring =>
          rw [kind] at signals
          obtain ⟨call, returns, releases⟩ :
              ∃ call, rbufWrite buf src nBytes = some call ∧
                Releases .ring call :=
            lockedTransfer_releases kind free fun _ =>
              rbufWriteHeld_releases (by exact kind) src
          exact ⟨_, by simp [BufferIo.call, bufferWrite, kind, returns],
            signals releases⟩
  | read dest nBytes =>
      cases kind : buf.type with
      | linear =>
          simp only [BufferIo.call, bufferRead, kind]
          exact lockedTransfer_releases kind free fun _ =>
            lbufReadHeld_releases kind
      | ring =>
          simp only [BufferIo.call, bufferRead, kind]
          exact lockedTransfer_releases kind free fun _ =>
            rbufReadHeld_releases kind
  | reset =>
      exact ⟨_, rfl,
        { locksOnce := { free := free, balanced := Or.inl rfl }
          type_eq := rfl }⟩

/-- Peeking into a ring buffer whose mutex is free returns and releases the
mutex. -/
theorem bufferView_ring_releases
    {buf : Buffer}
    (ring : buf.type = .ring)
    (free : buf.m.locked = false)
    (dest : List UInt8)
    (offset nBytes : Nat) :
    ∃ call, bufferView buf dest offset nBytes = some call ∧
      Releases .ring call := by
  have other : buf.type ≠ .linear := by simp [ring]
  simp only [bufferView, threadMutexLock, free, Bool.false_eq_true, if_false,
    Option.bind_eq_bind, Option.bind_some, if_neg other]
  split
  · exact ⟨_, rfl, returnUnlocked_releases ring rfl⟩
  · exact ⟨_, rfl, returnUnlocked_releases ring rfl⟩

/-- Peeking into a linear buffer whose mutex is free returns with the mutex
held. -/
theorem bufferView_linear_keeps
    {buf : Buffer}
    (linear : buf.type = .linear)
    (free : buf.m.locked = false)
    (dest : List UInt8)
    (offset nBytes : Nat) :
    ∃ call, bufferView buf dest offset nBytes = some call ∧
      call.buf.m.locked = true := by
  simp only [bufferView, threadMutexLock, free, Bool.false_eq_true, if_false,
    Option.bind_eq_bind, Option.bind_some, if_pos linear]
  exact ⟨_, rfl, rfl⟩

/-! ## Runs -/

/-- A call on a buffer whose mutex is free returns, keeps the buffer's type, and
obeys the locking discipline exactly when it is no peek into a linear buffer. -/
theorem BufferOp.call_locksOnce_iff
    {buf : Buffer}
    (free : buf.m.locked = false)
    (op : BufferOp) :
    ∃ call, op.call buf = some call ∧
      (LocksOnce call → call.buf.type = buf.type) ∧
      (LocksOnce call ↔ buf.type = .ring ∨ ¬op.IsView) := by
  cases op with
  | transfer io =>
      obtain ⟨call, returns, releases⟩ := io.call_releases free
      exact ⟨call, returns, fun _ => releases.type_eq,
        iff_of_true releases.locksOnce (Or.inr not_false)⟩
  | view dest offset nBytes =>
      cases kind : buf.type with
      | ring =>
          obtain ⟨call, returns, releases⟩ :=
            bufferView_ring_releases kind free dest offset nBytes
          exact ⟨call, returns, fun _ => releases.type_eq,
            iff_of_true releases.locksOnce (Or.inl rfl)⟩
      | linear =>
          obtain ⟨call, returns, held⟩ :=
            bufferView_linear_keeps kind free dest offset nBytes
          have keeps : ¬LocksOnce call := fun locksOnce => by
            rw [locksOnce.free] at held
            cases held
          exact ⟨call, returns, fun locksOnce => absurd locksOnce keeps,
            iff_of_false keeps (by simp [BufferOp.IsView])⟩

/-- A step obeys the locking discipline exactly when it is no peek into a linear
buffer. -/
theorem bufferOpStep_locksOnce_iff
    (type : BufferType)
    (buf : Buffer)
    (op : BufferOp)
    (related : buf.type = type ∧ buf.m.locked = false) :
    (∃ next call, bufferOpStep buf op = some (next, call) ∧ LocksOnce call) ↔
      (type = .ring ∨ ¬op.IsView) := by
  obtain ⟨rfl, free⟩ := related
  obtain ⟨call, returns, _, locksOnce_iff⟩ := op.call_locksOnce_iff free
  rw [← locksOnce_iff]
  simp [bufferOpStep, returns]

/-- Steps that obey the locking discipline keep the buffer's type and leave the
mutex free for the next call. -/
theorem bufferOpStep_preserves
    (type : BufferType)
    (buf : Buffer)
    (op : BufferOp)
    (next : Buffer)
    (call : BufferCall)
    (related : buf.type = type ∧ buf.m.locked = false)
    (stepped : bufferOpStep buf op = some (next, call))
    (locksOnce : LocksOnce call) :
    next.type = type ∧ next.m.locked = false := by
  obtain ⟨rfl, free⟩ := related
  obtain ⟨_, returns, type_eq, _⟩ := op.call_locksOnce_iff free
  simp only [bufferOpStep, returns, Option.map_some, Option.some.injEq,
    Prod.mk.injEq] at stepped
  obtain ⟨rfl, rfl⟩ := stepped
  exact ⟨type_eq locksOnce, locksOnce.free⟩

/-- A sequence of calls on a buffer whose mutex is free never blocks and
releases the mutex after each call exactly when the buffer is a ring buffer or
no call peeks. -/
theorem bufferOps_releaseMutex_iff
    (buf : Buffer)
    (free : buf.m.locked = false)
    (ops : List BufferOp) :
    RunsWith bufferOpStep (fun _ => LocksOnce) buf ops ↔
      buf.type = .ring ∨ ∀ op ∈ ops, ¬op.IsView := by
  rw [runsWith_iff_forall (bufferOpStep_locksOnce_iff buf.type)
    (bufferOpStep_preserves buf.type) ops buf ⟨rfl, free⟩]
  by_cases ring : buf.type = .ring <;> simp [ring]

/-- Peeking twice into a ring buffer that holds two bytes, and once reading from
it. -/
theorem bufferOps_releaseMutex_iff_ring :
    RunsWith bufferOpStep (fun _ => LocksOnce) (bufferInit 4 .ring)
        [.transfer (.write [1, 2] 2), .view [0, 0] 0 2, .view [0] 1 1,
          .transfer (.read none 2)] ↔
      (bufferInit 4 .ring).type = .ring ∨
        ∀ op ∈ ([.transfer (.write [1, 2] 2), .view [0, 0] 0 2, .view [0] 1 1,
          .transfer (.read none 2)] : List BufferOp), ¬op.IsView :=
  bufferOps_releaseMutex_iff (bufferInit 4 .ring) rfl _

/-- A read after a peek into a linear buffer blocks on the mutex that the peek
left locked. -/
theorem bufferView_linear_blocks :
    runSteps bufferOpStep (bufferInit 4 .linear)
          [.transfer (.write [1] 1), .view [0] 0 1, .transfer (.read none 1)] =
        none ∧
      ¬RunsWith bufferOpStep (fun _ => LocksOnce) (bufferInit 4 .linear)
        [.transfer (.write [1] 1), .view [0] 0 1,
          .transfer (.read none 1)] := by
  have blocks :
      runSteps bufferOpStep (bufferInit 4 .linear)
          [.transfer (.write [1] 1), .view [0] 0 1, .transfer (.read none 1)] =
        none := by
    rfl
  refine ⟨blocks, ?_⟩
  intro runs
  obtain ⟨final, calls, ran, _⟩ := runs.returns
  rw [blocks] at ran
  cases ran

end Hiemal
