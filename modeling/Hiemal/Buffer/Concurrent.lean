import Hiemal.Buffer.Effects
import Hiemal.Buffer.Room
import Hiemal.Foundation.Monitor

/-!
# Transfers of several threads

`_lbuf_write`, `_rbuf_write`, `_lbuf_read` and `_rbuf_read` statement by statement,
for threads that call `buffer_write` and `buffer_read` on one buffer. A write passes
its data to the recording before it takes the mutex, and signals the descriptors
after it gave it back.

Here a record for an event always finds room in its pipe. A full pipe only removes runs,
so this is enough for what holds in every run.
-/

namespace Hiemal

open Foundation

/-! ## The statements of a transfer -/

/-- A call that transfers data under the mutex. -/
inductive BufferTransfer
  /-- `buffer_write(buf, src, n_bytes)`. -/
  | write (src : List UInt8) (nBytes : Nat)
  /-- `buffer_read(buf, dest, n_bytes)`; `none` is a `NULL` destination. -/
  | read (dest : Option (List UInt8)) (nBytes : Nat)

/-- The transfer as a call made at once. -/
def BufferTransfer.io : BufferTransfer → BufferIo
  | .write src nBytes => .write src nBytes
  | .read dest nBytes => .read dest nBytes

/-- The variables of a transfer, with what it passed to the recording. -/
structure TransferVars where
  transfer : BufferTransfer
  src : List UInt8
  dest : Option (List UInt8)
  nBytes : Nat
  nBytesAvailable : Nat
  linearBytesAvailable : Nat
  recorded : List BufferEffect

/-- `split_write` and `split_read`: the range wraps around. -/
def TransferVars.Split (vars : TransferVars) : Prop :=
  vars.linearBytesAvailable < vars.nBytes

instance (vars : TransferVars) : Decidable vars.Split :=
  inferInstanceAs (Decidable (_ < _))

/-- What a transfer returns, with what it does while it does not hold the mutex. -/
structure TransferReply where
  rc : Int
  dest : Option (List UInt8)
  recorded : List BufferEffect
  signals : List BufferEffect

/-- A statement of a transfer. -/
abbrev TransferStatement := Statement Buffer TransferVars BufferEffect

/-- `n_bytes_available = buffer_n_write_bytes(buf)`. -/
def countWritable : TransferStatement := fun buf vars =>
  (buf, { vars with nBytesAvailable := bufferNWriteBytes buf }, [])

/-- `n_bytes_available = buffer_n_read_bytes(buf)`. -/
def countReadable : TransferStatement := fun buf vars =>
  (buf, { vars with nBytesAvailable := bufferNReadBytes buf }, [])

/-- `if (n_bytes_available < n_bytes) n_bytes = n_bytes_available`. -/
def limitBytes : TransferStatement := fun buf vars =>
  (buf,
    { vars with
      nBytes :=
        if vars.nBytesAvailable < vars.nBytes then vars.nBytesAvailable
        else vars.nBytes },
    [])

/-- `linear_bytes_available = _rbuf_linear_bytes_write(dest)`. -/
def countLinearWritable : TransferStatement := fun buf vars =>
  (buf, { vars with linearBytesAvailable := rbufLinearBytesWrite buf }, [])

/-- `linear_bytes_available = _rbuf_linear_bytes_read(src)`. -/
def countLinearReadable : TransferStatement := fun buf vars =>
  (buf, { vars with linearBytesAvailable := rbufLinearBytesRead buf }, [])

/-- `memcpy(dest->write_ptr, src, n_bytes)`. -/
def copyIn : TransferStatement := fun buf vars =>
  ({ buf with buf := store buf.buf buf.writePtr (vars.src.take vars.nBytes) },
    vars, [areaAccess buf buf.writePtr vars.nBytes])

/-- The first `memcpy` of a split write, or the only one. -/
def copyInFirst : TransferStatement := fun buf vars =>
  if vars.Split then
    ({ buf with
        buf :=
          store buf.buf buf.writePtr (vars.src.take vars.linearBytesAvailable) },
      vars, [areaAccess buf buf.writePtr vars.linearBytesAvailable])
  else copyIn buf vars

/-- The second `memcpy` of a split write. -/
def copyInRemaining : TransferStatement := fun buf vars =>
  if vars.Split then
    let remaining := vars.nBytes - vars.linearBytesAvailable
    ({ buf with
        buf :=
          store buf.buf 0
            ((vars.src.drop vars.linearBytesAvailable).take remaining) },
      vars, [areaAccess buf 0 remaining])
  else (buf, vars, [])

/-- `dest->write_ptr += n_bytes`. -/
def advanceWritePtr : TransferStatement := fun buf vars =>
  ({ buf with writePtr := buf.writePtr + vars.nBytes }, vars, [])

/-- The new write pointer of a ring buffer. -/
def wrapWritePtr : TransferStatement := fun buf vars =>
  if vars.Split then
    ({ buf with writePtr := vars.nBytes - vars.linearBytesAvailable }, vars, [])
  else advanceWritePtr buf vars

/-- `if (dest != NULL) memcpy(dest, src->read_ptr, n_bytes)`. -/
def copyOutAll : TransferStatement := fun buf vars =>
  (buf, { vars with dest := copyOut buf vars.dest 0 buf.readPtr vars.nBytes },
    copyOutAccess buf vars.dest buf.readPtr vars.nBytes)

/-- The first `memcpy` of a split read, or the only one. -/
def copyOutFirst : TransferStatement := fun buf vars =>
  if vars.Split then
    (buf,
      { vars with
        dest := copyOut buf vars.dest 0 buf.readPtr vars.linearBytesAvailable },
      copyOutAccess buf vars.dest buf.readPtr vars.linearBytesAvailable)
  else copyOutAll buf vars

/-- The second `memcpy` of a split read. -/
def copyOutRemaining : TransferStatement := fun buf vars =>
  if vars.Split then
    let remaining := vars.nBytes - vars.linearBytesAvailable
    (buf,
      { vars with
        dest := copyOut buf vars.dest vars.linearBytesAvailable 0 remaining },
      copyOutAccess buf vars.dest 0 remaining)
  else (buf, vars, [])

/-- `src->read_ptr += n_bytes`. -/
def advanceReadPtr : TransferStatement := fun buf vars =>
  ({ buf with readPtr := buf.readPtr + vars.nBytes }, vars, [])

/-- The new read pointer of a ring buffer. -/
def wrapReadPtr : TransferStatement := fun buf vars =>
  if vars.Split then
    ({ buf with readPtr := vars.nBytes - vars.linearBytesAvailable }, vars, [])
  else advanceReadPtr buf vars

/-- `set_buffer_state(buf, mode)`. -/
def updateState (mode : Char) : TransferStatement := fun buf vars =>
  (setBufferState buf mode, vars, [])

/-- `write(buf_pipe_write, &buf_io_info, ...)`: one turn of the loop of
`hm_event_buffer_wake`. -/
def wakeEvent (e : Nat) : TransferStatement := fun buf vars =>
  (buf, vars,
    hmEventBufferWake [e] .write vars.nBytes (bufferNReadBytes buf)
      (bufferNWriteBytes buf))

/-- `_lbuf_write` or `_rbuf_write` between lock and wake-up. -/
def writeBytes : BufferType → List TransferStatement
  | .linear =>
      [countWritable, limitBytes, copyIn, advanceWritePtr, updateState '-']
  | .ring =>
      [countWritable, limitBytes, countLinearWritable, copyInFirst,
        copyInRemaining, wrapWritePtr, updateState 'w']

/-- `_lbuf_read` or `_rbuf_read` between lock and wake-up. -/
def readBytes : BufferType → List TransferStatement
  | .linear =>
      [countReadable, limitBytes, copyOutAll, advanceReadPtr, updateState '-']
  | .ring =>
      [countReadable, limitBytes, countLinearReadable, copyOutFirst,
        copyOutRemaining, wrapReadPtr, updateState 'r']

/-- What a write passes to the recording, read off the setup of the buffer. -/
def BufferSetup.recordWrite
    (setup : BufferSetup)
    (src : List UInt8)
    (nBytes : Nat) : List BufferEffect :=
  match setup.r with
  | none => []
  | some r => [.record r setup.rId (src.take nBytes)]

/-- The variables of a transfer when it is about to take the mutex. -/
def transferVars (setup : BufferSetup) (transfer : BufferTransfer) :
    TransferVars :=
  match transfer with
  | .write src nBytes =>
      { transfer, src, nBytes
        dest := none
        nBytesAvailable := 0
        linearBytesAvailable := 0
        recorded := setup.recordWrite src nBytes }
  | .read dest nBytes =>
      { transfer, dest, nBytes
        src := []
        nBytesAvailable := 0
        linearBytesAvailable := 0
        recorded := [] }

/-- The statements of a transfer up to the wake-up. -/
def BufferTransfer.bytesBody
    (type : BufferType) : BufferTransfer → List TransferStatement
  | .write _ _ => writeBytes type
  | .read _ _ => readBytes type

/-- The statements of a transfer between lock and unlock: the registered events are
woken at the end. -/
def transferBody
    (setup : BufferSetup)
    (transfer : BufferTransfer) : List TransferStatement :=
  transfer.bytesBody setup.type ++ setup.eventList.map wakeEvent

/-- `buffer_write` or `buffer_read` up to the lock: an empty request returns. -/
def transferEnter
    (setup : BufferSetup)
    (transfer : BufferTransfer) : Entry Buffer TransferVars BufferEffect :=
  let vars := transferVars setup transfer
  if vars.nBytes = 0 then .skip vars
  else .critical vars (transferBody setup transfer)

/-- `buffer_write` or `buffer_read` after the unlock. -/
def transferLeave (setup : BufferSetup) (vars : TransferVars) : TransferReply :=
  let rc := toSigned 32 vars.nBytes
  match vars.transfer with
  | .write _ _ =>
      let rc := toUnsigned 32 rc
      { rc := toSigned 32 rc
        dest := vars.dest
        recorded := vars.recorded
        signals := if setup.fdHold then [] else bufferSignalFds setup.fdSet rc }
  | .read _ _ =>
      { rc := rc
        dest := vars.dest
        recorded := vars.recorded
        signals := [] }

/-! ## The buffer as an object under one mutex -/

/-- A statement that touches neither the setup nor the mutex, nor what the call is
and has recorded. -/
structure Confined (statement : TransferStatement) : Prop where
  setup : ∀ buf vars, (statement buf vars).1.setup = buf.setup
  mutex : ∀ buf vars, (statement buf vars).1.m = buf.m
  transfer : ∀ buf vars, (statement buf vars).2.1.transfer = vars.transfer
  recorded : ∀ buf vars, (statement buf vars).2.1.recorded = vars.recorded

@[simp] theorem setBufferState_m (buf : Buffer) (mode : Char) :
    (setBufferState buf mode).m = buf.m := by
  unfold setBufferState
  split
  · unfold setLbufState bufferReset
    split_ifs <;> rfl
  · unfold setRbufState
    dsimp only
    split_ifs <;> first | rfl | (split <;> rfl)

/-- A statement that changes variables. -/
theorem confined_vars
    {change : Buffer → TransferVars → TransferVars}
    {out : Buffer → TransferVars → List BufferEffect}
    (transfer : ∀ buf vars, (change buf vars).transfer = vars.transfer)
    (recorded : ∀ buf vars, (change buf vars).recorded = vars.recorded) :
    Confined fun buf vars => (buf, change buf vars, out buf vars) where
  setup _ _ := rfl
  mutex _ _ := rfl
  transfer := transfer
  recorded := recorded

/-- A statement that changes the buffer. -/
theorem confined_buffer
    {change : Buffer → TransferVars → Buffer}
    {out : Buffer → TransferVars → List BufferEffect}
    (setup : ∀ buf vars, (change buf vars).setup = buf.setup)
    (mutex : ∀ buf vars, (change buf vars).m = buf.m) :
    Confined fun buf vars => (change buf vars, vars, out buf vars) where
  setup := setup
  mutex := mutex
  transfer _ _ := rfl
  recorded _ _ := rfl

/-- A statement that does different things for a range that wraps around. -/
theorem confined_split
    {wrapped straight : TransferStatement}
    (confinedWrapped : Confined wrapped)
    (confinedStraight : Confined straight) :
    Confined fun buf vars =>
      if vars.Split then wrapped buf vars else straight buf vars where
  setup buf vars := by
    split
    · exact confinedWrapped.setup buf vars
    · exact confinedStraight.setup buf vars
  mutex buf vars := by
    split
    · exact confinedWrapped.mutex buf vars
    · exact confinedStraight.mutex buf vars
  transfer buf vars := by
    split
    · exact confinedWrapped.transfer buf vars
    · exact confinedStraight.transfer buf vars
  recorded buf vars := by
    split
    · exact confinedWrapped.recorded buf vars
    · exact confinedStraight.recorded buf vars

theorem confined_copyIn : Confined copyIn :=
  confined_buffer (fun _ _ => rfl) fun _ _ => rfl

theorem confined_copyOutAll : Confined copyOutAll :=
  confined_vars (fun _ _ => rfl) fun _ _ => rfl

theorem confined_advanceWritePtr : Confined advanceWritePtr :=
  confined_buffer (fun _ _ => rfl) fun _ _ => rfl

theorem confined_advanceReadPtr : Confined advanceReadPtr :=
  confined_buffer (fun _ _ => rfl) fun _ _ => rfl

theorem confined_limitBytes : Confined limitBytes :=
  confined_vars (fun _ _ => rfl) fun _ _ => rfl

theorem confined_updateState (mode : Char) : Confined (updateState mode) :=
  confined_buffer (fun buf _ => setup_setBufferState buf mode)
    fun buf _ => setBufferState_m buf mode

theorem confined_wakeEvent (e : Nat) : Confined (wakeEvent e) :=
  confined_vars (fun _ _ => rfl) fun _ _ => rfl

theorem confined_writeBytes (type : BufferType) :
    ∀ statement ∈ writeBytes type, Confined statement := by
  have counts : Confined countWritable :=
    confined_vars (fun _ _ => rfl) fun _ _ => rfl
  cases type with
  | linear =>
      simp only [writeBytes, List.forall_mem_cons]
      exact ⟨counts, confined_limitBytes, confined_copyIn, confined_advanceWritePtr,
        confined_updateState '-', by simp⟩
  | ring =>
      have countsLinear : Confined countLinearWritable :=
        confined_vars (fun _ _ => rfl) fun _ _ => rfl
      have first : Confined copyInFirst :=
        confined_split (confined_buffer (fun _ _ => rfl) fun _ _ => rfl)
          confined_copyIn
      have remaining : Confined copyInRemaining :=
        confined_split (confined_buffer (fun _ _ => rfl) fun _ _ => rfl)
          (confined_vars (fun _ _ => rfl) fun _ _ => rfl)
      have wraps : Confined wrapWritePtr :=
        confined_split (confined_buffer (fun _ _ => rfl) fun _ _ => rfl)
          confined_advanceWritePtr
      simp only [writeBytes, List.forall_mem_cons]
      exact ⟨counts, confined_limitBytes, countsLinear, first, remaining, wraps,
        confined_updateState 'w', by simp⟩

theorem confined_readBytes (type : BufferType) :
    ∀ statement ∈ readBytes type, Confined statement := by
  have counts : Confined countReadable :=
    confined_vars (fun _ _ => rfl) fun _ _ => rfl
  cases type with
  | linear =>
      simp only [readBytes, List.forall_mem_cons]
      exact ⟨counts, confined_limitBytes, confined_copyOutAll,
        confined_advanceReadPtr, confined_updateState '-', by simp⟩
  | ring =>
      have countsLinear : Confined countLinearReadable :=
        confined_vars (fun _ _ => rfl) fun _ _ => rfl
      have first : Confined copyOutFirst :=
        confined_split (confined_vars (fun _ _ => rfl) fun _ _ => rfl)
          confined_copyOutAll
      have remaining : Confined copyOutRemaining :=
        confined_split (confined_vars (fun _ _ => rfl) fun _ _ => rfl)
          (confined_vars (fun _ _ => rfl) fun _ _ => rfl)
      have wraps : Confined wrapReadPtr :=
        confined_split (confined_buffer (fun _ _ => rfl) fun _ _ => rfl)
          confined_advanceReadPtr
      simp only [readBytes, List.forall_mem_cons]
      exact ⟨counts, confined_limitBytes, countsLinear, first, remaining, wraps,
        confined_updateState 'r', by simp⟩

/-- No statement of a transfer touches them. -/
theorem confined_transferBody
    (setup : BufferSetup)
    (transfer : BufferTransfer) :
    ∀ statement ∈ transferBody setup transfer, Confined statement := by
  intro statement member
  rw [transferBody, List.mem_append, List.mem_map] at member
  cases member with
  | inl moves =>
      cases transfer with
      | write src nBytes => exact confined_writeBytes setup.type statement moves
      | read dest nBytes => exact confined_readBytes setup.type statement moves
  | inr wakes =>
      obtain ⟨e, _, rfl⟩ := wakes
      exact confined_wakeEvent e

theorem confined_of_enter
    {setup : BufferSetup}
    {transfer : BufferTransfer}
    {vars : TransferVars}
    {body : List TransferStatement}
    (enters : transferEnter setup transfer = .critical vars body) :
    ∀ statement ∈ body, Confined statement := by
  unfold transferEnter at enters
  dsimp only at enters
  split at enters
  · cases enters
  · cases enters
    exact confined_transferBody setup transfer

/-- Take the mutex of a buffer. -/
def lockBuffer (buf : Buffer) : Option Buffer :=
  (threadMutexLock buf.m).map fun m => { buf with m := m }

def unlockBuffer (buf : Buffer) : Buffer :=
  { buf with m := threadMutexUnlock buf.m }

theorem lockBuffer_eq_none {buf : Buffer} :
    lockBuffer buf = none ↔ buf.m.locked = true := by
  unfold lockBuffer threadMutexLock
  cases buf.m.locked <;> simp

theorem lockBuffer_eq_some {buf held : Buffer} :
    lockBuffer buf = some held ↔
      buf.m.locked = false ∧ held = { buf with m := { locked := true } } := by
  unfold lockBuffer threadMutexLock
  cases buf.m.locked <;> simp [eq_comm]

/-- A buffer with `buffer_write` and `buffer_read` as its methods. -/
def bufferMonitor :
    Monitor Buffer BufferSetup BufferTransfer TransferVars TransferReply
      BufferEffect where
  fixed := Buffer.setup
  enter := transferEnter
  lock := lockBuffer
  unlock := unlockBuffer
  leave := transferLeave
  lockOut := [.lock]
  unlockOut := [.unlock]
  lock_held locks := by
    obtain ⟨_, rfl⟩ := lockBuffer_eq_some.mp locks
    rfl
  lock_unlock _ := rfl
  fixed_lock locks := by
    obtain ⟨_, rfl⟩ := lockBuffer_eq_some.mp locks
    rfl
  fixed_unlock _ := rfl
  lock_body enters statement member buf vars locked := by
    rw [lockBuffer_eq_none] at locked ⊢
    rw [(confined_of_enter enters statement member).mutex]
    exact locked
  fixed_body enters statement member :=
    (confined_of_enter enters statement member).setup

/-! ## One transfer at a time -/

/-- The outcome of a call, put together from its answer. -/
def BufferCall.ofAnswer
    {Thread : Type}
    (buf : Buffer)
    (answer : Answer Thread TransferReply BufferEffect) : BufferCall where
  buf := buf
  rc := answer.reply.rc
  dest := answer.reply.dest
  effects := answer.reply.recorded ++ answer.out ++ answer.reply.signals


/-- The part of a call that runs under the mutex, put together from its
statements. -/
def sectionCall
    (body : List TransferStatement)
    (held : Buffer)
    (vars : TransferVars) : BufferCall :=
  let (after, vars, out) := runBody body held vars
  { buf := unlockBuffer after
    rc := toSigned 32 vars.nBytes
    dest := vars.dest
    effects := .lock :: out ++ [.unlock] }

section Sections

variable (held : Buffer) (vars : TransferVars)

/-- Statements keep what the call is and has recorded. -/
theorem runBody_keeps
    {body : List TransferStatement}
    (confined : ∀ statement ∈ body, Confined statement) :
    (runBody body held vars).2.1.transfer = vars.transfer ∧
      (runBody body held vars).2.1.recorded = vars.recorded := by
  induction body generalizing held vars with
  | nil => exact ⟨rfl, rfl⟩
  | cons statement body inductionHypothesis =>
      rw [List.forall_mem_cons] at confined
      obtain ⟨first, rest⟩ := confined
      have later :=
        inductionHypothesis (statement held vars).1 (statement held vars).2.1 rest
      exact ⟨later.1.trans (first.transfer held vars),
        later.2.trans (first.recorded held vars)⟩

/-- Statements leave the setup as it is. -/
theorem runBody_setup
    {body : List TransferStatement}
    (confined : ∀ statement ∈ body, Confined statement) :
    (runBody body held vars).1.setup = held.setup := by
  induction body generalizing held vars with
  | nil => rfl
  | cons statement body inductionHypothesis =>
      rw [List.forall_mem_cons] at confined
      obtain ⟨first, rest⟩ := confined
      rw [runBody, inductionHypothesis _ _ rest, first.setup]

/-- One turn of the loop for each event is the whole loop. -/
theorem runBody_wakeEvent (events : List Nat) :
    runBody (events.map wakeEvent) held vars =
      (held, vars,
        hmEventBufferWake events .write vars.nBytes (bufferNReadBytes held)
          (bufferNWriteBytes held)) := by
  induction events with
  | nil => rfl
  | cons e events inductionHypothesis =>
      rw [List.map_cons, runBody]
      dsimp only [wakeEvent]
      rw [inductionHypothesis]
      rfl

/-- A section ends as the transfer functions do: the wake-up, the unlock and the
return. -/
theorem sectionCall_wakes
    {moves : List TransferStatement}
    (confined : ∀ statement ∈ moves, Confined statement)
    {events : List Nat}
    (registered : held.eventList = events) :
    sectionCall (moves ++ events.map wakeEvent) held vars =
      let (after, vars, out) := runBody moves held vars
      returnUnlocked after vars.dest vars.nBytes
        (out ++ wakeEvents after .write vars.nBytes) := by
  have kept : (runBody moves held vars).1.eventList = events :=
    (congrArg BufferSetup.eventList (runBody_setup held vars confined)).trans
      registered
  simp only [sectionCall, runBody_append, runBody_wakeEvent, wakeEvents_eq, kept]
  rfl

variable {events : List Nat} (registered : held.eventList = events)

include registered

theorem sectionCall_lbufWrite (noDest : vars.dest = none) :
    sectionCall (writeBytes .linear ++ events.map wakeEvent) held vars =
      lbufWriteHeld held vars.src (prepareBufWrite held vars.nBytes) := by
  rw [sectionCall_wakes held vars (confined_writeBytes .linear) registered]
  simp only [writeBytes, runBody, countWritable, limitBytes, copyIn,
    advanceWritePtr, updateState, noDest, List.append_nil, List.nil_append]
  rfl

theorem sectionCall_rbufWrite (noDest : vars.dest = none) :
    sectionCall (writeBytes .ring ++ events.map wakeEvent) held vars =
      rbufWriteHeld held vars.src (prepareBufWrite held vars.nBytes) := by
  rw [sectionCall_wakes held vars (confined_writeBytes .ring) registered]
  by_cases split : rbufLinearBytesWrite held < prepareBufWrite held vars.nBytes
  · unfold rbufWriteHeld
    rw [if_pos split]
    rw [prepareBufWrite] at split
    simp only [writeBytes, runBody, countWritable, limitBytes,
      countLinearWritable, copyInFirst, copyInRemaining, wrapWritePtr,
      updateState, noDest, List.append_nil, List.nil_append,
      TransferVars.Split, if_pos split]
    rfl
  · unfold rbufWriteHeld
    rw [if_neg split]
    rw [prepareBufWrite] at split
    simp only [writeBytes, runBody, countWritable, limitBytes,
      countLinearWritable, copyInFirst, copyInRemaining, wrapWritePtr, copyIn,
      advanceWritePtr, updateState, noDest, List.append_nil,
      List.nil_append, TransferVars.Split, if_neg split]
    rfl

theorem sectionCall_lbufRead :
    sectionCall (readBytes .linear ++ events.map wakeEvent) held vars =
      lbufReadHeld held vars.dest (prepareBufRead held vars.nBytes) := by
  rw [sectionCall_wakes held vars (confined_readBytes .linear) registered]
  simp only [readBytes, runBody, countReadable, limitBytes, copyOutAll,
    advanceReadPtr, updateState, List.append_nil, List.nil_append]
  rfl

omit registered in
/-- A split read copies twice. -/
theorem runBody_copyOut_split (split : vars.Split) :
    runBody [copyOutFirst, copyOutRemaining, wrapReadPtr] held vars =
      ({ held with readPtr := vars.nBytes - vars.linearBytesAvailable },
        { vars with
          dest :=
            copyOut held (copyOut held vars.dest 0 held.readPtr
              vars.linearBytesAvailable) vars.linearBytesAvailable 0
              (vars.nBytes - vars.linearBytesAvailable) },
        copyOutAccess held vars.dest held.readPtr vars.linearBytesAvailable ++
          copyOutAccess held vars.dest 0
            (vars.nBytes - vars.linearBytesAvailable)) := by
  have first : copyOutFirst held vars =
      (held,
        { vars with
          dest := copyOut held vars.dest 0 held.readPtr vars.linearBytesAvailable },
        copyOutAccess held vars.dest held.readPtr vars.linearBytesAvailable) :=
    if_pos split
  have remaining (dest : Option (List UInt8)) :
      copyOutRemaining held { vars with dest := dest } =
        (held,
          { vars with
            dest :=
              copyOut held dest vars.linearBytesAvailable 0
                (vars.nBytes - vars.linearBytesAvailable) },
          copyOutAccess held dest 0 (vars.nBytes - vars.linearBytesAvailable)) :=
    if_pos split
  have wrapped (dest : Option (List UInt8)) :
      wrapReadPtr held { vars with dest := dest } =
        ({ held with readPtr := vars.nBytes - vars.linearBytesAvailable },
          { vars with dest := dest }, []) :=
    if_pos split
  simp only [runBody, first, remaining, wrapped, List.append_nil]
  cases vars.dest <;> rfl

omit registered in
/-- A read that does not wrap around copies once. -/
theorem runBody_copyOut_straight (straight : ¬vars.Split) :
    runBody [copyOutFirst, copyOutRemaining, wrapReadPtr] held vars =
      ({ held with readPtr := held.readPtr + vars.nBytes },
        { vars with dest := copyOut held vars.dest 0 held.readPtr vars.nBytes },
        copyOutAccess held vars.dest held.readPtr vars.nBytes) := by
  have first : copyOutFirst held vars = copyOutAll held vars := if_neg straight
  have remaining (dest : Option (List UInt8)) :
      copyOutRemaining held { vars with dest := dest } =
        (held, { vars with dest := dest }, []) :=
    if_neg straight
  have wrapped (dest : Option (List UInt8)) :
      wrapReadPtr held { vars with dest := dest } =
        advanceReadPtr held { vars with dest := dest } :=
    if_neg straight
  simp only [runBody, first, copyOutAll, remaining, wrapped, advanceReadPtr,
    List.append_nil]

theorem sectionCall_rbufRead :
    sectionCall (readBytes .ring ++ events.map wakeEvent) held vars =
      rbufReadHeld held vars.dest (prepareBufRead held vars.nBytes) := by
  rw [sectionCall_wakes held vars (confined_readBytes .ring) registered]
  have parts : readBytes .ring =
      [countReadable, limitBytes, countLinearReadable] ++
        ([copyOutFirst, copyOutRemaining, wrapReadPtr] ++ [updateState 'r']) := rfl
  have counted : runBody [countReadable, limitBytes, countLinearReadable] held vars =
      (held,
        { vars with
          nBytes := prepareBufRead held vars.nBytes
          nBytesAvailable := bufferNReadBytes held
          linearBytesAvailable := rbufLinearBytesRead held }, []) := rfl
  by_cases split : rbufLinearBytesRead held < prepareBufRead held vars.nBytes
  · have wraps : TransferVars.Split { vars with
        nBytes := prepareBufRead held vars.nBytes
        nBytesAvailable := bufferNReadBytes held
        linearBytesAvailable := rbufLinearBytesRead held } := split
    rw [rbufReadHeld, if_pos split]
    simp only [parts, runBody_append, counted]
    rw [runBody_copyOut_split _ _ wraps]
    simp only [runBody, updateState, List.append_nil, List.nil_append]
    rfl
  · have straight : ¬TransferVars.Split { vars with
        nBytes := prepareBufRead held vars.nBytes
        nBytesAvailable := bufferNReadBytes held
        linearBytesAvailable := rbufLinearBytesRead held } := split
    rw [rbufReadHeld, if_neg split]
    simp only [parts, runBody_append, counted]
    rw [runBody_copyOut_straight _ _ straight]
    simp only [runBody, updateState, List.append_nil, List.nil_append]
    rfl

end Sections

section Serve

variable {Thread : Type} (buf : Buffer) (thread : Thread)

/-- The answer to a write that holds the mutex. -/
theorem ofAnswer_finish_write
    (held : Buffer)
    {vars : TransferVars}
    {body : List TransferStatement}
    (confined : ∀ statement ∈ body, Confined statement)
    {src : List UInt8}
    {nBytes : Nat}
    (writes : vars.transfer = .write src nBytes) :
    BufferCall.ofAnswer (bufferMonitor.finish held vars body).1
        ⟨thread, (bufferMonitor.finish held vars body).2.1,
          [.lock] ++ (bufferMonitor.finish held vars body).2.2⟩ =
      signalWrite vars.recorded (sectionCall body held vars) := by
  obtain ⟨transfer, recorded⟩ := runBody_keeps held vars confined
  rw [writes] at transfer
  simp only [BufferCall.ofAnswer, Monitor.finish, bufferMonitor, transferLeave,
    transfer, recorded, signalWrite, sectionCall, List.append_assoc,
    List.cons_append]
  rfl

/-- The answer to a read that holds the mutex. -/
theorem ofAnswer_finish_read
    (held : Buffer)
    {vars : TransferVars}
    {body : List TransferStatement}
    (confined : ∀ statement ∈ body, Confined statement)
    {dest : Option (List UInt8)}
    {nBytes : Nat}
    (reads : vars.transfer = .read dest nBytes)
    (nothing : vars.recorded = []) :
    BufferCall.ofAnswer (bufferMonitor.finish held vars body).1
        ⟨thread, (bufferMonitor.finish held vars body).2.1,
          [.lock] ++ (bufferMonitor.finish held vars body).2.2⟩ =
      sectionCall body held vars := by
  obtain ⟨transfer, recorded⟩ := runBody_keeps held vars confined
  rw [reads] at transfer
  rw [nothing] at recorded
  simp only [BufferCall.ofAnswer, Monitor.finish, bufferMonitor, transferLeave,
    transfer, recorded, sectionCall, List.append_nil, List.nil_append,
    List.cons_append]

theorem lockedTransfer_eq
    {type : BufferType}
    (typeEq : buf.type = type)
    {nBytes : Nat}
    (nonempty : nBytes ≠ 0)
    (dest : Option (List UInt8))
    (held : Buffer → BufferCall) :
    lockedTransfer buf type dest nBytes held = (lockBuffer buf).map held := by
  rw [lockedTransfer, if_neg (not_not_intro typeEq), if_neg nonempty, lockBuffer,
    Option.map_map]
  cases threadMutexLock buf.m <;> rfl

omit thread in
theorem eventList_of_locks
    {held : Buffer}
    (locks : held ∈ lockBuffer buf) :
    held.eventList = buf.eventList := by
  obtain ⟨_, rfl⟩ := lockBuffer_eq_some.mp locks
  rfl

/-- A transfer with a request takes the mutex and executes its statements. -/
theorem map_serve_critical
    {transfer : BufferTransfer}
    (nonempty : (transferVars buf.setup transfer).nBytes ≠ 0) :
    (bufferMonitor.serve buf (thread, transfer)).map
        (fun served => BufferCall.ofAnswer served.1 served.2) =
      (lockBuffer buf).map fun held =>
        let finished := bufferMonitor.finish held (transferVars buf.setup transfer)
          (transferBody buf.setup transfer)
        BufferCall.ofAnswer finished.1
          ⟨thread, finished.2.1, [.lock] ++ finished.2.2⟩ := by
  have enters : bufferMonitor.enter (bufferMonitor.fixed buf) transfer =
      .critical (transferVars buf.setup transfer)
        (transferBody buf.setup transfer) :=
    if_neg nonempty
  simp only [Monitor.serve, enters, Option.map_map]
  rfl

/-- A transfer without one returns at once. -/
theorem map_serve_skip
    {transfer : BufferTransfer}
    (empty : (transferVars buf.setup transfer).nBytes = 0) :
    (bufferMonitor.serve buf (thread, transfer)).map
        (fun served => BufferCall.ofAnswer served.1 served.2) =
      some (BufferCall.ofAnswer buf
        ⟨thread, transferLeave buf.setup (transferVars buf.setup transfer), []⟩) := by
  have enters : bufferMonitor.enter (bufferMonitor.fixed buf) transfer =
      .skip (transferVars buf.setup transfer) :=
    if_pos empty
  simp only [Monitor.serve, enters]
  rfl

theorem map_serve_write
    (src : List UInt8)
    (nBytes : Nat) :
    (bufferMonitor.serve buf (thread, .write src nBytes)).map
        (fun served => BufferCall.ofAnswer served.1 served.2) =
      bufferWrite buf src nBytes := by
  by_cases empty : (transferVars buf.setup (.write src nBytes)).nBytes = 0
  · have early {type : BufferType} (typeEq : buf.type = type)
        (held : Buffer → BufferCall) :
        lockedTransfer buf type none nBytes held = some (returnEarly buf none 0) := by
      rw [lockedTransfer, if_neg (not_not_intro typeEq)]
      exact if_pos empty
    have written : bufferWrite buf src nBytes =
        some (signalWrite (recordWrite buf src nBytes) (returnEarly buf none 0)) := by
      cases type : buf.type <;>
        simp only [bufferWrite, type, lbufWrite, rbufWrite, early type,
          Option.map_some]
    have none : nBytes = 0 := empty
    rw [map_serve_skip buf thread empty, written]
    simp only [BufferCall.ofAnswer, signalWrite, returnEarly, transferLeave,
      transferVars, none, List.append_nil]
    rfl
  · have finished (held : Buffer) :=
      ofAnswer_finish_write thread held
        (confined_transferBody buf.setup (.write src nBytes))
        (@rfl _ (transferVars buf.setup (.write src nBytes)).transfer)
    have nonempty : nBytes ≠ 0 := empty
    rw [map_serve_critical buf thread empty]
    simp only [finished]
    cases type : buf.type with
    | linear =>
        have body : transferBody buf.setup (.write src nBytes) =
            writeBytes .linear ++ buf.eventList.map wakeEvent :=
          congrArg (fun type => writeBytes type ++ buf.eventList.map wakeEvent) type
        simp only [bufferWrite, type, lbufWrite, lockedTransfer_eq buf type nonempty,
          Option.map_map, body]
        apply Option.map_congr
        intro held locks
        rw [sectionCall_lbufWrite held _ (eventList_of_locks buf locks) rfl]
        rfl
    | ring =>
        have body : transferBody buf.setup (.write src nBytes) =
            writeBytes .ring ++ buf.eventList.map wakeEvent :=
          congrArg (fun type => writeBytes type ++ buf.eventList.map wakeEvent) type
        simp only [bufferWrite, type, rbufWrite, lockedTransfer_eq buf type nonempty,
          Option.map_map, body]
        apply Option.map_congr
        intro held locks
        rw [sectionCall_rbufWrite held _ (eventList_of_locks buf locks) rfl]
        rfl

theorem map_serve_read
    (dest : Option (List UInt8))
    (nBytes : Nat) :
    (bufferMonitor.serve buf (thread, .read dest nBytes)).map
        (fun served => BufferCall.ofAnswer served.1 served.2) =
      bufferRead buf dest nBytes := by
  by_cases empty : (transferVars buf.setup (.read dest nBytes)).nBytes = 0
  · have early {type : BufferType} (typeEq : buf.type = type)
        (held : Buffer → BufferCall) :
        lockedTransfer buf type dest nBytes held = some (returnEarly buf dest 0) := by
      rw [lockedTransfer, if_neg (not_not_intro typeEq)]
      exact if_pos empty
    have read : bufferRead buf dest nBytes = some (returnEarly buf dest 0) := by
      cases type : buf.type <;>
        simp only [bufferRead, type, lbufRead, rbufRead, early type]
    have none : nBytes = 0 := empty
    rw [map_serve_skip buf thread empty, read]
    simp only [BufferCall.ofAnswer, returnEarly, transferLeave, transferVars, none,
      List.append_nil]
    rfl
  · have finished (held : Buffer) :=
      ofAnswer_finish_read thread held
        (confined_transferBody buf.setup (.read dest nBytes))
        (@rfl _ (transferVars buf.setup (.read dest nBytes)).transfer) rfl
    have nonempty : nBytes ≠ 0 := empty
    rw [map_serve_critical buf thread empty]
    simp only [finished]
    cases type : buf.type with
    | linear =>
        have body : transferBody buf.setup (.read dest nBytes) =
            readBytes .linear ++ buf.eventList.map wakeEvent :=
          congrArg (fun type => readBytes type ++ buf.eventList.map wakeEvent) type
        simp only [bufferRead, type, lbufRead, lockedTransfer_eq buf type nonempty, body]
        apply Option.map_congr
        intro held locks
        rw [sectionCall_lbufRead held _ (eventList_of_locks buf locks)]
        rfl
    | ring =>
        have body : transferBody buf.setup (.read dest nBytes) =
            readBytes .ring ++ buf.eventList.map wakeEvent :=
          congrArg (fun type => readBytes type ++ buf.eventList.map wakeEvent) type
        simp only [bufferRead, type, rbufRead, lockedTransfer_eq buf type nonempty, body]
        apply Option.map_congr
        intro held locks
        rw [sectionCall_rbufRead held _ (eventList_of_locks buf locks)]
        rfl

/-- A transfer is what its statements come to when no other thread takes a step in
between. -/
theorem map_serve (transfer : BufferTransfer) :
    (bufferMonitor.serve buf (thread, transfer)).map
        (fun served => BufferCall.ofAnswer served.1 served.2) =
      transfer.io.call buf := by
  cases transfer with
  | write src nBytes => exact map_serve_write buf thread src nBytes
  | read dest nBytes => exact map_serve_read buf thread dest nBytes

end Serve

/-! ## Any number of threads -/

section Threads

variable {Thread : Type} [DecidableEq Thread]
variable {start settled : Buffer}
variable {actions : List (MonitorAction Thread BufferTransfer)}
variable {final : MonitorSystem Thread Buffer BufferTransfer TransferVars BufferEffect}
variable {events : List (MonitorEvent Thread BufferTransfer TransferReply BufferEffect)}
variable {answers : List (Answer Thread TransferReply BufferEffect)}

/-- The calls with a place among the others, as calls made at once. -/
def iosOf (requests : List (Thread × BufferTransfer)) : List BufferIo :=
  requests.map fun request => request.2.io

/-- An answer is the outcome of a call made at once. -/
def IsOutcome
    (answer : Answer Thread TransferReply BufferEffect)
    (call : BufferCall) : Prop :=
  call = .ofAnswer call.buf answer

omit [DecidableEq Thread] in
/-- Transfers made one after the other are a run of calls. -/
theorem runSteps_bufferStep_of_serve
    {requests : List (Thread × BufferTransfer)}
    (served : runSteps bufferMonitor.serve start requests =
      some (settled, answers)) :
    ∃ calls, runSteps bufferStep start (iosOf requests) = some (settled, calls) ∧
      List.Forall₂ IsOutcome answers calls := by
  induction requests generalizing start answers with
  | nil =>
      cases served
      exact ⟨[], rfl, .nil⟩
  | cons request requests inductionHypothesis =>
      obtain ⟨next, answer, rest, serves, restServed, rfl⟩ :=
        runSteps_cons_eq_some.mp served
      obtain ⟨calls, ran, outcomes⟩ := inductionHypothesis restServed
      have called := map_serve start request.1 request.2
      rw [Prod.mk.eta, serves, Option.map_some] at called
      have stepped : bufferStep start request.2.io =
          some (next, .ofAnswer next answer) := by
        rw [bufferStep, ← called]
        rfl
      exact ⟨_, runSteps_cons_eq_some.mpr ⟨next, _, calls, stepped, ran, rfl⟩,
        .cons rfl outcomes⟩

theorem bufferMonitor_unlocked (free : start.m.locked = false) :
    (bufferMonitor.lock start).isSome :=
  Option.isSome_of_eq_some (lockBuffer_eq_some.mpr ⟨free, rfl⟩)

/-- A ring buffer that threads share is a bounded queue: whatever the order in which
they execute their statements, every transfer acts on the queue at once, at a moment
between its beginning and its return. -/
theorem sharedRing_linearizes
    {capacity : Nat}
    (capacityPositive : 0 < capacity)
    (capacityBound : capacity < 2 ^ 31)
    (supplied : ∀ thread transfer, .invoke thread transfer ∈ actions →
      transfer.io.Supplied)
    (ran : runSteps bufferMonitor.step
        (Monitor.initial (bufferInit capacity .ring)) actions =
      some (final, events)) :
    ∃ settled answers calls,
      bufferMonitor.Linearizes (bufferInit capacity .ring) final events settled
          answers ∧
        List.Forall₂ IsOutcome answers calls ∧
          List.Forall₂ (RingServes capacity) calls
            (runTotal (QueueReply.step BoundedFifo.serve)
              (BoundedFifo.empty : BoundedFifo UInt8 capacity)
              (iosOf (requests events))).2 := by
  obtain ⟨settled, answers, linearizes⟩ :=
    Monitor.linearizes (bufferMonitor_unlocked rfl) ran
  obtain ⟨calls, called, outcomes⟩ :=
    runSteps_bufferStep_of_serve linearizes.served
  have allSupplied : ∀ io ∈ iosOf (requests events), io.Supplied := by
    intro io member
    obtain ⟨request, requested, rfl⟩ := List.mem_map.mp member
    exact supplied _ _ (linearizes.invoked ran requested)
  obtain ⟨after, served, servedRan, _, serves⟩ :=
    runSteps_simulates (bufferStep_ring capacityBound) (iosOf (requests events))
      (bufferInit capacity .ring) BoundedFifo.empty
      ⟨ringHolds_bufferInit capacityPositive, rfl⟩ allSupplied
  rw [called] at servedRan
  cases servedRan
  exact ⟨settled, answers, calls, linearizes, outcomes, serves⟩

/-- A reader that calls while a writer is between two statements. -/
theorem sharedRing_linearizes_interrupted :
    ∃ final events,
      runSteps bufferMonitor.step (Monitor.initial (bufferInit 2 .ring))
          [.invoke false (.write [1, 2, 3] 3), .lock false, .advance false,
            .invoke true (.read (some [0]) 1), .advance false] =
        some (final, events) ∧
      ∃ settled answers calls,
        bufferMonitor.Linearizes (bufferInit 2 .ring) final events settled
            answers ∧
          List.Forall₂ IsOutcome answers calls ∧
            List.Forall₂ (RingServes 2) calls
              (runTotal (QueueReply.step BoundedFifo.serve)
                (BoundedFifo.empty : BoundedFifo UInt8 2)
                (iosOf (requests events))).2 := by
  have returns : (runSteps bufferMonitor.step (Monitor.initial (bufferInit 2 .ring))
      [.invoke false (.write [1, 2, 3] 3), .lock false, .advance false,
        .invoke true (.read (some [0]) 1), .advance false]).isSome := rfl
  obtain ⟨⟨final, events⟩, ran⟩ := Option.isSome_iff_exists.mp returns
  refine ⟨final, events, ran,
    sharedRing_linearizes (by decide) (by decide) ?_ ran⟩
  intro thread transfer member
  simp only [List.mem_cons, MonitorAction.invoke.injEq, reduceCtorEq, or_false,
    false_or, List.not_mem_nil] at member
  obtain ⟨_, rfl⟩ | ⟨_, rfl⟩ := member
  · exact Nat.le_refl 3
  · rintro block ⟨⟩
    exact Nat.le_refl 1

/-- The bytes that a transfer put into the buffer, where it returned `rc`. -/
def BufferTransfer.accepted (transfer : BufferTransfer) (rc : Int) : List UInt8 :=
  match transfer with
  | .write src _ => src.take (toUnsigned 32 rc)
  | .read _ _ => []

/-- The bytes that a transfer got out of the buffer. -/
def TransferReply.delivered (reply : TransferReply) : List UInt8 :=
  (reply.dest.getD []).take (toUnsigned 32 reply.rc)

/-- A read has a block to deliver to. -/
def BufferTransfer.Delivers : BufferTransfer → Prop
  | .write _ _ => True
  | .read dest _ => dest.isSome

omit [DecidableEq Thread] in
/-- One transfer takes its bytes from the front and adds its bytes at the end. -/
theorem BufferHolds.serve
    {capacity : Nat}
    {items : List UInt8}
    (holds : BufferHolds capacity start items)
    (capacityBound : capacity < 2 ^ 32)
    (free : start.m.locked = false)
    {request : Thread × BufferTransfer}
    (supplied : request.2.io.Supplied)
    (delivers : request.2.Delivers)
    {answer : Answer Thread TransferReply BufferEffect}
    (serves : bufferMonitor.serve start request = some (settled, answer)) :
    settled.m.locked = false ∧ ∃ left, BufferHolds capacity settled left ∧
      answer.reply.delivered ++ left =
        items ++ request.2.accepted answer.reply.rc := by
  have called := map_serve start request.1 request.2
  rw [Prod.mk.eta, serves, Option.map_some] at called
  obtain ⟨call, returns, moves⟩ := holds.call capacityBound free _ supplied
  obtain rfl : BufferCall.ofAnswer settled answer = call :=
    Option.some.inj (called.trans returns)
  have rc : answer.reply.rc = toSigned 32 (request.2.io.count start) := moves.rc_eq
  have dest : answer.reply.dest = request.2.io.destAfter items := moves.dest_eq
  refine ⟨moves.free, _, moves.after, ?_⟩
  rw [TransferReply.delivered, dest, rc]
  generalize request.2 = transfer at supplied delivers
  cases transfer with
  | write src nBytes =>
      have room := holds.bufferNWriteBytes_le capacityBound
      have count : toUnsigned 32
          (toSigned 32 (min nBytes (bufferNWriteBytes start) : Nat)) =
            min nBytes (bufferNWriteBytes start) :=
        toUnsigned_toSigned 32 (by omega)
      simp only [BufferTransfer.io, BufferIo.destAfter, BufferIo.itemsAfter,
        BufferIo.count, BufferTransfer.accepted, count]
      simp
  | read dest nBytes =>
      have bounded := holds.length_le
      have readable := holds.bufferNReadBytes_eq capacityBound
      obtain ⟨block, rfl⟩ := Option.isSome_iff_exists.mp delivers
      have enough : nBytes ≤ block.length := supplied block rfl
      have count : toUnsigned 32
          (toSigned 32 (min nBytes (bufferNReadBytes start) : Nat)) =
            (items.take nBytes).length := by
        rw [toUnsigned_toSigned 32 (by omega), readable, List.length_take]
      have fits : 0 + (items.take nBytes).length ≤ block.length := by
        rw [List.length_take]
        omega
      simp only [BufferTransfer.io, BufferIo.destAfter, BufferIo.itemsAfter,
        BufferIo.count, BufferTransfer.accepted, count,
        delivered, Option.map_some, Option.getD_some]
      rw [← load_zero, load_store_same fits, List.take_append_drop,
        List.append_nil]

omit [DecidableEq Thread] in
/-- Transfers made one after the other hand out, in order, what they took in. -/
theorem BufferHolds.serveAll
    {capacity : Nat}
    {items : List UInt8}
    {requests : List (Thread × BufferTransfer)}
    (holds : BufferHolds capacity start items)
    (capacityBound : capacity < 2 ^ 32)
    (free : start.m.locked = false)
    (supplied : ∀ request ∈ requests, request.2.io.Supplied)
    (delivers : ∀ request ∈ requests, request.2.Delivers)
    (served : runSteps bufferMonitor.serve start requests =
      some (settled, answers)) :
    ∃ left, BufferHolds capacity settled left ∧
      (answers.flatMap fun answer => answer.reply.delivered) ++ left =
        items ++
          (List.zipWith
            (fun request answer =>
              BufferTransfer.accepted request.2 answer.reply.rc)
            requests answers).flatten := by
  induction requests generalizing start items answers with
  | nil =>
      cases served
      exact ⟨items, holds, by simp⟩
  | cons request requests inductionHypothesis =>
      obtain ⟨next, answer, rest, serves, restServed, rfl⟩ :=
        runSteps_cons_eq_some.mp served
      rw [List.forall_mem_cons] at supplied delivers
      obtain ⟨nextFree, between, nextHolds, first⟩ :=
        holds.serve capacityBound free supplied.1 delivers.1 serves
      obtain ⟨left, settledHolds, later⟩ :=
        inductionHypothesis nextHolds nextFree supplied.2 delivers.2 restServed
      refine ⟨left, settledHolds, ?_⟩
      rw [List.flatMap_cons, List.append_assoc, later, ← List.append_assoc, first,
        List.append_assoc, List.zipWith_cons_cons, List.flatten_cons]

/-- No byte is lost, duplicated or reordered by threads that share a buffer: what
they got out of it, in the order in which they took the mutex, followed by what is
left in it, is what was in it, followed by what they put into it. -/
theorem sharedBuffer_conserves
    {capacity : Nat}
    {items : List UInt8}
    (holds : BufferHolds capacity start items)
    (capacityBound : capacity < 2 ^ 32)
    (free : start.m.locked = false)
    (supplied : ∀ thread transfer, .invoke thread transfer ∈ actions →
      transfer.io.Supplied ∧ transfer.Delivers)
    (ran : runSteps bufferMonitor.step (Monitor.initial start) actions =
      some (final, events)) :
    ∃ settled answers left,
      bufferMonitor.Linearizes start final events settled answers ∧
        BufferHolds capacity settled left ∧
          (answers.flatMap fun answer => answer.reply.delivered) ++ left =
            items ++
              (List.zipWith
                (fun request answer =>
                  BufferTransfer.accepted request.2 answer.reply.rc)
                (requests events) answers).flatten := by
  obtain ⟨settled, answers, linearizes⟩ :=
    Monitor.linearizes (bufferMonitor_unlocked free) ran
  have invoked {request : Thread × BufferTransfer}
      (member : request ∈ requests events) :=
    supplied request.1 request.2 (linearizes.invoked ran member)
  obtain ⟨left, settledHolds, conserved⟩ :=
    holds.serveAll capacityBound free (fun request member => (invoked member).1)
      (fun request member => (invoked member).2) linearizes.served
  exact ⟨settled, answers, left, linearizes, settledHolds, conserved⟩

/-- A read on a linear buffer, where a write of another thread begins before it and
takes the mutex after it. -/
theorem sharedBuffer_conserves_overtaken :
    ∃ final events,
      runSteps bufferMonitor.step
          (Monitor.initial (bufferInitExt 2 .linear [7, 9]))
          [.invoke false (.write [1] 1), .invoke true (.read (some [0]) 1),
            .lock true, .advance true] =
        some (final, events) ∧
      ∃ settled answers left,
        bufferMonitor.Linearizes (bufferInitExt 2 .linear [7, 9]) final events
            settled answers ∧
          BufferHolds 2 settled left ∧
            (answers.flatMap fun answer => answer.reply.delivered) ++ left =
              [] ++
                (List.zipWith
                  (fun request answer =>
                    BufferTransfer.accepted request.2 answer.reply.rc)
                  (requests events) answers).flatten := by
  have returns : (runSteps bufferMonitor.step
      (Monitor.initial (bufferInitExt 2 .linear [7, 9]))
      [.invoke false (.write [1] 1), .invoke true (.read (some [0]) 1),
        .lock true, .advance true]).isSome := rfl
  obtain ⟨⟨final, events⟩, ran⟩ := Option.isSome_iff_exists.mp returns
  refine ⟨final, events, ran,
    sharedBuffer_conserves (@bufferHolds_bufferInitExt 2 [7, 9] rfl .linear)
      (by decide) rfl ?_ ran⟩
  intro thread transfer member
  simp only [List.mem_cons, MonitorAction.invoke.injEq, reduceCtorEq, or_false,
    List.not_mem_nil] at member
  obtain ⟨_, rfl⟩ | ⟨_, rfl⟩ := member
  · exact ⟨Nat.le_refl 1, trivial⟩
  · refine ⟨?_, rfl⟩
    rintro block ⟨⟩
    exact Nat.le_refl 1

end Threads

end Hiemal
