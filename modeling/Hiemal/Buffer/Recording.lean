import Hiemal.Buffer.Effects
import Hiemal.Buffer.Lock

/-!
# Recordings of buffers

Translation of `core/recording.c` and of the list of recorded buffers behind it
(`protobuf/_c_wrap/hm_protobuf.cpp`), whose repeated fields append. A write passes
its whole request to the recording before it clamps the request to the free space
of the buffer, so the recording holds more than the buffer accepted once a write
is cut short.
-/

namespace Hiemal

open Foundation

/-- `struct _recording`: the snapshots of every buffer added to it, in order. -/
structure Recording where
  active : Bool
  nBuffer : Nat
  buflist : List (List (List UInt8))
  counted : nBuffer = buflist.length

def hmRecordingInit : Recording where
  active := true
  nBuffer := 0
  buflist := []
  counted := rfl

def hmRecordingStart (r : Recording) : Recording :=
  { r with active := true }

def hmRecordingStop (r : Recording) : Recording :=
  { r with active := false }

theorem Recording.counted_add (r : Recording) :
    r.nBuffer + 1 = (r.buflist ++ [[]]).length := by
  rw [List.length_append, List.length_singleton, r.counted]

theorem Recording.counted_write
    (r : Recording)
    (rId : Nat)
    (data : List UInt8) :
    r.nBuffer = (r.buflist.modify rId (· ++ [data])).length := by
  rw [List.length_modify, r.counted]

/-- `hm_recording_buffer_add`, with the name of the recording, but for the store to the
array of its buffers, which nothing that is recorded depends on. -/
def hmRecordingBufferAdd
    (name : Nat)
    (r : Recording)
    (buf : Buffer) : Recording × Buffer :=
  ({ r with
      nBuffer := r.nBuffer + 1
      buflist := r.buflist ++ [[]]
      counted := r.counted_add },
    { buf with rId := r.nBuffer, r := some name })

/-- `hm_recording_write`; `none` if no buffer has the number `rId`. -/
def hmRecordingWrite
    (r : Recording)
    (rId : Nat)
    (data : List UInt8) : Option (Recording × Int) :=
  if !r.active then some (r, -1)
  else if rId < r.buflist.length then
    some
      ({ r with
          buflist := r.buflist.modify rId (· ++ [data])
          counted := r.counted_write rId data }, 0)
  else none

/-- The snapshots recorded for a buffer. -/
def Recording.snapshots (r : Recording) (rId : Nat) : List (List UInt8) :=
  (r.buflist[rId]?).getD []

/-- A buffer and the recording it was added to. -/
structure RecordedBuffer where
  buf : Buffer
  recording : Recording

/-- Pass what a call records in the recording of the given name to it. -/
def applyRecords (name : Nat) :
    List BufferEffect → Recording → Option Recording
  | [], r => some r
  | .record recording rId data :: effects, r =>
      if recording = name then do
        let (r, _) ← hmRecordingWrite r rId data
        applyRecords name effects r
      else applyRecords name effects r
  | _ :: effects, r => applyRecords name effects r

/-- Execute one call and record it. -/
def recordedStep
    (name : Nat)
    (state : RecordedBuffer)
    (io : BufferIo) : Option (RecordedBuffer × (BufferIo × BufferCall)) := do
  let call ← io.call state.buf
  let recording ← applyRecords name call.effects state.recording
  return ({ buf := call.buf, recording := recording }, (io, call))

/-- The bytes the calls were asked to write. -/
def offeredBytes (ios : List BufferIo) : List UInt8 :=
  ios.flatMap fun
    | .write src nBytes => src.take nBytes
    | _ => []

/-- The bytes the buffer accepted: of every write, as many as it returned. -/
def writtenBytes (outputs : List (BufferIo × BufferCall)) : List UInt8 :=
  outputs.flatMap fun
    | (.write src _, call) => src.take (toUnsigned 32 call.rc)
    | _ => []

/-- There is room for all a call writes. -/
def BufferIo.Fits (buf : Buffer) : BufferIo → Prop
  | .write _ nBytes => nBytes ≤ bufferNWriteBytes buf
  | .read _ _ => True
  | .reset => True

/-! ## Recording one call -/

section Calls

variable {name : Nat} {r : Recording}

theorem applyRecords_append
    (first second : List BufferEffect)
    (r : Recording) :
    applyRecords name (first ++ second) r =
      (applyRecords name first r).bind (applyRecords name second) := by
  induction first generalizing r with
  | nil => rfl
  | cons effect first inductionHypothesis =>
      cases effect with
      | record recording rId data =>
          simp only [List.cons_append, applyRecords]
          split_ifs with mine
          · cases hmRecordingWrite r rId data with
            | none => rfl
            | some written => exact inductionHypothesis written.1
          · exact inductionHypothesis r
      | _ => exact inductionHypothesis r

/-- Effects that record nothing leave the recording. -/
theorem applyRecords_of_silent
    {effects : List BufferEffect}
    (silent : ∀ effect ∈ effects,
      ∀ recording rId data, effect ≠ .record recording rId data)
    (r : Recording) :
    applyRecords name effects r = some r := by
  induction effects with
  | nil => rfl
  | cons effect effects inductionHypothesis =>
      rw [List.forall_mem_cons] at silent
      cases effect with
      | record recording rId data =>
          exact absurd rfl (silent.1 recording rId data)
      | _ => exact inductionHypothesis silent.2

theorem transferEffects_silent
    (ranges : List Access)
    (events : List Nat)
    (count : Nat)
    (after : Buffer) :
    ∀ effect ∈ transferEffects ranges events count after,
      ∀ recording rId data, effect ≠ .record recording rId data := by
  intro effect member recording rId data same
  subst same
  simp [transferEffects, hmEventBufferWake] at member

/-- A call passes on what it records, and nothing else. -/
theorem BufferIo.applyRecords_eq
    {buf : Buffer}
    {io : BufferIo}
    {call : BufferCall}
    (returns : io.call buf = some call)
    (r : Recording) :
    applyRecords name call.effects r =
      applyRecords name (io.recorded buf) r := by
  obtain ⟨ranges, signals, effects, signalled⟩ :=
    (BufferIo.call_does returns).effects_eq
  have transfer (r : Recording) :
      applyRecords name
          (if io.request = 0 then []
          else transferEffects ranges buf.eventList (io.count buf) call.buf) r =
        some r := by
    split
    · rfl
    · exact applyRecords_of_silent (transferEffects_silent _ _ _ _) r
  have signal (r : Recording) : applyRecords name signals r = some r := by
    refine applyRecords_of_silent (fun effect member => ?_) r
    obtain ⟨fd, nBytes, rfl⟩ := signalled effect member
    simp
  rw [effects, applyRecords_append, applyRecords_append]
  cases applyRecords name (io.recorded buf) r with
  | none => rfl
  | some written =>
      rw [Option.bind_some, transfer, Option.bind_some, signal]

end Calls

/-! ## Recording a run -/

/-- The buffer is recorded under its number, its recording is active and its mutex
is free. -/
structure Recorded
    (name rId : Nat)
    (state : RecordedBuffer) : Prop where
  attached : state.buf.r = some name
  number : state.buf.rId = rId
  known : rId < state.recording.buflist.length
  active : state.recording.active = true
  free : state.buf.m.locked = false

/-- Adding a buffer to an active recording records it, with no snapshots yet. -/
theorem recorded_hmRecordingBufferAdd
    (name : Nat)
    {r : Recording}
    (active : r.active = true)
    {buf : Buffer}
    (free : buf.m.locked = false) :
    Recorded name r.nBuffer
        { buf := (hmRecordingBufferAdd name r buf).2
          recording := (hmRecordingBufferAdd name r buf).1 } ∧
      (hmRecordingBufferAdd name r buf).1.snapshots r.nBuffer = [] := by
  refine ⟨⟨rfl, rfl, ?_, active, free⟩, ?_⟩
  · rw [← Recording.counted]
    exact Nat.lt_succ_self r.nBuffer
  · simp [Recording.snapshots, hmRecordingBufferAdd, r.counted]

section Runs

variable {name rId : Nat} {state : RecordedBuffer} {io : BufferIo}

/-- A write to an active recording appends a snapshot. -/
theorem hmRecordingWrite_snapshots
    {r : Recording}
    (active : r.active = true)
    (known : rId < r.buflist.length)
    (data : List UInt8) :
    ∃ written, hmRecordingWrite r rId data = some (written, 0) ∧
      written.active = true ∧
        written.buflist.length = r.buflist.length ∧
          written.snapshots rId = r.snapshots rId ++ [data] := by
  have inactive : ¬(!r.active) = true := by
    rw [active]
    decide
  let written : Recording :=
    { r with
      buflist := r.buflist.modify rId (· ++ [data])
      counted := r.counted_write rId data }
  refine ⟨written, ?_, active, List.length_modify .., ?_⟩
  · rw [hmRecordingWrite, if_neg inactive, if_pos known]
  · simp [Recording.snapshots, known, written]

/-- Step lemma: a call records what it was asked to write and accepts what it
returned. -/
theorem recordedStep_records
    (recorded : Recorded name rId state)
    (bounded : io.request < 2 ^ 32) :
    ∃ next call, recordedStep name state io = some (next, (io, call)) ∧
      Recorded name rId next ∧
        (next.recording.snapshots rId).flatten =
          (state.recording.snapshots rId).flatten ++ offeredBytes [io] ∧
        toUnsigned 32 call.rc = io.count state.buf := by
  obtain ⟨call, returns, releases⟩ := io.call_releases recorded.free
  have setup := BufferIo.call_setup returns
  have does := BufferIo.call_does returns
  have countLe : io.count state.buf ≤ io.request := by
    cases io with
    | write src nBytes => exact Nat.min_le_left _ _
    | read dest nBytes => exact Nat.min_le_left _ _
    | reset => exact Nat.le_refl 0
  have returned : toUnsigned 32 call.rc = io.count state.buf := by
    rw [does.rc_eq, toUnsigned_toSigned 32 (by omega)]
  have next {r : Recording}
      (active : r.active = true)
      (known : rId < r.buflist.length) :
      Recorded name rId { buf := call.buf, recording := r } :=
    { attached := (congrArg BufferSetup.r setup).trans recorded.attached
      number := (congrArg BufferSetup.rId setup).trans recorded.number
      known := known
      active := active
      free := releases.locksOnce.free }
  have quiet (none : io.recorded state.buf = []) :
      applyRecords name call.effects state.recording =
        some state.recording := by
    rw [BufferIo.applyRecords_eq returns, none]
    rfl
  cases io with
  | write src nBytes =>
      obtain ⟨written, writes, active, length, snapshots⟩ :=
        hmRecordingWrite_snapshots recorded.active recorded.known
          (src.take nBytes)
      have applied : applyRecords name call.effects state.recording =
          some written := by
        rw [BufferIo.applyRecords_eq returns]
        simp [BufferIo.recorded, recordWrite, recorded.attached,
          recorded.number, applyRecords, writes]
      refine ⟨_, call, by simp [recordedStep, returns, applied],
        next active (by rw [length]; exact recorded.known), ?_, returned⟩
      simp [snapshots, offeredBytes]
  | read dest nBytes =>
      exact ⟨_, call, by simp [recordedStep, returns, quiet rfl],
        next recorded.active recorded.known, by simp [offeredBytes],
        returned⟩
  | reset =>
      exact ⟨_, call, by simp [recordedStep, returns, quiet rfl],
        next recorded.active recorded.known, by simp [offeredBytes],
        returned⟩

/-- A call accepts at most what it was asked to write, and all of it exactly when
it fits. -/
theorem writtenBytes_call
    {buf : Buffer}
    {call : BufferCall}
    (supplied : io.Supplied)
    (returned : toUnsigned 32 call.rc = io.count buf) :
    (writtenBytes [(io, call)]).length ≤ (offeredBytes [io]).length ∧
      (offeredBytes [io] = writtenBytes [(io, call)] ↔ io.Fits buf) := by
  cases io with
  | write src nBytes =>
      have enough : nBytes ≤ src.length := supplied
      simp only [offeredBytes, writtenBytes, List.flatMap_cons,
        List.flatMap_nil, List.append_nil, returned, BufferIo.count,
        BufferIo.Fits, List.length_take]
      refine ⟨by omega, fun same => ?_, fun fits => ?_⟩
      · have lengths := congrArg List.length same
        rw [List.length_take, List.length_take] at lengths
        omega
      · rw [Nat.min_eq_left fits]
  | read dest nBytes => exact ⟨Nat.le_refl _, iff_of_true rfl trivial⟩
  | reset => exact ⟨Nat.le_refl _, iff_of_true rfl trivial⟩

/-- Two lists whose parts are no longer than those of another two are equal to
them part by part or not at all. -/
theorem append_eq_append_iff_of_le
    {α : Type}
    {first second other another : List α}
    (le : other.length ≤ first.length)
    (restLe : another.length ≤ second.length) :
    first ++ second = other ++ another ↔ first = other ∧ second = another := by
  refine ⟨fun same => ?_, fun same => by rw [same.1, same.2]⟩
  have lengths := congrArg List.length same
  rw [List.length_append, List.length_append] at lengths
  exact List.append_inj same (by omega)

/-- Run lemma: the snapshots grow by what was requested, of which the buffer
accepts all exactly when every write fits. -/
theorem runSteps_records
    (recorded : Recorded name rId state)
    {ios : List BufferIo}
    (calls : ∀ io ∈ ios, io.Supplied ∧ io.request < 2 ^ 32) :
    ∃ final outputs,
      runSteps (recordedStep name) state ios = some (final, outputs) ∧
        (final.recording.snapshots rId).flatten =
            (state.recording.snapshots rId).flatten ++ offeredBytes ios ∧
          (writtenBytes outputs).length ≤ (offeredBytes ios).length ∧
            (offeredBytes ios = writtenBytes outputs ↔
              AlongRun (recordedStep name)
                (fun state io => io.Fits state.buf) state ios) := by
  induction ios generalizing state with
  | nil =>
      exact ⟨state, [], rfl, by simp [offeredBytes], Nat.le_refl _,
        iff_of_true rfl trivial⟩
  | cons io ios inductionHypothesis =>
      rw [List.forall_mem_cons] at calls
      obtain ⟨⟨supplied, bounded⟩, rest⟩ := calls
      obtain ⟨next, call, stepped, nextRecorded, snapshots, returned⟩ :=
        recordedStep_records recorded bounded
      obtain ⟨final, outputs, ran, finalSnapshots, length, equal⟩ :=
        inductionHypothesis nextRecorded rest
      refine ⟨final, (io, call) :: outputs,
        runSteps_cons_eq_some.mpr ⟨_, _, _, stepped, ran, rfl⟩, ?_⟩
      obtain ⟨callLength, callEqual⟩ := writtenBytes_call supplied returned
      have requests : offeredBytes (io :: ios) =
          offeredBytes [io] ++ offeredBytes ios := by
        simp [offeredBytes]
      have writes : writtenBytes ((io, call) :: outputs) =
          writtenBytes [(io, call)] ++ writtenBytes outputs := by
        simp [writtenBytes]
      rw [requests, writes]
      refine ⟨?_, ?_, ?_⟩
      · rw [finalSnapshots, snapshots, List.append_assoc]
      · rw [List.length_append, List.length_append]
        omega
      · rw [append_eq_append_iff_of_le callLength length, callEqual, equal,
          ← alongRun_cons_some stepped]

end Runs

/-- Of a buffer that was added to an active recording the snapshots are the bytes
the buffer accepted exactly when every write fits into the buffer. -/
theorem recordedBytes_eq_iff
    (name : Nat)
    (recording : Recording)
    (active : recording.active = true)
    (buf : Buffer)
    (free : buf.m.locked = false)
    (ios : List BufferIo)
    (calls : ∀ io ∈ ios, io.Supplied ∧ io.request < 2 ^ 32) :
    ∃ final outputs,
      runSteps (recordedStep name)
          { buf := (hmRecordingBufferAdd name recording buf).2
            recording := (hmRecordingBufferAdd name recording buf).1 } ios =
          some (final, outputs) ∧
        ((final.recording.snapshots recording.nBuffer).flatten =
            writtenBytes outputs ↔
          AlongRun (recordedStep name) (fun state io => io.Fits state.buf)
            { buf := (hmRecordingBufferAdd name recording buf).2
              recording := (hmRecordingBufferAdd name recording buf).1 }
            ios) := by
  obtain ⟨recorded, empty⟩ :=
    recorded_hmRecordingBufferAdd name active free
  obtain ⟨final, outputs, ran, snapshots, _, equal⟩ :=
    runSteps_records recorded calls
  refine ⟨final, outputs, ran, ?_⟩
  rw [snapshots, empty, List.flatten_nil, List.nil_append]
  exact equal

/-- The law for a write that fits, a read, and a write that fills the buffer. -/
theorem recordedBytes_eq_iff_fits :
    ∃ final outputs,
      runSteps (recordedStep 0)
          { buf := (hmRecordingBufferAdd 0 hmRecordingInit
              (bufferInit 2 .linear)).2
            recording := (hmRecordingBufferAdd 0 hmRecordingInit
              (bufferInit 2 .linear)).1 }
          [.write [1] 1, .read none 1, .write [2, 3] 2] =
          some (final, outputs) ∧
        ((final.recording.snapshots hmRecordingInit.nBuffer).flatten =
            writtenBytes outputs ↔
          AlongRun (recordedStep 0) (fun state io => io.Fits state.buf)
            { buf := (hmRecordingBufferAdd 0 hmRecordingInit
                (bufferInit 2 .linear)).2
              recording := (hmRecordingBufferAdd 0 hmRecordingInit
                (bufferInit 2 .linear)).1 }
            [.write [1] 1, .read none 1, .write [2, 3] 2]) :=
  recordedBytes_eq_iff 0 hmRecordingInit rfl (bufferInit 2 .linear) rfl _
    (by simp [BufferIo.Supplied, BufferIo.request])

/-- A write of three bytes to a buffer of two is recorded whole. -/
theorem recordedBytes_overfull :
    ∃ final outputs,
      runSteps (recordedStep 0)
          { buf := (hmRecordingBufferAdd 0 hmRecordingInit
              (bufferInit 2 .ring)).2
            recording := (hmRecordingBufferAdd 0 hmRecordingInit
              (bufferInit 2 .ring)).1 }
          [.write [1, 2, 3] 3] = some (final, outputs) ∧
        (final.recording.snapshots hmRecordingInit.nBuffer).flatten ≠
          writtenBytes outputs :=
  ⟨_, _, rfl, by decide⟩

end Hiemal
