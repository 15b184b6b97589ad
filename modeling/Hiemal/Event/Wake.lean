import Hiemal.Buffer.Effects
import Hiemal.Common.Sequence
import Hiemal.Event.Defs

/-!
# Records of one transfer

Every transfer of a nonempty request produces the same record once for every
place in the event list, after the state of the buffer was updated; an empty
request produces none. The event list is the sequence that the reference list in
memory shows.
-/

namespace Hiemal

open Foundation

/-- The record a transfer of `count` bytes that left `buf` sends out. -/
def transferRecord (count : Nat) (buf : Buffer) : BufferIoEvent where
  ioType := .write
  nBytesTransferred := count
  nBytesReadable := bufferNReadBytes buf
  nBytesWriteable := bufferNWriteBytes buf

/-- The records for one event. -/
def recordsFor
    (e : NodeAddress)
    (wakes : List (NodeAddress × BufferIoEvent)) : List BufferIoEvent :=
  wakes.filterMap fun wake => if wake.1 = e then some wake.2 else none

/-- An event receives a record once for every place it has in the list. -/
theorem recordsFor_map
    (e : NodeAddress)
    (events : List NodeAddress)
    (info : BufferIoEvent) :
    recordsFor e (events.map fun other => (other, info)) =
      List.replicate (events.count e) info := by
  induction events with
  | nil => rfl
  | cons other events inductionHypothesis =>
      rw [recordsFor] at inductionHypothesis ⊢
      by_cases same : other = e
      · simp [same, inductionHypothesis, List.replicate_succ]
      · simp [same, inductionHypothesis]

/-- A call transferred `count` bytes and sent its record to every listed event. -/
structure Wakes
    (events : List NodeAddress)
    (count : Nat)
    (call : BufferCall) : Prop where
  rc_eq : call.rc = toSigned 32 count
  wakes_eq :
    wakesOf call.effects =
      events.map fun e => (e, transferRecord count call.buf)

section Effects

@[simp] theorem wakesOf_nil : wakesOf [] = [] := rfl

@[simp] theorem wakesOf_append
    (first second : List BufferEffect) :
    wakesOf (first ++ second) = wakesOf first ++ wakesOf second :=
  List.filterMap_append

@[simp] theorem wakesOf_recordWrite
    (dest : Buffer)
    (src : List UInt8)
    (nBytes : Nat) :
    wakesOf (recordWrite dest src nBytes) = [] := by
  unfold recordWrite
  split <;> rfl

theorem wakesOf_hmEventBufferWake
    (events : List NodeAddress)
    (ioType : BufferIoType)
    (nBytesTransferred nBytesReadable nBytesWriteable : Nat) :
    wakesOf
        (hmEventBufferWake events ioType nBytesTransferred nBytesReadable
          nBytesWriteable) =
      events.map fun e =>
        (e, { ioType, nBytesTransferred, nBytesReadable, nBytesWriteable }) := by
  rw [wakesOf, hmEventBufferWake, List.filterMap_map, ← List.filterMap_eq_map]
  rfl

end Effects

/-- What a transfer performs sends its record to every event. -/
theorem wakesOf_transferEffects
    (ranges : List Access)
    (events : List NodeAddress)
    (count : Nat)
    (after : Buffer) :
    wakesOf (transferEffects ranges events count after) =
      events.map fun e => (e, transferRecord count after) := by
  have silent : wakesOf (ranges.map .access) = [] := by
    rw [wakesOf, List.filterMap_map]
    exact List.filterMap_eq_nil_iff.mpr fun _ _ => rfl
  rw [transferEffects, List.cons_append, wakesOf, List.filterMap_cons, ← wakesOf,
    wakesOf_append, wakesOf_append, silent, wakesOf_hmEventBufferWake]
  exact List.append_nil _

/-- Every call sends out the record of what it transferred, to every listed event
if its request is not empty. -/
theorem BufferIo.call_wakes
    {buf : Buffer}
    {io : BufferIo}
    {call : BufferCall}
    (returns : io.call buf = some call) :
    Wakes (if io.request = 0 then [] else buf.eventList) (io.count buf) call := by
  have does := BufferIo.call_does returns
  obtain ⟨ranges, signals, effects, signalled⟩ := does.effects_eq
  have silent : wakesOf signals = [] :=
    List.filterMap_eq_nil_iff.mpr fun effect member => by
      obtain ⟨fd, nBytes, rfl⟩ := signalled effect member
      rfl
  have recorded : wakesOf (io.recorded buf) = [] := by
    cases io <;> simp [BufferIo.recorded]
  refine ⟨does.rc_eq, ?_⟩
  rw [effects, wakesOf_append, wakesOf_append, recorded, silent,
    List.append_nil, List.nil_append]
  split
  · rfl
  · exact wakesOf_transferEffects _ _ _ _

/-! ## The event list in memory -/

section Memory

variable {m : ListMemory} {nodes events : List NodeAddress}

/-- Looking the events up by their indices wakes them in list order. -/
theorem hmEventBufferWakeLoop_from
    (holds : ListHolds m nodes events)
    (info : BufferIoEvent)
    {remaining index : Nat}
    (inRange : index + remaining = events.length) :
    hmEventBufferWakeLoop m info remaining index =
      some ((events.drop index).map fun e => .wake e info) := by
  induction remaining generalizing index with
  | zero =>
      rw [hmEventBufferWakeLoop, List.drop_eq_nil_of_le (by omega)]
      rfl
  | succ remaining inductionHypothesis =>
      have within : index < events.length := by omega
      rw [hmEventBufferWakeLoop, holds.hmListAt_eq within,
        inductionHypothesis (by omega), List.getElem?_eq_getElem within,
        List.drop_eq_getElem_cons within]
      rfl

/-- The loop of `hm_event_buffer_wake` over the reference list has the effects the
buffer model gives it. -/
theorem hmEventBufferWakeLoop_eq
    (holds : ListHolds m nodes events)
    (ioType : BufferIoType)
    (nBytesTransferred nBytesReadable nBytesWriteable : Nat) :
    hmEventBufferWakeLoop m
        { ioType, nBytesTransferred, nBytesReadable, nBytesWriteable }
        m.list.nItems 0 =
      some
        (hmEventBufferWake events ioType nBytesTransferred nBytesReadable
          nBytesWriteable) := by
  have length : 0 + m.list.nItems = events.length := by
    rw [Nat.zero_add, holds.count, holds.length_eq]
  rw [hmEventBufferWakeLoop_from holds _ length, List.drop_zero]
  rfl

/-- Registering an event appends it to the reference list in memory. -/
theorem bufferEventAdd_append
    {buf : Buffer}
    {e : HmEvent}
    {refnode : NodeAddress}
    (holds : ListHolds m nodes buf.eventList)
    (reference : hmSubtypeId m.list.magic = hmListRefnodeMagic)
    (released : m.nodes refnode = none)
    (isBuffer : e.objType = .buffer) :
    ∃ next nodes', hmListAppend m e.address refnode = some (next, 0) ∧
      ListHolds next nodes' (bufferEventAdd buf e).1.eventList := by
  have notPlain : hmSubtypeId m.list.magic ≠ 0 := by
    rw [reference]
    decide
  have insertable : HmListOp.Admissible.Insertable m e.address refnode :=
    ⟨fun plain => absurd plain notPlain, fun _ => released⟩
  have inRange : (-1 : Int) ≤ m.list.nItems := by omega
  obtain ⟨next, nodes', returns, nextHolds⟩ := holds.insert insertable inRange
  refine ⟨next, nodes', returns, ?_⟩
  simpa [bufferEventAdd, isBuffer, sequenceInsert] using nextHolds

end Memory

end Hiemal
