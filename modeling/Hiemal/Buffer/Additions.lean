import Hiemal.Buffer.Recording

/-!
# Additions of buffers to a recording

A recording keeps the buffers added to it in an array of fixed size, next to the
list of recorded buffers, and an addition does not compare the number of buffers
with the size. The count, the list and the numbers given to the buffers stay in
step; the stores stay inside the array for as many additions as it has cells.
-/

namespace Hiemal

open Foundation

/-- `MAX_RECORDING_BUFFERS`. -/
def maxRecordingBuffers : Nat := 10

/-- `struct _recording` with its `MEMBER_ARRAY(buffer)`; the buffers are named by
numbers. -/
structure RecordingMembers where
  active : Bool
  buflist : List (List (List UInt8))
  maxBuffer : Nat
  nBuffer : Nat
  buffers : List Nat
  deriving DecidableEq

/-- `hm_recording_init`; `fresh` are the cells of the array. -/
def hmRecordingInitMembers (fresh : Nat → Nat) : RecordingMembers where
  active := true
  buflist := []
  maxBuffer := maxRecordingBuffers
  nBuffer := 0
  buffers := resize [] maxRecordingBuffers fresh

/-- `hm_recording_n_buffers`. -/
def hmRecordingNBuffers (r : RecordingMembers) : Int :=
  toSigned 32 r.nBuffer

/-- `buffer_add_recording`, with the name of the recording. -/
def bufferAddRecording
    (name : Nat)
    (buf : Buffer)
    (r : RecordingMembers) : Buffer :=
  { buf with rId := toUnsigned 32 (hmRecordingNBuffers r), r := some name }

/-- The outcome of `hm_recording_buffer_add`. -/
structure RecordingAddition where
  r : RecordingMembers
  /-- The added buffer after the call. -/
  buf : Buffer
  /-- The cell of the array that is stored to. -/
  store : Access

/-- A buffer to add, with its name. -/
structure NamedBuffer where
  name : Nat
  buf : Buffer

/-- `hm_recording_buffer_add`, with the name of the recording. -/
def hmRecordingBufferAddMembers
    (name : Nat)
    (r : RecordingMembers)
    (added : NamedBuffer) : RecordingAddition where
  r :=
    { r with
      buffers := store r.buffers r.nBuffer [added.name]
      buflist := r.buflist ++ [[]]
      nBuffer := (r.nBuffer + 1) % 2 ^ 32 }
  buf := bufferAddRecording name added.buf r
  store := { blockSize := r.buffers.length, start := r.nBuffer, length := 1 }

/-- Execute one addition. -/
def recordingAddStep
    (name : Nat)
    (r : RecordingMembers)
    (added : NamedBuffer) : RecordingMembers × RecordingAddition :=
  ((hmRecordingBufferAddMembers name r added).r,
    hmRecordingBufferAddMembers name r added)

/-- Additions to a fresh recording. -/
def recordingAdds
    (name : Nat)
    (fresh : Nat → Nat)
    (additions : List NamedBuffer) :
    RecordingMembers × List RecordingAddition :=
  runTotal (recordingAddStep name) (hmRecordingInitMembers fresh) additions

/-- The count is at most the number of cells, no addition has stored outside of
them, the count is the length of the list, and the numbers given to the buffers are
distinct: each is the position of the entry that was appended with it. -/
structure RecordingInStep
    (r : RecordingMembers)
    (calls : List RecordingAddition) : Prop where
  bounded : r.nBuffer ≤ r.maxBuffer
  stores : ∀ call ∈ calls, call.store.InBounds
  counted : r.nBuffer = r.buflist.length
  distinct : (calls.map (·.buf.rId)).Nodup
  entries : calls.map (·.buf.rId) = List.range r.buflist.length

/-- The recording without its array. -/
def RecordingMembers.recording
    (r : RecordingMembers)
    (counted : r.nBuffer = r.buflist.length) : Recording where
  active := r.active
  nBuffer := r.nBuffer
  buflist := r.buflist
  counted := counted

section Additions

variable (name : Nat)

/-- As long as the count does not wrap around, an addition is one to the recording
without the array. -/
theorem hmRecordingBufferAddMembers_recording
    {r : RecordingMembers}
    (counted : r.nBuffer = r.buflist.length)
    (bounded : r.nBuffer + 1 < 2 ^ 32)
    (added : NamedBuffer) :
    ∃ nextCounted,
      ((hmRecordingBufferAddMembers name r added).r.recording nextCounted,
          (hmRecordingBufferAddMembers name r added).buf) =
        hmRecordingBufferAdd name (r.recording counted) added.buf := by
  have whole : (r.nBuffer + 1) % 2 ^ 32 = r.nBuffer + 1 :=
    Nat.mod_eq_of_lt bounded
  refine ⟨?_, ?_⟩
  · rw [hmRecordingBufferAddMembers, whole, List.length_append, counted,
      List.length_singleton]
  · have number : toUnsigned 32 (hmRecordingNBuffers r) = r.nBuffer :=
      toUnsigned_toSigned 32 (by omega)
    simp only [hmRecordingBufferAddMembers, RecordingMembers.recording,
      hmRecordingBufferAdd, bufferAddRecording, number, whole]

/-- What a run of additions leaves behind, as long as the count does not wrap
around. -/
theorem runTotal_recordingAddStep
    (additions : List NamedBuffer)
    (r : RecordingMembers)
    (bounded : r.nBuffer + additions.length < 2 ^ 32) :
    let run := runTotal (recordingAddStep name) r additions
    run.1.nBuffer = r.nBuffer + additions.length ∧
      run.1.maxBuffer = r.maxBuffer ∧
        run.1.buflist.length = r.buflist.length + additions.length ∧
          run.2.map (·.buf.rId) =
              List.range' r.nBuffer additions.length ∧
            run.2.map (·.store) =
              (List.range' r.nBuffer additions.length).map fun position =>
                { blockSize := r.buffers.length
                  start := position
                  length := 1 } := by
  induction additions generalizing r with
  | nil => simp [runTotal]
  | cons added additions inductionHypothesis =>
      rw [List.length_cons] at bounded ⊢
      generalize called : hmRecordingBufferAddMembers name r added = call
      obtain ⟨count, limit, length, cells, number, access⟩ :
          call.r.nBuffer = r.nBuffer + 1 ∧
            call.r.maxBuffer = r.maxBuffer ∧
              call.r.buflist.length = r.buflist.length + 1 ∧
                call.r.buffers.length = r.buffers.length ∧
                  call.buf.rId = r.nBuffer ∧
                    call.store =
                      { blockSize := r.buffers.length
                        start := r.nBuffer
                        length := 1 } := by
        have whole : (r.nBuffer + 1) % 2 ^ 32 = r.nBuffer + 1 :=
          Nat.mod_eq_of_lt (by omega)
        have number : toUnsigned 32 (hmRecordingNBuffers r) = r.nBuffer :=
          toUnsigned_toSigned 32 (by omega)
        simp only [← called, hmRecordingBufferAddMembers, bufferAddRecording,
          whole, number, List.length_append, List.length_singleton,
          length_store, and_self]
      obtain ⟨finalCount, finalLimit, finalLength, ids, stores⟩ :=
        inductionHypothesis call.r (by omega)
      simp only [runTotal, recordingAddStep, called, List.map_cons,
        List.range'_succ]
      refine ⟨by omega, finalLimit.trans limit, by omega, ?_, ?_⟩
      · rw [ids, number, count]
      · rw [stores, access, count, cells]

/-- What a number of additions to a fresh recording leaves behind. -/
theorem recordingAdds_eq
    {additions : List NamedBuffer}
    (bounded : additions.length < 2 ^ 32)
    (fresh : Nat → Nat) :
    let run := recordingAdds name fresh additions
    run.1.nBuffer = additions.length ∧
      run.1.maxBuffer = maxRecordingBuffers ∧
        run.1.buflist.length = additions.length ∧
          run.2.map (·.buf.rId) = List.range additions.length ∧
            run.2.map (·.store) =
              (List.range additions.length).map fun position =>
                { blockSize := maxRecordingBuffers
                  start := position
                  length := 1 } := by
  have start : (hmRecordingInitMembers fresh).nBuffer = 0 := rfl
  have limit :
      (hmRecordingInitMembers fresh).maxBuffer = maxRecordingBuffers := rfl
  have list : (hmRecordingInitMembers fresh).buflist.length = 0 := rfl
  have cells :
      (hmRecordingInitMembers fresh).buffers.length = maxRecordingBuffers :=
    length_resize [] maxRecordingBuffers fresh
  have run := runTotal_recordingAddStep name additions
    (hmRecordingInitMembers fresh) (by rw [start, Nat.zero_add]; exact bounded)
  simp only [start, limit, list, cells, Nat.zero_add] at run
  simp only [List.range_eq_range']
  exact run

/-- As many additions as there are cells keep everything in step. -/
theorem recordingInStep_of_le
    {additions : List NamedBuffer}
    (enough : additions.length ≤ maxRecordingBuffers)
    (fresh : Nat → Nat) :
    RecordingInStep (recordingAdds name fresh additions).1
      (recordingAdds name fresh additions).2 := by
  have few : additions.length ≤ 10 := enough
  have bounded : additions.length < 2 ^ 32 := by omega
  obtain ⟨count, limit, length, ids, stores⟩ :=
    recordingAdds_eq name bounded fresh
  refine
    { bounded := by rw [count, limit]; exact enough
      stores := ?_
      counted := by rw [count, length]
      distinct := by rw [ids]; exact List.nodup_range
      entries := by rw [ids, length] }
  intro call member
  have stored := List.mem_map_of_mem (f := (·.store)) member
  rw [stores] at stored
  obtain ⟨position, inside, access⟩ := List.mem_map.mp stored
  rw [← access]
  exact Nat.le_trans (List.mem_range.mp inside) enough

/-- The recording stays in step through a sequence of additions exactly if there
are at most as many as its array has cells. -/
theorem recordingAdds_inStep_iff
    (fresh : Nat → Nat)
    (additions : List NamedBuffer) :
    (∀ before, before <+: additions →
        RecordingInStep (recordingAdds name fresh before).1
          (recordingAdds name fresh before).2) ↔
      additions.length ≤ maxRecordingBuffers := by
  constructor
  · intro always
    by_contra many
    obtain ⟨bounded, _, _, _, _⟩ := always _
      (List.take_prefix (maxRecordingBuffers + 1) additions)
    have length : (additions.take (maxRecordingBuffers + 1)).length =
        maxRecordingBuffers + 1 :=
      List.length_take_of_le (Nat.lt_of_not_le many)
    obtain ⟨count, limit, _⟩ :=
      recordingAdds_eq name (by rw [length]; decide) fresh
    rw [count, limit, length] at bounded
    exact Nat.not_succ_le_self _ bounded
  · intro enough before isPrefix
    exact recordingInStep_of_le name
      (Nat.le_trans isPrefix.length_le enough) fresh

/-- The eleventh buffer is stored behind the array. -/
theorem not_recordingInStep_eleven :
    let additions := (List.range 11).map fun buf =>
      ({ name := buf, buf := bufferInit 1 .ring } : NamedBuffer)
    let run := recordingAdds 0 (fun _ => 0) additions
    ¬RecordingInStep run.1 run.2 ∧
      ∃ call ∈ run.2, ¬call.store.InBounds := by
  intro additions run
  constructor
  · intro inStep
    exact absurd inStep.bounded (by decide +kernel)
  · decide +kernel

end Additions

end Hiemal
