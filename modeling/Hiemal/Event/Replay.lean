import Hiemal.Event.Wake

/-!
# Replaying a buffer from its events

A subscriber that starts from the readable count at its registration can follow
the buffer if every record tells it how the count changed. The reads of both
buffer types tag their records as writes, so the replay goes wrong at the first
read that transfers something.
-/

namespace Hiemal

open Foundation

/-- A buffer in use: calls and registrations. -/
inductive BufferUse
  | transfer (io : BufferIo)
  /-- `buffer_event_add(buf, e)`. -/
  | eventAdd (e : HmEvent)

/-- The caller's side of a use. -/
def BufferUse.Supplied : BufferUse → Prop
  | .transfer io => io.Supplied
  | .eventAdd _ => True

/-- Execute one use, with its return code as output. -/
def bufferUseStep (buf : Buffer) : BufferUse → Option (Buffer × Int)
  | .transfer io => (io.call buf).map fun call => (call.buf, call.rc)
  | .eventAdd e => some (bufferEventAdd buf e)

/-- The count of a subscriber after a record. -/
def replay (count : Int) (info : BufferIoEvent) : Int :=
  match info.ioType with
  | .write => count + info.nBytesTransferred
  | .read => count - info.nBytesTransferred

/-- Folding the records gives, at every record, its readable count. -/
def Replays : Int → List BufferIoEvent → Prop
  | _, [] => True
  | count, info :: records =>
      replay count info = info.nBytesReadable ∧
        Replays (replay count info) records

instance decidableReplays :
    (count : Int) → (records : List BufferIoEvent) →
      Decidable (Replays count records)
  | _, [] => isTrue trivial
  | count, info :: records =>
      haveI := decidableReplays (replay count info) records
      inferInstanceAs (Decidable (_ ∧ _))

/-- `buffer_write` or `buffer_read`. -/
def BufferIo.IsTransfer : BufferIo → Prop
  | .write _ _ => True
  | .read _ _ => True
  | .reset => False

def BufferIo.IsWrite : BufferIo → Prop
  | .write _ _ => True
  | .read _ _ => False
  | .reset => False

instance decidableIsWrite : (io : BufferIo) → Decidable io.IsWrite
  | .write _ _ => inferInstanceAs (Decidable True)
  | .read _ _ => inferInstanceAs (Decidable False)
  | .reset => inferInstanceAs (Decidable False)

/-- The calls after which a subscriber still knows the readable count: those that
transfer nothing, and writes, to a subscriber that registered once. -/
def BufferIo.Replayable (e : NodeAddress) (buf : Buffer) (io : BufferIo) : Prop :=
  io.count buf = 0 ∨ io.IsWrite ∧ buf.eventList.count e = 1

/-! ## Replaying the records of one call -/

theorem replays_append
    {count : Int}
    {first second : List BufferIoEvent} :
    Replays count (first ++ second) ↔
      Replays count first ∧ Replays (first.foldl replay count) second := by
  induction first generalizing count with
  | nil => simp [Replays]
  | cons info first inductionHypothesis =>
      simp [Replays, inductionHypothesis, and_assoc]

section Copies

variable {count : Int} {info : BufferIoEvent}

theorem replay_write
    (tagged : info.ioType = .write)
    (count : Int) :
    replay count info = count + info.nBytesTransferred := by
  rw [replay, tagged]

/-- Copies of a record that changes nothing replay from its readable count. -/
theorem replays_idle_copies
    (idle : replay info.nBytesReadable info = info.nBytesReadable)
    (copies : Nat) :
    Replays info.nBytesReadable (List.replicate copies info) := by
  induction copies with
  | zero => trivial
  | succ copies inductionHypothesis =>
      refine ⟨idle, ?_⟩
      rw [idle]
      exact inductionHypothesis

/-- Copies of one record replay when the first does and the others, if there are
any, change nothing. -/
theorem replays_replicate
    (tagged : info.ioType = .write)
    (copies : Nat) :
    Replays count (List.replicate (copies + 1) info) ↔
      count + info.nBytesTransferred = info.nBytesReadable ∧
        (info.nBytesTransferred = 0 ∨ copies = 0) := by
  rw [List.replicate_succ, Replays, replay_write tagged]
  refine and_congr_right fun first => ?_
  rw [first]
  constructor
  · intro others
    cases copies with
    | zero => exact Or.inr rfl
    | succ copies =>
        have second := others.1
        rw [replay_write tagged] at second
        omega
  · rintro (nothing | single)
    · apply replays_idle_copies
      rw [replay_write tagged, nothing]
      simp
    · rw [single]
      trivial

/-- Copies of one record that replay end at its readable count. -/
theorem foldl_replay_replicate
    {copies : Nat}
    (replays : Replays count (List.replicate (copies + 1) info)) :
    (List.replicate (copies + 1) info).foldl replay count =
      info.nBytesReadable := by
  induction copies generalizing count with
  | zero => exact replays.1
  | succ copies inductionHypothesis => exact inductionHypothesis replays.2

end Copies

/-- What a call does to the readable count. -/
theorem BufferHolds.readable_after
    {capacity : Nat}
    {buf : Buffer}
    {items : List UInt8}
    (holds : BufferHolds capacity buf items)
    (capacityBound : capacity < 2 ^ 32)
    {io : BufferIo}
    (supplied : io.Supplied)
    (transfer : io.IsTransfer)
    {next : Buffer}
    (after : BufferHolds capacity next (io.itemsAfter buf items)) :
    (bufferNReadBytes next : Int) =
      if io.IsWrite then bufferNReadBytes buf + io.count buf
      else bufferNReadBytes buf - io.count buf := by
  have readable := holds.bufferNReadBytes_eq capacityBound
  rw [after.bufferNReadBytes_eq capacityBound, readable]
  cases io with
  | write src nBytes =>
      have enough : nBytes ≤ src.length := supplied
      rw [if_pos (by trivial)]
      simp only [BufferIo.itemsAfter, BufferIo.count, List.length_append,
        List.length_take]
      omega
  | read dest nBytes =>
      rw [if_neg (by exact not_false)]
      simp only [BufferIo.itemsAfter, BufferIo.count, List.length_drop, readable]
      omega
  | reset => exact absurd transfer not_false

section Runs

variable {capacity : Nat} {buf : Buffer} {e : NodeAddress}

/-- A subscriber still knows the readable count after the records of a call
exactly when the call is replayable. -/
theorem replays_call_iff
    (idle : BufferIdle capacity buf)
    (capacityBound : capacity < 2 ^ 32)
    (registered : 0 < buf.eventList.count e)
    {io : BufferIo}
    (supplied : io.Supplied)
    (transfer : io.IsTransfer)
    {call : BufferCall}
    (returns : io.call buf = some call) :
    (Replays (bufferNReadBytes buf) (recordsFor e (wakesOf call.effects)) ↔
        io.Replayable e buf) ∧
      (Replays (bufferNReadBytes buf) (recordsFor e (wakesOf call.effects)) →
        (recordsFor e (wakesOf call.effects)).foldl replay
            (bufferNReadBytes buf) =
          bufferNReadBytes call.buf) := by
  obtain ⟨items, holds⟩ := idle.holds
  obtain ⟨served, servedReturns, moves⟩ :=
    holds.call capacityBound idle.free io supplied
  rw [returns, Option.some.injEq] at servedReturns
  subst servedReturns
  have after := holds.readable_after capacityBound supplied transfer moves.after
  rw [(BufferIo.call_wakes returns).wakes_eq, recordsFor_map]
  by_cases empty : io.request = 0
  · have nothing : io.count buf = 0 := by
      cases io <;> simp_all [BufferIo.request, BufferIo.count]
    rw [if_pos empty]
    refine ⟨iff_of_true trivial (Or.inl nothing), fun _ => ?_⟩
    rw [after, nothing]
    simp
  · obtain ⟨copies, places⟩ := Nat.exists_eq_succ_of_ne_zero (by omega :
      buf.eventList.count e ≠ 0)
    rw [if_neg empty, places]
    refine ⟨?_, fun replays => foldl_replay_replicate replays⟩
    rw [replays_replicate rfl, BufferIo.Replayable, places]
    simp only [transferRecord]
    rw [after]
    split_ifs with write
    · simp [write]
    · simp [write]
      omega

/-- A run of calls is replayable exactly when every call of it is. -/
theorem replays_run_iff
    (idle : BufferIdle capacity buf)
    (capacityBound : capacity < 2 ^ 32)
    (registered : 0 < buf.eventList.count e)
    {ios : List BufferIo}
    (calls : ∀ io ∈ ios, io.Supplied ∧ io.IsTransfer) :
    ∃ final outcomes,
      runSteps bufferStep buf ios = some (final, outcomes) ∧
        (Replays (bufferNReadBytes buf)
            (outcomes.flatMap fun call => recordsFor e (wakesOf call.effects)) ↔
          AlongRun bufferStep (fun buf io => io.Replayable e buf) buf ios) := by
  induction ios generalizing buf with
  | nil => exact ⟨buf, [], rfl, Iff.rfl⟩
  | cons io ios inductionHypothesis =>
      rw [List.forall_mem_cons] at calls
      obtain ⟨⟨supplied, transfer⟩, rest⟩ := calls
      obtain ⟨items, holds⟩ := idle.holds
      obtain ⟨call, returns, moves⟩ :=
        holds.call capacityBound idle.free io supplied
      have stepped : bufferStep buf io = some (call.buf, call) := by
        rw [bufferStep, returns, Option.map_some]
      obtain ⟨nextIdle, setup⟩ := idle.step capacityBound supplied stepped
      have events : call.buf.eventList = buf.eventList :=
        congrArg BufferSetup.eventList setup
      obtain ⟨final, outcomes, ran, replays⟩ :=
        inductionHypothesis nextIdle (by rw [events]; exact registered) rest
      obtain ⟨replayable, reaches⟩ :=
        replays_call_iff idle capacityBound registered supplied transfer returns
      refine ⟨final, call :: outcomes,
        runSteps_cons_eq_some.mpr ⟨_, _, _, stepped, ran, rfl⟩, ?_⟩
      rw [List.flatMap_cons, replays_append, ← alongRun_cons_some stepped,
        ← replayable]
      refine and_congr_right fun first => ?_
      rw [reaches first]
      exact replays

end Runs

/-- A use of a buffer leaves it ready for the next one. -/
theorem BufferIdle.use
    {capacity : Nat}
    (capacityBound : capacity < 2 ^ 32)
    (buf : Buffer)
    (use : BufferUse)
    (next : Buffer)
    (rc : Int)
    (idle : BufferIdle capacity buf)
    (supplied : use.Supplied)
    (stepped : bufferUseStep buf use = some (next, rc)) :
    BufferIdle capacity next := by
  cases use with
  | transfer io =>
      simp only [bufferUseStep, Option.map_eq_some_iff, Prod.mk.injEq] at stepped
      obtain ⟨call, returns, rfl, rfl⟩ := stepped
      have called : bufferStep buf io = some (call.buf, call) := by
        rw [bufferStep, returns, Option.map_some]
      exact (idle.step capacityBound supplied called).1
  | eventAdd e =>
      obtain ⟨items, holds⟩ := idle.holds
      simp only [bufferUseStep, bufferEventAdd, Option.some.injEq] at stepped
      split at stepped
      · cases stepped
        exact idle
      · cases stepped
        exact
          { holds := ⟨items, holds.sameData rfl⟩
            free := idle.free }

/-- A subscriber of a buffer in use can replay it over a later run exactly when
every call of the run transfers nothing or is a write while the subscriber is
registered once. -/
theorem bufferEvents_replay_iff
    (capacity : Nat)
    (capacityBound : capacity < 2 ^ 32)
    (type : BufferType)
    (uses : List BufferUse)
    (usesSupplied : ∀ use ∈ uses, use.Supplied)
    (buf : Buffer)
    (codes : List Int)
    (reached :
      runSteps bufferUseStep (bufferInit capacity type) uses =
        some (buf, codes))
    (e : HmEvent)
    (isBuffer : e.objType = .buffer)
    (ios : List BufferIo)
    (calls : ∀ io ∈ ios, io.Supplied ∧ io.IsTransfer) :
    ∃ final outcomes,
      runSteps bufferStep (bufferEventAdd buf e).1 ios =
          some (final, outcomes) ∧
        (Replays (bufferNReadBytes (bufferEventAdd buf e).1)
            (outcomes.flatMap fun call =>
              recordsFor e.address (wakesOf call.effects)) ↔
          AlongRun bufferStep (fun buf io => io.Replayable e.address buf)
            (bufferEventAdd buf e).1 ios) := by
  have idle : BufferIdle capacity buf :=
    runSteps_invariant (BufferIdle.use capacityBound)
      (bufferIdle_bufferInit capacity type) usesSupplied reached
  have registeredIdle : BufferIdle capacity (bufferEventAdd buf e).1 :=
    BufferIdle.use capacityBound buf (.eventAdd e) _ _ idle trivial rfl
  refine replays_run_iff registeredIdle capacityBound ?_ calls
  simp [bufferEventAdd, isBuffer]

/-- A subscriber of a buffer that holds two bytes, over a write of one more, a
write that finds no room and a read. -/
theorem bufferEvents_replay_iff_three :
    ∃ buf codes,
      runSteps bufferUseStep (bufferInit 3 .ring)
          [.transfer (.write [1, 2] 2)] = some (buf, codes) ∧
        ∃ final outcomes,
          runSteps bufferStep (bufferEventAdd buf ⟨7, .buffer⟩).1
              [.write [3] 1, .write [4] 1, .read none 1] =
              some (final, outcomes) ∧
            (Replays (bufferNReadBytes (bufferEventAdd buf ⟨7, .buffer⟩).1)
                (outcomes.flatMap fun call =>
                  recordsFor 7 (wakesOf call.effects)) ↔
              AlongRun bufferStep (fun buf io => io.Replayable 7 buf)
                (bufferEventAdd buf ⟨7, .buffer⟩).1
                [.write [3] 1, .write [4] 1, .read none 1]) := by
  refine ⟨_, _, rfl, ?_⟩
  exact bufferEvents_replay_iff 3 (by decide) .ring
    [.transfer (.write [1, 2] 2)]
    (by simp [BufferUse.Supplied, BufferIo.Supplied]) _ _ rfl ⟨7, .buffer⟩ rfl _
    (by simp [BufferIo.Supplied, BufferIo.IsTransfer])

/-- A subscriber that registered on an empty buffer adds the byte read to the two
bytes written, while one byte is left. -/
theorem bufferEvents_misreplay_read :
    ∃ final outcomes,
      runSteps bufferStep
          (bufferEventAdd (bufferInit 4 .ring) ⟨7, .buffer⟩).1
          [.write [1, 2] 2, .read none 1] = some (final, outcomes) ∧
        ¬Replays
          (bufferNReadBytes
            (bufferEventAdd (bufferInit 4 .ring) ⟨7, .buffer⟩).1)
          (outcomes.flatMap fun call =>
            recordsFor 7 (wakesOf call.effects)) :=
  ⟨_, _, rfl, by decide⟩

end Hiemal
