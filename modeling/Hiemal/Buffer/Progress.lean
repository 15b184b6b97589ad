import Hiemal.Buffer.Concurrent
import Hiemal.Foundation.Channels

/-!
# Threads that wait for the mutex of a buffer

`hm_event_buffer_wake` writes a record to the pipe of every registered event while the
transfer holds the mutex. A pipe holds only so many records, and the write to a full
one blocks until the event is polled. Polling does not need the mutex.
-/

namespace Hiemal

open Foundation

/-- The event to whose pipe a record is written. -/
def wakeTarget : BufferEffect → Option Nat
  | .wake e _ => some e
  | _ => none

/-- The pipes of the events, with the records that each holds at most. -/
def eventPipes (capacity : Nat → Nat) : Channels BufferEffect Nat where
  target := wakeTarget
  capacity := capacity

/-- A copy writes to no pipe. -/
theorem Copies.filterMap_wakeTarget
    {effects : List BufferEffect}
    (copies : Copies effects) :
    effects.filterMap wakeTarget = [] := by
  obtain ⟨ranges, rfl⟩ := copies
  rw [List.filterMap_map]
  exact List.filterMap_eq_nil_iff.mpr fun _ _ => rfl

/-- A statement that does nothing but copy. -/
def OnlyCopies (statement : TransferStatement) : Prop :=
  ∀ buf vars, Copies (statement buf vars).2.2

section Statements

theorem onlyCopies_of_nothing
    {statement : TransferStatement}
    (nothing : ∀ buf vars, (statement buf vars).2.2 = []) :
    OnlyCopies statement := by
  intro buf vars
  rw [nothing]
  exact ⟨[], rfl⟩

theorem onlyCopies_split
    {wrapped straight : TransferStatement}
    (onlyWrapped : OnlyCopies wrapped)
    (onlyStraight : OnlyCopies straight) :
    OnlyCopies fun buf vars =>
      if vars.Split then wrapped buf vars else straight buf vars := by
  intro buf vars
  dsimp only
  split
  · exact onlyWrapped buf vars
  · exact onlyStraight buf vars

theorem onlyCopies_copyIn : OnlyCopies copyIn :=
  fun buf vars => copies_areaAccess buf buf.writePtr vars.nBytes

theorem onlyCopies_copyOutAll : OnlyCopies copyOutAll :=
  fun buf vars => copies_copyOutAccess buf vars.dest buf.readPtr vars.nBytes

theorem onlyCopies_writeBytes (type : BufferType) :
    ∀ statement ∈ writeBytes type, OnlyCopies statement := by
  cases type with
  | linear =>
      simp only [writeBytes, List.forall_mem_cons]
      exact ⟨onlyCopies_of_nothing fun _ _ => rfl, onlyCopies_of_nothing fun _ _ => rfl,
        onlyCopies_copyIn, onlyCopies_of_nothing fun _ _ => rfl,
        onlyCopies_of_nothing fun _ _ => rfl, by simp⟩
  | ring =>
      have first : OnlyCopies copyInFirst :=
        onlyCopies_split
          (fun buf vars =>
            copies_areaAccess buf buf.writePtr vars.linearBytesAvailable)
          onlyCopies_copyIn
      have remaining : OnlyCopies copyInRemaining :=
        onlyCopies_split
          (fun buf vars =>
            copies_areaAccess buf 0 (vars.nBytes - vars.linearBytesAvailable))
          (onlyCopies_of_nothing fun _ _ => rfl)
      have wraps : OnlyCopies wrapWritePtr :=
        onlyCopies_split (onlyCopies_of_nothing fun _ _ => rfl)
          (onlyCopies_of_nothing fun _ _ => rfl)
      simp only [writeBytes, List.forall_mem_cons]
      exact ⟨onlyCopies_of_nothing fun _ _ => rfl, onlyCopies_of_nothing fun _ _ => rfl,
        onlyCopies_of_nothing fun _ _ => rfl, first, remaining, wraps,
        onlyCopies_of_nothing fun _ _ => rfl, by simp⟩

theorem onlyCopies_readBytes (type : BufferType) :
    ∀ statement ∈ readBytes type, OnlyCopies statement := by
  cases type with
  | linear =>
      simp only [readBytes, List.forall_mem_cons]
      exact ⟨onlyCopies_of_nothing fun _ _ => rfl, onlyCopies_of_nothing fun _ _ => rfl,
        onlyCopies_copyOutAll, onlyCopies_of_nothing fun _ _ => rfl,
        onlyCopies_of_nothing fun _ _ => rfl, by simp⟩
  | ring =>
      have first : OnlyCopies copyOutFirst :=
        onlyCopies_split
          (fun buf vars =>
            copies_copyOutAccess buf vars.dest buf.readPtr
              vars.linearBytesAvailable)
          onlyCopies_copyOutAll
      have remaining : OnlyCopies copyOutRemaining :=
        onlyCopies_split
          (fun buf vars =>
            copies_copyOutAccess buf vars.dest 0
              (vars.nBytes - vars.linearBytesAvailable))
          (onlyCopies_of_nothing fun _ _ => rfl)
      have wraps : OnlyCopies wrapReadPtr :=
        onlyCopies_split (onlyCopies_of_nothing fun _ _ => rfl)
          (onlyCopies_of_nothing fun _ _ => rfl)
      simp only [readBytes, List.forall_mem_cons]
      exact ⟨onlyCopies_of_nothing fun _ _ => rfl, onlyCopies_of_nothing fun _ _ => rfl,
        onlyCopies_of_nothing fun _ _ => rfl, first, remaining, wraps,
        onlyCopies_of_nothing fun _ _ => rfl, by simp⟩

theorem onlyCopies_bytesBody
    (transfer : BufferTransfer)
    (type : BufferType) :
    ∀ statement ∈ transfer.bytesBody type, OnlyCopies statement := by
  cases transfer with
  | write src nBytes => exact onlyCopies_writeBytes type
  | read dest nBytes => exact onlyCopies_readBytes type

/-- So do such statements together. -/
theorem copies_runBody
    {body : List TransferStatement}
    (only : ∀ statement ∈ body, OnlyCopies statement)
    (held : Buffer)
    (vars : TransferVars) :
    Copies (runBody body held vars).2.2 := by
  induction body generalizing held vars with
  | nil => exact ⟨[], rfl⟩
  | cons statement body inductionHypothesis =>
      rw [List.forall_mem_cons] at only
      exact (only.1 held vars).append (inductionHypothesis only.2 _ _)

/-- A statement of a transfer writes to one pipe at most. -/
theorem single_transferBody
    (capacity : Nat → Nat)
    (setup : BufferSetup)
    (transfer : BufferTransfer) :
    ∀ statement ∈ transferBody setup transfer, ∀ buf vars,
      (eventPipes capacity).Single (statement buf vars).2.2 := by
  intro statement member buf vars
  have copies (onlyCopies : OnlyCopies statement) :
      (eventPipes capacity).Single (statement buf vars).2.2 := by
    have nothing : (statement buf vars).2.2.filterMap (eventPipes capacity).target =
        [] :=
      (onlyCopies buf vars).filterMap_wakeTarget
    rw [Channels.Single, nothing]
    exact Nat.zero_le 1
  rw [transferBody, List.mem_append, List.mem_map] at member
  cases member with
  | inl moves => exact copies (onlyCopies_bytesBody transfer setup.type statement moves)
  | inr wakes =>
      obtain ⟨e, _, rfl⟩ := wakes
      exact Nat.le_refl 1

theorem oneByOne_bufferMonitor (capacity : Nat → Nat) :
    Channels.OneByOne (eventPipes capacity) bufferMonitor where
  body := by
    intro setup transfer vars body enters
    change transferEnter setup transfer = _ at enters
    unfold transferEnter at enters
    dsimp only at enters
    split at enters
    · cases enters
    · cases enters
      exact single_transferBody capacity setup transfer
  lock := Nat.zero_le 1
  unlock := Nat.zero_le 1

end Statements

section Threads

variable {Thread : Type} [DecidableEq Thread]

/-- A buffer and its threads before the first call, with records left in the pipes of
its events. -/
def transferStart (start : Buffer) (pending : Nat → Nat) :
    ChannelSystem Thread Buffer BufferTransfer TransferVars BufferEffect Nat where
  system := Monitor.initial start
  pending := pending

variable {start : Buffer} {capacity pending : Nat → Nat}
variable {actions : List (ChannelAction Thread BufferTransfer Nat)}
variable {final : ChannelSystem Thread Buffer BufferTransfer TransferVars
  BufferEffect Nat}
variable {events : List
  (Option (MonitorEvent Thread BufferTransfer TransferReply BufferEffect))}

/-- Wherever the threads are, one that waits for the mutex of the buffer gets it in
some continuation of the run in which the events are polled. Where nobody polls them,
there is such a continuation exactly if the pipes have room for all the records that
the transfer inside has still to write: otherwise it blocks with the mutex held. -/
theorem sharedBuffer_progresses
    {thread : Thread}
    {transfer : BufferTransfer}
    {vars : TransferVars}
    {body : List TransferStatement}
    (free : start.m.locked = false)
    (positive : ∀ e, 0 < capacity e)
    (ran : runSteps ((eventPipes capacity).step bufferMonitor)
        (transferStart start pending) actions =
      some (final, events))
    (waiting : final.system.phase thread = .waiting transfer vars body) :
    (∃ more after later,
      runSteps ((eventPipes capacity).step bufferMonitor) final more =
          some (after, later) ∧
        after.system.phase thread = .inside vars body) ∧
      ((∃ more : List (MonitorAction Thread BufferTransfer), ∃ after later,
        runSteps ((eventPipes capacity).step bufferMonitor) final
              (more.map .take) =
            some (after, later) ∧
          after.system.phase thread = .inside vars body) ↔
        ∀ holder held rest, final.system.phase holder = .inside held rest →
          (eventPipes capacity).Room final.pending
            (runBody rest final.system.shared held).2.2) := by
  have reached : bufferMonitor.Reached final.system :=
    (Monitor.reached_initial (bufferMonitor_unlocked free)).run
      (Channels.runSteps_monitor ran)
  constructor
  · exact (oneByOne_bufferMonitor capacity).enters positive reached waiting
  · rw [Channels.enters_iff_room rfl reached waiting]
    -- giving the mutex back writes no record
    have same (held : TransferVars) (rest : List TransferStatement) :
        (eventPipes capacity).Room final.pending
            (bufferMonitor.finish final.system.shared held rest).2.2 ↔
          (eventPipes capacity).Room final.pending
            (runBody rest final.system.shared held).2.2 := by
      rw [Monitor.finish, Channels.room_append]
      exact and_iff_left (Channels.room_of_silent rfl)
    simp only [same]

/-- A reader waits while a writer holds the mutex of a buffer with an event that is
registered twice, and whose pipe holds one record. -/
theorem sharedBuffer_progresses_registeredTwice :
    ∃ final events vars body,
      runSteps ((eventPipes fun _ => 1).step bufferMonitor)
          (transferStart { bufferInit 2 .ring with eventList := [5, 5] } fun _ => 0)
          [.take (.invoke false (.write [1] 1)), .take (.invoke true (.read none 1)),
            .take (.lock false)] =
        some (final, events) ∧
      final.system.phase true = .waiting (.read none 1) vars body ∧
        (∃ more after later,
          runSteps ((eventPipes fun _ => 1).step bufferMonitor) final more =
              some (after, later) ∧
            after.system.phase true = .inside vars body) ∧
          ((∃ more : List (MonitorAction Bool BufferTransfer), ∃ after later,
            runSteps ((eventPipes fun _ => 1).step bufferMonitor) final
                  (more.map .take) =
                some (after, later) ∧
              after.system.phase true = .inside vars body) ↔
            ∀ holder held rest, final.system.phase holder = .inside held rest →
              (eventPipes fun _ => 1).Room final.pending
                (runBody rest final.system.shared held).2.2) := by
  have ran : runSteps ((eventPipes fun _ => 1).step bufferMonitor)
      (transferStart { bufferInit 2 .ring with eventList := [5, 5] } fun _ => 0)
      [.take (.invoke false (.write [1] 1)), .take (.invoke true (.read none 1)),
        .take (.lock false)] =
    some (_, _) := rfl
  exact ⟨_, _, _, _, ran, rfl,
    sharedBuffer_progresses rfl (fun _ => Nat.one_pos) ran rfl⟩

end Threads

end Hiemal
