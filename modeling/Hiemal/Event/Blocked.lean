import Hiemal.Event.Delivery

/-!
# Pollers that wait

`hm_poll_buffer` blocks while its pipe is empty, and looks at the buffer through the
records of the transfers only. A poller that is blocked with no record on its way has
seen what the buffer has now: the last record handed to its condition carries the
counts of the buffer as it is. So no wake-up is lost, unless `buffer_reset` changes the
counts, which writes no record.
-/

namespace Hiemal

open Foundation

/-- The poller of an event waits, and no record is on its way to it. -/
def EventSystem.Blocked (system : EventSystem) (e : NodeAddress) : Prop :=
  system.poller e = .waiting ∧
    system.bufPipe e = [] ∧ recordsFor e system.waking = []

/-- The record carries the counts that the buffer has now. -/
def BufferIoEvent.Reports (info : BufferIoEvent) (buf : Buffer) : Prop :=
  info.nBytesReadable = bufferNReadBytes buf ∧
    info.nBytesWriteable = bufferNWriteBytes buf

/-! ## The last record -/

section Records

variable {buf : Buffer} {io : BufferIo} {call : BufferCall}

theorem buf_lockedTransfer_zero
    {type : BufferType}
    {dest : Option (List UInt8)}
    {held : Buffer → BufferCall}
    (returns : lockedTransfer buf type dest 0 held = some call) :
    call.buf = buf := by
  unfold lockedTransfer at returns
  by_cases other : buf.type ≠ type
  · rw [if_pos other] at returns
    cases returns
    rfl
  · rw [if_neg other, if_pos rfl] at returns
    cases returns
    rfl

/-- A call that requests nothing leaves the buffer alone. -/
theorem BufferIo.buf_call_of_request_eq_zero
    (nothing : io.request = 0)
    (transfers : io ≠ .reset)
    (returns : io.call buf = some call) :
    call.buf = buf := by
  cases io with
  | write src nBytes =>
      obtain rfl : nBytes = 0 := nothing
      unfold BufferIo.call Hiemal.bufferWrite at returns
      obtain ⟨transfer, ran, rfl⟩ := Option.map_eq_some_iff.mp returns
      rw [signalWrite_buf]
      cases kind : buf.type with
      | linear =>
          rw [kind] at ran
          exact buf_lockedTransfer_zero ran
      | ring =>
          rw [kind] at ran
          exact buf_lockedTransfer_zero ran
  | read dest nBytes =>
      obtain rfl : nBytes = 0 := nothing
      unfold BufferIo.call Hiemal.bufferRead at returns
      cases kind : buf.type with
      | linear =>
          rw [kind] at returns
          exact buf_lockedTransfer_zero returns
      | ring =>
          rw [kind] at returns
          exact buf_lockedTransfer_zero returns
  | reset => exact absurd rfl transfers

/-- The records of one call, at an event that is registered: the last of them carries
the counts of the buffer after the call, and a call without records leaves the buffer
alone. -/
theorem records_report
    (bounded : io.request < 2 ^ 32)
    (transfers : io ≠ .reset)
    (returns : io.call buf = some call)
    {e : NodeAddress}
    (registered : 0 < buf.eventList.count e) :
    (∀ info ∈ (recordsFor e (wakesOf call.effects)).getLast?,
        info.Reports call.buf) ∧
      (recordsFor e (wakesOf call.effects) = [] → call.buf = buf) := by
  have counts := sentCounts returns bounded e
  by_cases nothing : io.request = 0
  · rw [if_pos nothing] at counts
    have none : recordsFor e (wakesOf call.effects) = [] :=
      List.map_eq_nil_iff.mp counts
    rw [none]
    refine ⟨?_, fun _ => io.buf_call_of_request_eq_zero nothing transfers returns⟩
    intro info last
    cases last
  · rw [if_neg nothing] at counts
    constructor
    · intro info last
      have listed : info.counts ∈
          (recordsFor e (wakesOf call.effects)).map BufferIoEvent.counts :=
        List.mem_map_of_mem (List.mem_of_getLast? last)
      rw [counts] at listed
      have same : info.counts = call.counts := List.eq_of_mem_replicate listed
      exact ⟨congrArg IoCounts.readable same, congrArg IoCounts.writeable same⟩
    · intro none
      rw [none, List.map_nil] at counts
      have length := congrArg List.length counts
      rw [List.length_nil, List.length_replicate] at length
      omega

end Records

section Runs

variable {system next final : EventSystem} {action : EventAction}
variable {actions : List EventAction} {outputs : List EventOutput}
variable {e : NodeAddress}

/-- Step lemma: every step but a transfer leaves the buffer alone and sends nothing. -/
theorem eventStep_report
    {output : EventOutput}
    (admissible : action.Admissible system)
    (transfers : action ≠ .transfer .reset)
    (registered : 0 < system.buf.eventList.count e)
    (stepped : eventStep system action = some (next, output)) :
    (∀ info ∈ (sentTo e [output]).getLast?, info.Reports next.buf) ∧
      (sentTo e [output] = [] → next.buf = system.buf) ∧
        next.buf.eventList = system.buf.eventList := by
  have silent : (∀ info ∈ ([] : List BufferIoEvent).getLast?, info.Reports system.buf) ∧
      (([] : List BufferIoEvent) = [] → system.buf = system.buf) ∧
        system.buf.eventList = system.buf.eventList := by
    refine ⟨?_, fun _ => rfl, rfl⟩
    intro info last
    cases last
  cases eventStep_steps stepped with
  | @transfer io call idle returns =>
      have transfersIo : io ≠ .reset := by
        rintro rfl
        exact transfers rfl
      have reports := records_report admissible transfersIo returns registered
      have sent : sentTo e [.transferred io.request call] =
          recordsFor e (wakesOf call.effects) := by
        rw [sentTo, List.flatMap_cons, List.flatMap_nil, List.append_nil]
      rw [sent]
      exact ⟨reports.1, reports.2,
        congrArg BufferSetup.eventList (BufferIo.call_setup returns)⟩
  | wake => exact silent
  | poll => exact silent
  | pollOther => exact silent
  | take => exact silent
  | finish => exact silent

/-- Run lemma: the last record sent to a registered event carries the counts of the
buffer, and a run that sends none leaves the buffer alone. -/
theorem runSteps_report
    (admissible :
      AlongRun eventStep (fun system action => action.Admissible system) system
        actions)
    (transfers : ∀ action ∈ actions, action ≠ .transfer .reset)
    (registered : 0 < system.buf.eventList.count e)
    (ran : runSteps eventStep system actions = some (final, outputs)) :
    (∀ info ∈ (sentTo e outputs).getLast?, info.Reports final.buf) ∧
      (sentTo e outputs = [] → final.buf = system.buf) := by
  induction actions generalizing system outputs with
  | nil =>
      cases ran
      refine ⟨?_, fun _ => rfl⟩
      intro info last
      cases last
  | cons action actions ih =>
      obtain ⟨next, output, rest, stepped, restRan, rfl⟩ :=
        runSteps_cons_eq_some.mp ran
      rw [List.forall_mem_cons] at transfers
      obtain ⟨now, unchanged, events⟩ :=
        eventStep_report admissible.1 transfers.1 registered stepped
      rw [← events] at registered
      obtain ⟨later, laterUnchanged⟩ :=
        ih (admissible.2 next output stepped) transfers.2 registered restRan
      have split : sentTo e (output :: rest) = sentTo e [output] ++ sentTo e rest := by
        rw [sentTo, ← List.singleton_append, List.flatMap_append]
        rfl
      rw [split]
      constructor
      · intro info last
        rcases List.eq_nil_or_concat (sentTo e rest) with none | ⟨before, sent, some⟩
        · rw [none, List.append_nil] at last
          rw [laterUnchanged none]
          exact now info last
        · apply later info
          rw [some, List.concat_eq_append] at last ⊢
          rw [← List.append_assoc, List.getLast?_concat] at last
          rwa [List.getLast?_concat]
      · intro none
        obtain ⟨first, second⟩ := List.append_eq_nil_iff.mp none
        rw [laterUnchanged second, unchanged first]

end Runs

/-! ## Blocked pollers -/

/-- What a blocked poller has seen: every record sent to its event has been handed on;
the last one carries the counts the buffer has now, and when the poll in progress was
handed it, its condition did not hold of them; and without any record the buffer is
still as it was. -/
structure SeenLast
    (e : NodeAddress)
    (start final : EventSystem)
    (outputs : List EventOutput) : Prop where
  handed : (handedTo e outputs).map Prod.fst = sentTo e outputs
  current : ∀ last ∈ (handedTo e outputs).getLast?, last.1.Reports final.buf
  untouched : handedTo e outputs = [] → final.buf = start.buf
  polls :
    ∃ poll, (pollsOf e none outputs).2 = some poll ∧
      ∀ last ∈ poll.getLast?, last.2 ≠ 0 ∧ last.1.Reports final.buf

/-- **No wake-up is lost.** In every run of transfers and pollers, in any order of
their steps, a blocked poller of a registered event has seen the counts of the buffer
as it is. -/
theorem blockedPoller_seenLast
    (buf : Buffer)
    (events : List HmEvent)
    {e : NodeAddress}
    (registered : 0 < registrations events e)
    {actions : List EventAction}
    (admissible :
      AlongRun eventStep (fun system action => action.Admissible system)
        (EventSystem.init (bufferEventAddAll buf events)) actions)
    (transfers : ∀ action ∈ actions, action ≠ .transfer .reset)
    {final : EventSystem}
    {outputs : List EventOutput}
    (ran :
      runSteps eventStep (EventSystem.init (bufferEventAddAll buf events))
        actions = some (final, outputs))
    (blocked : final.Blocked e) :
    SeenLast e (EventSystem.init (bufferEventAddAll buf events)) final outputs := by
  obtain ⟨waiting, empty, written⟩ := blocked
  have count :
      0 < (EventSystem.init (bufferEventAddAll buf events)).buf.eventList.count e := by
    rw [EventSystem.init, count_bufferEventAddAll]
    omega
  obtain ⟨last, unchanged⟩ := runSteps_report admissible transfers count ran
  obtain ⟨_, moves⟩ := runSteps_moves (ownsRecords_init _) admissible ran e
  have handed : (handedTo e outputs).map Prod.fst = sentTo e outputs := by
    apply List.map_injective_iff.mpr (Option.some_injective _)
    have before : underWay e (EventSystem.init (bufferEventAddAll buf events)) = [] :=
      rfl
    have after : underWay e final = [] := by
      rw [underWay, empty, written]
      rfl
    rw [before, after, List.nil_append, List.append_nil] at moves
    exact moves.symm
  have current : ∀ last ∈ (handedTo e outputs).getLast?, last.1.Reports final.buf := by
    intro handedLast isLast
    apply last
    rw [← handed, List.getLast?_map, isLast]
    rfl
  obtain ⟨pollHolds, _, consumed⟩ := runSteps_polls ran
    (show PollHolds
      ((EventSystem.init (bufferEventAddAll buf events)).poller e) none from rfl)
  rw [waiting] at pollHolds
  obtain ⟨poll, progress, nonzero⟩ := pollHolds
  refine
    { handed := handed
      current := current
      untouched := ?_
      polls := ⟨poll, progress, ?_⟩ }
  · intro none
    apply unchanged
    rw [← handed, none, List.map_nil]
  · intro handedLast isLast
    refine ⟨nonzero handedLast (List.mem_of_getLast? isLast), ?_⟩
    apply current
    rw [progress, Option.getD_some, Option.getD_none, List.nil_append] at consumed
    rw [← consumed, List.getLast?_append, isLast, Option.some_or]
    rfl

/-- A poller that waits for two readable bytes has seen the one byte there is. -/
theorem blockedPoller_seenLast_one :
    ∃ final outputs,
      runSteps eventStep
          (EventSystem.init (bufferEventAddAll (bufferInit 4 .ring) [⟨7, .buffer⟩]))
          [.poll ⟨7, .buffer⟩, .transfer (.write [1] 1), .wake 100, .take 7 1] =
        some (final, outputs) ∧
      SeenLast 7
        (EventSystem.init (bufferEventAddAll (bufferInit 4 .ring) [⟨7, .buffer⟩]))
        final outputs := by
  refine ⟨_, _, rfl, ?_⟩
  exact
    @blockedPoller_seenLast (bufferInit 4 .ring) [⟨7, .buffer⟩] 7 (by decide)
      [.poll ⟨7, .buffer⟩, .transfer (.write [1] 1), .wake 100, .take 7 1]
      (by decide) (by simp) _ _ rfl ⟨rfl, rfl, rfl⟩

/-- A reset makes room that no record tells of: the poller still waits. -/
theorem not_seenLast_reset :
    ∃ final outputs,
      runSteps eventStep
          (EventSystem.init (bufferEventAddAll (bufferInit 1 .ring) [⟨7, .buffer⟩]))
          [.poll ⟨7, .buffer⟩, .transfer (.write [1] 1), .wake 100, .take 7 1,
            .transfer .reset] =
        some (final, outputs) ∧
      final.Blocked 7 ∧
        ¬SeenLast 7
          (EventSystem.init
            (bufferEventAddAll (bufferInit 1 .ring) [⟨7, .buffer⟩]))
          final outputs := by
  refine ⟨_, _, rfl, ⟨rfl, rfl, rfl⟩, fun seen => ?_⟩
  have reports := (seen.current _ rfl).1
  revert reports
  decide

end Hiemal
