import Hiemal.Buffer.Progress
import Hiemal.Event.Delivery

/-!
# Records of concurrent transfers

The records of a transfer are written while it holds the mutex. So those that an
event receives from any number of threads come in the order in which the transfers
take effect, and each carries the counts right after its transfer.
-/

namespace Hiemal

open Foundation

/-- The counts of the calls with a nonempty request, in call order, each as often as
given. -/
def callCounts
    (copies : Nat)
    (ios : List BufferIo)
    (calls : List BufferCall) : List IoCounts :=
  (List.zipWith
    (fun io call =>
      if io.request = 0 then [] else List.replicate copies call.counts)
    ios calls).flatten

section Silent

variable {Thread : Type} {start settled : Buffer}

@[simp] theorem wakesOf_setupRecordWrite
    (setup : BufferSetup)
    (src : List UInt8)
    (nBytes : Nat) :
    wakesOf (setup.recordWrite src nBytes) = [] := by
  unfold BufferSetup.recordWrite
  split <;> rfl

@[simp] theorem wakesOf_bufferSignalFds (fdSet : List Int) (nBytes : Nat) :
    wakesOf (bufferSignalFds fdSet nBytes) = [] := by
  rw [wakesOf, bufferSignalFds, List.filterMap_map]
  exact List.filterMap_eq_nil_iff.mpr fun _ _ => rfl

theorem wakesOf_transferVars (setup : BufferSetup) (transfer : BufferTransfer) :
    wakesOf (transferVars setup transfer).recorded = [] := by
  cases transfer <;> simp [transferVars]

/-- A transfer wakes no event while it does not hold the mutex. -/
theorem wakesOf_transferLeave
    (setup : BufferSetup)
    {vars : TransferVars}
    (silent : wakesOf vars.recorded = []) :
    wakesOf (transferLeave setup vars).recorded = [] ∧
      wakesOf (transferLeave setup vars).signals = [] := by
  unfold transferLeave
  cases vars.transfer with
  | write src nBytes =>
      refine ⟨silent, ?_⟩
      dsimp only
      split <;> simp
  | read dest nBytes => exact ⟨silent, rfl⟩

theorem wakesOf_reply
    {request : Thread × BufferTransfer}
    {answer : Answer Thread TransferReply BufferEffect}
    (serves : bufferMonitor.serve start request = some (settled, answer)) :
    wakesOf answer.reply.recorded = [] ∧ wakesOf answer.reply.signals = [] := by
  have silent := wakesOf_transferVars start.setup request.2
  unfold Monitor.serve at serves
  split at serves
  · rename_i vars enters
    have entered : vars = transferVars start.setup request.2 := by
      change transferEnter start.setup request.2 = _ at enters
      unfold transferEnter at enters
      dsimp only at enters
      split at enters
      · cases enters
        rfl
      · cases enters
    rw [← entered] at silent
    cases serves
    exact wakesOf_transferLeave _ silent
  · rename_i vars body enters
    have entered : vars = transferVars start.setup request.2 := by
      change transferEnter start.setup request.2 = _ at enters
      unfold transferEnter at enters
      dsimp only at enters
      split at enters
      · cases enters
      · cases enters
        rfl
    rw [← entered] at silent
    rw [Option.map_eq_some_iff] at serves
    obtain ⟨held, _, same⟩ := serves
    cases same
    apply wakesOf_transferLeave
    rw [(runBody_keeps held vars (confined_of_enter enters)).2]
    exact silent

/-- The records of an answer are those of the call made at once. -/
theorem wakesOf_ofAnswer
    {request : Thread × BufferTransfer}
    {answer : Answer Thread TransferReply BufferEffect}
    (serves : bufferMonitor.serve start request = some (settled, answer))
    (after : Buffer) :
    wakesOf (BufferCall.ofAnswer after answer).effects = wakesOf answer.out := by
  obtain ⟨recorded, signals⟩ := wakesOf_reply serves
  rw [BufferCall.ofAnswer, wakesOf_append, wakesOf_append, recorded, signals,
    List.append_nil, List.nil_append]

/-- Run lemma: the records that the answers send to an event carry the counts of the
calls made at once. -/
theorem answers_counts
    {requests : List (Thread × BufferTransfer)}
    {answers : List (Answer Thread TransferReply BufferEffect)}
    {calls : List BufferCall}
    (bounded : ∀ request ∈ requests, request.2.io.request < 2 ^ 32)
    (served : runSteps bufferMonitor.serve start requests = some (settled, answers))
    (called : runSteps bufferStep start (iosOf requests) = some (settled, calls))
    (e : NodeAddress) :
    (recordsFor e (wakesOf (answers.flatMap Answer.out))).map
        BufferIoEvent.counts =
      callCounts (start.eventList.count e) (iosOf requests) calls := by
  induction requests generalizing start answers calls with
  | nil =>
      cases served
      cases called
      rfl
  | cons request requests inductionHypothesis =>
      obtain ⟨next, answer, rest, serves, restServed, rfl⟩ :=
        runSteps_cons_eq_some.mp served
      obtain ⟨after, call, later, stepped, restCalled, rfl⟩ :=
        runSteps_cons_eq_some.mp called
      rw [List.forall_mem_cons] at bounded
      have made := map_serve start request.1 request.2
      rw [Prod.mk.eta, serves, Option.map_some] at made
      have returns : request.2.io.call start = some call := by
        rw [bufferStep, Option.map_eq_some_iff] at stepped
        obtain ⟨other, otherReturns, same⟩ := stepped
        rw [Prod.mk.injEq] at same
        rw [otherReturns, same.2]
      obtain rfl : BufferCall.ofAnswer next answer = call :=
        Option.some.inj (made.trans returns)
      have same : after = next := by
        rw [bufferStep, returns] at stepped
        cases stepped
        rfl
      subst same
      have events : after.eventList = start.eventList :=
        congrArg BufferSetup.eventList (BufferIo.call_setup returns)
      have first := sentCounts returns bounded.1 e
      rw [wakesOf_ofAnswer serves] at first
      have rest := inductionHypothesis bounded.2 restServed restCalled
      rw [events] at rest
      rw [List.flatMap_cons, wakesOf_append, recordsFor, List.filterMap_append,
        ← recordsFor, ← recordsFor, List.map_append, first, rest]
      rfl

/-- A copy wakes no event. -/
theorem Copies.wakesOf_eq_nil
    {effects : List BufferEffect}
    (copies : Copies effects) :
    wakesOf effects = [] := by
  obtain ⟨ranges, rfl⟩ := copies
  rw [wakesOf, List.filterMap_map]
  exact List.filterMap_eq_nil_iff.mpr fun _ _ => rfl

/-- The loop that wakes the events writes a record to each. -/
theorem length_recordsFor_wakeEvent
    (events : List NodeAddress)
    (held : Buffer)
    (vars : TransferVars)
    (e : NodeAddress) :
    (recordsFor e (wakesOf (runBody (events.map wakeEvent) held vars).2.2)).length =
      events.count e := by
  rw [runBody_wakeEvent, wakesOf_hmEventBufferWake, recordsFor_map,
    List.length_replicate]

/-- The rest of a transfer writes no more records to an event than it is registered
times. -/
theorem length_recordsFor_rest
    {setup : BufferSetup}
    {body : List TransferStatement}
    (rest : bufferMonitor.Rest setup body)
    (held : Buffer)
    (vars : TransferVars)
    (e : NodeAddress) :
    (recordsFor e (wakesOf (runBody body held vars).2.2)).length ≤
      setup.eventList.count e := by
  obtain ⟨transfer, first, done, enters⟩ := rest
  change transferEnter setup transfer = _ at enters
  unfold transferEnter at enters
  dsimp only at enters
  split at enters
  · cases enters
  · rw [Entry.critical.injEq, transferBody, List.append_eq_append_iff] at enters
    obtain ⟨_, ⟨woken, _, wakes⟩ | ⟨moves, bytes, remaining⟩⟩ := enters
    · -- the transfer is already waking the events
      obtain ⟨before, after, events, _, rfl⟩ := List.map_eq_append_iff.mp wakes
      rw [length_recordsFor_wakeEvent, events, List.count_append]
      exact Nat.le_add_left _ _
    · have only : ∀ statement ∈ moves, OnlyCopies statement := by
        intro statement member
        apply onlyCopies_bytesBody transfer setup.type
        rw [bytes]
        exact List.mem_append_right _ member
      rw [remaining, runBody_append]
      dsimp only
      rw [wakesOf_append, (copies_runBody only held vars).wakesOf_eq_nil,
        List.nil_append, length_recordsFor_wakeEvent]

end Silent

section Threads

variable {Thread : Type} [DecidableEq Thread] {start : Buffer}
variable {actions : List (MonitorAction Thread BufferTransfer)}
variable {final : MonitorSystem Thread Buffer BufferTransfer TransferVars BufferEffect}
variable {events : List (MonitorEvent Thread BufferTransfer TransferReply BufferEffect)}

/-- What has still to be written of what the calls made at once write. -/
theorem wakesOf_due
    (free : start.m.locked = false)
    (ran : runSteps bufferMonitor.step (Monitor.initial start) actions =
      some (final, events))
    {settled : Buffer}
    {answers : List (Answer Thread TransferReply BufferEffect)}
    (served : runSteps bufferMonitor.serve start (requests events) =
      some (settled, answers)) :
    ∃ due, answers.flatMap Answer.out = emitted events ++ due ∧
      ∀ e, (recordsFor e (wakesOf due)).length ≤ start.eventList.count e := by
  obtain ⟨settledToo, answersToo, accounts⟩ :=
    (Monitor.accounts_initial (bufferMonitor_unlocked free)).run ran
  rw [List.nil_append] at accounts
  have same := accounts.served
  rw [served] at same
  cases same
  obtain ⟨due, settles, out⟩ := accounts.settles
  refine ⟨due, out, fun e => ?_⟩
  cases settles with
  | free outside unlocked => exact Nat.zero_le _
  | @held holder vars body inside alone locked =>
      have registered : final.shared.eventList = start.eventList :=
        congrArg BufferSetup.eventList accounts.fixed_eq
      have reached : bufferMonitor.Reached final := ⟨start, _, _, _, accounts⟩
      have unlocks : wakesOf bufferMonitor.unlockOut = [] := rfl
      rw [← registered, Monitor.finish, wakesOf_append, unlocks, List.append_nil]
      exact length_recordsFor_rest (reached.rest_inside inside) final.shared vars e

/-- The records that threads write to the pipe of an event come in the order in which
their transfers take effect: each transfer with a nonempty request writes one for
every registration of the event, with the counts right after it. The records that are
missing are no more than those of one transfer, the last, which still holds the
mutex. -/
theorem sharedBuffer_wakesInOrder
    (free : start.m.locked = false)
    (bounded : ∀ thread transfer, .invoke thread transfer ∈ actions →
      transfer.io.request < 2 ^ 32)
    (ran : runSteps bufferMonitor.step (Monitor.initial start) actions =
      some (final, events)) :
    ∃ settled answers calls,
      bufferMonitor.Linearizes start final events settled answers ∧
        List.Forall₂ IsOutcome answers calls ∧
          runSteps bufferStep start (iosOf (requests events)) =
              some (settled, calls) ∧
            ∀ e,
              (recordsFor e (wakesOf (emitted events))).map BufferIoEvent.counts <+:
                  callCounts (start.eventList.count e) (iosOf (requests events))
                    calls ∧
                (callCounts (start.eventList.count e) (iosOf (requests events))
                      calls).length ≤
                    (recordsFor e (wakesOf (emitted events))).length +
                      start.eventList.count e ∧
                  ((∀ thread, ¬(final.phase thread).Inside) →
                    (recordsFor e (wakesOf (emitted events))).map
                        BufferIoEvent.counts =
                      callCounts (start.eventList.count e)
                        (iosOf (requests events)) calls) := by
  obtain ⟨settled, answers, linearizes⟩ :=
    Monitor.linearizes (bufferMonitor_unlocked free) ran
  obtain ⟨calls, called, outcomes⟩ :=
    runSteps_bufferStep_of_serve linearizes.served
  have allBounded : ∀ request ∈ requests events, request.2.io.request < 2 ^ 32 :=
    fun request member => bounded _ _ (linearizes.invoked ran member)
  refine ⟨settled, answers, calls, linearizes, outcomes, called, fun e => ?_⟩
  rw [← answers_counts allBounded linearizes.served called e]
  refine ⟨((linearizes.out.filterMap _).filterMap _).map _, ?_, ?_⟩
  · obtain ⟨due, out, few⟩ := wakesOf_due free ran linearizes.served
    rw [List.length_map, out, wakesOf_append, recordsFor, List.filterMap_append,
      ← recordsFor, ← recordsFor, List.length_append]
    exact Nat.add_le_add_left (few e) _
  · intro outside
    rw [(linearizes.quiet outside).2]

/-- Two writers and one event: the one that begins last takes the mutex first. -/
theorem sharedBuffer_wakesInOrder_overtaken :
    ∃ final events,
      runSteps bufferMonitor.step
          (Monitor.initial { bufferInit 4 .ring with eventList := [5] })
          [.invoke false (.write [1] 1), .invoke true (.write [2, 3] 2),
            .lock true] =
        some (final, events) ∧
      ∃ settled answers calls,
        bufferMonitor.Linearizes { bufferInit 4 .ring with eventList := [5] } final
            events settled answers ∧
          List.Forall₂ IsOutcome answers calls ∧
            runSteps bufferStep { bufferInit 4 .ring with eventList := [5] }
                (iosOf (requests events)) =
                some (settled, calls) ∧
              ∀ e,
                (recordsFor e (wakesOf (emitted events))).map
                      BufferIoEvent.counts <+:
                    callCounts ([5].count e) (iosOf (requests events)) calls ∧
                  (callCounts ([5].count e) (iosOf (requests events))
                        calls).length ≤
                      (recordsFor e (wakesOf (emitted events))).length +
                        [5].count e ∧
                    ((∀ thread, ¬(final.phase thread).Inside) →
                      (recordsFor e (wakesOf (emitted events))).map
                          BufferIoEvent.counts =
                        callCounts ([5].count e) (iosOf (requests events))
                          calls) := by
  have ran : runSteps bufferMonitor.step
      (Monitor.initial { bufferInit 4 .ring with eventList := [5] })
      [.invoke false (.write [1] 1), .invoke true (.write [2, 3] 2), .lock true] =
    some (_, _) := rfl
  refine ⟨_, _, ran, sharedBuffer_wakesInOrder rfl ?_ ran⟩
  intro thread transfer member
  simp only [List.mem_cons, MonitorAction.invoke.injEq, reduceCtorEq, or_false,
    List.not_mem_nil] at member
  obtain ⟨_, rfl⟩ | ⟨_, rfl⟩ := member
  · exact Nat.one_lt_two_pow (by decide)
  · exact (by decide : (2 : Nat) ^ 1 < 2 ^ 32)

end Threads

end Hiemal
