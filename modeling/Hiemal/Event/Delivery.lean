import Hiemal.Event.Wake

/-!
# Delivery of records

Records are neither lost nor duplicated nor reordered on their way from the
transfers of a buffer to the conditions of its events, whatever the order in which
transfers and pollers take their steps. A poll hands records on until the
condition of the event returns zero.
-/

namespace Hiemal

open Foundation

/-- The counts a record carries. -/
structure IoCounts where
  transferred : Nat
  readable : Nat
  writeable : Nat
  deriving DecidableEq, Repr

def BufferIoEvent.counts (info : BufferIoEvent) : IoCounts where
  transferred := info.nBytesTransferred
  readable := info.nBytesReadable
  writeable := info.nBytesWriteable

/-- The number of bytes a call returned, and the counts of the buffer it left. -/
def BufferCall.counts (call : BufferCall) : IoCounts where
  transferred := toUnsigned 32 call.rc
  readable := bufferNReadBytes call.buf
  writeable := bufferNWriteBytes call.buf

/-- The counts of the transfers with a nonempty request, in call order, each as
often as given. -/
def transferCounts
    (copies : Nat)
    (outputs : List EventOutput) : List IoCounts :=
  outputs.flatMap fun
    | .transferred nBytes call =>
        if nBytes = 0 then [] else List.replicate copies call.counts
    | _ => []

/-- The records sent to an event. -/
def sentTo (e : NodeAddress) (outputs : List EventOutput) :
    List BufferIoEvent :=
  outputs.flatMap fun
    | .transferred _ call => recordsFor e (wakesOf call.effects)
    | _ => []

/-- The records handed to the condition of an event, with what it returned. -/
def handedTo (e : NodeAddress) (outputs : List EventOutput) :
    List (BufferIoEvent × Int) :=
  outputs.filterMap fun
    | .handed other info rc => if other = e then some (info, rc) else none
    | _ => none

/-- What the poll of an event in progress was handed, after one more output. -/
def pollAfter
    (e : NodeAddress)
    (current : Option (List (BufferIoEvent × Int))) :
    EventOutput → Option (List (BufferIoEvent × Int))
  | .polling other => if other = e then some [] else current
  | .handed other info rc =>
      if other = e then current.map (· ++ [(info, rc)]) else current
  | .polled other rc => if other = e ∧ rc = 0 then none else current
  | _ => current

/-- What the poll was handed that returned with an output, if one did. -/
def pollReturned
    (e : NodeAddress)
    (current : Option (List (BufferIoEvent × Int))) :
    EventOutput → Option (List (BufferIoEvent × Int))
  | .polled other rc => if other = e ∧ rc = 0 then current else none
  | _ => none

/-- What the polls of an event were handed: those that returned, and the one in
progress. -/
def pollsOf (e : NodeAddress) :
    (current : Option (List (BufferIoEvent × Int))) → List EventOutput →
      List (List (BufferIoEvent × Int)) × Option (List (BufferIoEvent × Int))
  | current, [] => ([], current)
  | current, output :: outputs =>
      let (returned, last) := pollsOf e (pollAfter e current output) outputs
      ((pollReturned e current output).toList ++ returned, last)

/-- The condition returned zero on the last record, and on no record before. -/
def EndsAtZero (poll : List (BufferIoEvent × Int)) : Prop :=
  ∃ before info, poll = before ++ [(info, 0)] ∧
    ∀ handed ∈ before, handed.2 ≠ 0

/-- What arrives at an event: the records handed to its condition, those in its
pipe and those still to be written are, in order, those of the transfers, each as
often as given; and every poll consumes the shortest sequence of them that ends
at a zero of the condition. -/
structure Delivers
    (e : NodeAddress)
    (copies : Nat)
    (final : EventSystem)
    (outputs : List EventOutput) : Prop where
  inOrder :
    ∃ queued : List BufferIoEvent,
      (final.bufPipe e).map final.bufIoInfo = queued.map some ∧
        ((handedTo e outputs).map Prod.fst ++ queued ++
            recordsFor e final.waking).map BufferIoEvent.counts =
          transferCounts copies outputs
  returned : ∀ poll ∈ (pollsOf e none outputs).1, EndsAtZero poll
  inProgress : ∀ poll ∈ (pollsOf e none outputs).2,
    ∀ handed ∈ poll.dropLast, handed.2 ≠ 0
  consumed :
    (pollsOf e none outputs).1.flatten ++
        ((pollsOf e none outputs).2.getD []) =
      handedTo e outputs

/-! ## Records under way -/

/-- Every pointer in a pipe points to an allocated record, and no two pointers to
the same one. -/
structure OwnsRecords (system : EventSystem) : Prop where
  allocated :
    ∀ e, ∀ info ∈ system.bufPipe e, (system.bufIoInfo info).isSome
  distinct : ∀ e, (system.bufPipe e).Nodup
  apart :
    ∀ e other, e ≠ other →
      ∀ info ∈ system.bufPipe e, info ∉ system.bufPipe other

/-- The records on their way to an event, oldest first. -/
def underWay (e : NodeAddress) (system : EventSystem) :
    List (Option BufferIoEvent) :=
  (system.bufPipe e).map system.bufIoInfo ++
    (recordsFor e system.waking).map some

@[simp] theorem assign_self
    {α : Type}
    (values : NodeAddress → α)
    (place : NodeAddress)
    (value : α) :
    assign values place value place = value :=
  if_pos rfl

theorem assign_of_ne
    {α : Type}
    (values : NodeAddress → α)
    {place other : NodeAddress}
    (value : α)
    (different : other ≠ place) :
    assign values place value other = values other :=
  if_neg different

/-- Writing another place changes no value that is looked up. -/
theorem map_assign
    {α : Type}
    (values : NodeAddress → α)
    {places : List NodeAddress}
    {place : NodeAddress}
    (outside : place ∉ places)
    (value : α) :
    places.map (assign values place value) = places.map values :=
  List.map_congr_left fun _ member =>
    assign_of_ne values value fun same => outside (same ▸ member)

theorem ownsRecords_init (buf : Buffer) :
    OwnsRecords (EventSystem.init buf) where
  allocated := by simp [EventSystem.init]
  distinct := by simp [EventSystem.init]
  apart := by simp [EventSystem.init]

/-- What a step does, case by case. -/
inductive EventSteps (system : EventSystem) :
    EventAction → EventSystem → EventOutput → Prop
  | transfer
      {io : BufferIo}
      {call : BufferCall}
      (idle : system.waking = [])
      (returns : io.call system.buf = some call) :
      EventSteps system (.transfer io)
        { system with buf := call.buf, waking := wakesOf call.effects }
        (.transferred io.request call)
  | wake
      {info e : NodeAddress}
      {record : BufferIoEvent}
      {rest : List (NodeAddress × BufferIoEvent)}
      (waking : system.waking = (e, record) :: rest) :
      EventSteps system (.wake info)
        { system with
          waking := rest
          bufIoInfo := assign system.bufIoInfo info (some record)
          bufPipe := assign system.bufPipe e (system.bufPipe e ++ [info]) }
        .woken
  | poll
      {e : HmEvent}
      (idle : system.poller e.address = .idle) :
      EventSteps system (.poll e)
        { system with poller := assign system.poller e.address .waiting }
        (.polling e.address)
  | pollOther {e : HmEvent} :
      EventSteps system (.poll e) system (.polled e.address (-1))
  | take
      {e info : NodeAddress}
      {pipe : List NodeAddress}
      {record : BufferIoEvent}
      {rc : Int}
      (waiting : system.poller e = .waiting)
      (queued : system.bufPipe e = info :: pipe)
      (stored : system.bufIoInfo info = some record) :
      EventSteps system (.take e rc)
        { system with
          bufIoInfo := assign system.bufIoInfo info none
          bufPipe := assign system.bufPipe e pipe
          poller := assign system.poller e
            (if rc ≠ 0 then .waiting else .returning) }
        (.handed e record rc)
  | finish
      {e : NodeAddress}
      (returning : system.poller e = .returning) :
      EventSteps system (.finish e)
        { system with poller := assign system.poller e .idle }
        (.polled e 0)

theorem eventStep_steps
    {system next : EventSystem}
    {action : EventAction}
    {output : EventOutput}
    (stepped : eventStep system action = some (next, output)) :
    EventSteps system action next output := by
  cases action with
  | transfer io =>
      simp only [eventStep] at stepped
      split at stepped
      · cases stepped
      · rename_i idle
        simp only [Option.map_eq_some_iff, Prod.mk.injEq] at stepped
        obtain ⟨call, returns, rfl, rfl⟩ := stepped
        exact .transfer idle returns
  | wake info =>
      simp only [eventStep] at stepped
      split at stepped
      · cases stepped
      · rename_i waking
        cases stepped
        exact .wake waking
  | poll e =>
      simp only [eventStep] at stepped
      split at stepped
      · rename_i idle
        cases stepped
        exact .poll idle
      · cases stepped
      · cases stepped
        exact .pollOther
  | take e rc =>
      simp only [eventStep] at stepped
      split at stepped
      · rename_i waiting queued
        simp only [Option.map_eq_some_iff, Prod.mk.injEq] at stepped
        obtain ⟨record, stored, rfl, rfl⟩ := stepped
        exact .take waiting queued stored
      · cases stepped
  | finish e =>
      simp only [eventStep] at stepped
      split at stepped
      · rename_i returning
        cases stepped
        exact .finish returning
      · cases stepped

section Steps

variable {system next : EventSystem} {output : EventOutput}

/-- Memory that is not in use is in no pipe. -/
theorem OwnsRecords.notMem
    (owns : OwnsRecords system)
    {info : NodeAddress}
    (unused : system.bufIoInfo info = none)
    (e : NodeAddress) :
    info ∉ system.bufPipe e := by
  intro member
  have allocated := owns.allocated e info member
  rw [unused] at allocated
  cases allocated

/-- Writing a new record into a pipe. -/
theorem OwnsRecords.push
    (owns : OwnsRecords system)
    (e info : NodeAddress)
    (record : BufferIoEvent)
    (waking : List (NodeAddress × BufferIoEvent))
    (unused : system.bufIoInfo info = none) :
    OwnsRecords
      { system with
        waking := waking
        bufIoInfo := assign system.bufIoInfo info (some record)
        bufPipe := assign system.bufPipe e (system.bufPipe e ++ [info]) } := by
  have notMem := owns.notMem unused
  have allocated := owns.allocated
  have distinct := owns.distinct
  have apart := owns.apart
  constructor
  · intro other place member
    dsimp only [assign] at member ⊢
    split_ifs at member ⊢ with new here
    · rfl
    · rfl
    · grind
    · exact allocated other place member
  · intro other
    dsimp only [assign]
    split_ifs with same
    · subst same
      exact List.nodup_append.mpr
        ⟨distinct other, List.nodup_singleton info, by
          intro left leftMember right rightMember equal
          rw [List.mem_singleton.mp rightMember] at equal
          exact notMem other (equal ▸ leftMember)⟩
    · exact distinct other
  · intro first second different place member
    dsimp only [assign] at member ⊢
    grind

/-- Taking the oldest record out of a pipe and freeing it. -/
theorem OwnsRecords.pop
    (owns : OwnsRecords system)
    {e info : NodeAddress}
    {pipe : List NodeAddress}
    (queued : system.bufPipe e = info :: pipe)
    (poller : NodeAddress → PollState) :
    OwnsRecords
      { system with
        bufIoInfo := assign system.bufIoInfo info none
        bufPipe := assign system.bufPipe e pipe
        poller := poller } := by
  have allocated := owns.allocated
  have distinct := owns.distinct
  have apart := owns.apart
  constructor
  · intro other place member
    dsimp only [assign] at member ⊢
    grind
  · intro other
    dsimp only [assign]
    grind
  · intro first second different place member
    dsimp only [assign] at member ⊢
    grind

/-- Step lemma: a step moves the records under way along. -/
theorem eventStep_moves
    (owns : OwnsRecords system)
    {action : EventAction}
    (admissible : action.Admissible system)
    (stepped : eventStep system action = some (next, output)) :
    OwnsRecords next ∧
      ∀ e, underWay e system ++ (sentTo e [output]).map some =
        ((handedTo e [output]).map Prod.fst).map some ++ underWay e next := by
  have same (poller : NodeAddress → PollState) :
      OwnsRecords { system with poller := poller } :=
    ⟨owns.allocated, owns.distinct, owns.apart⟩
  cases eventStep_steps stepped with
  | transfer idle returns =>
      refine ⟨⟨owns.allocated, owns.distinct, owns.apart⟩, fun e => ?_⟩
      simp [underWay, sentTo, handedTo, idle, recordsFor]
  | @wake info target record rest waking =>
      refine ⟨owns.push target info record rest admissible, fun e => ?_⟩
      have kept := map_assign system.bufIoInfo (owns.notMem admissible e)
        (some record)
      by_cases same : e = target
      · subst same
        simp [underWay, sentTo, handedTo, waking, recordsFor, kept]
      · simp [underWay, sentTo, handedTo, waking, recordsFor, kept,
          assign_of_ne _ _ same, Ne.symm same]
  | poll =>
      exact ⟨same _, fun other => by simp [underWay, sentTo, handedTo]⟩
  | pollOther =>
      exact ⟨owns, fun other => by simp [sentTo, handedTo]⟩
  | @take target info pipe record rc _ queued stored =>
      refine ⟨owns.pop queued _, fun e => ?_⟩
      by_cases same : e = target
      · subst same
        have distinct := owns.distinct e
        rw [queued, List.nodup_cons] at distinct
        have kept := map_assign system.bufIoInfo distinct.1 none
        simp [underWay, sentTo, handedTo, queued, stored, kept]
      · have outside : info ∉ system.bufPipe e :=
          owns.apart target e (Ne.symm same) info (by simp [queued])
        have kept := map_assign system.bufIoInfo outside none
        simp [underWay, sentTo, handedTo, assign_of_ne _ _ same, kept,
          Ne.symm same]
  | finish =>
      exact ⟨same _, fun other => by simp [underWay, sentTo, handedTo]⟩

end Steps

theorem sentTo_cons
    (e : NodeAddress)
    (output : EventOutput)
    (outputs : List EventOutput) :
    sentTo e (output :: outputs) = sentTo e [output] ++ sentTo e outputs := by
  simp [sentTo]

theorem handedTo_cons
    (e : NodeAddress)
    (output : EventOutput)
    (outputs : List EventOutput) :
    handedTo e (output :: outputs) =
      handedTo e [output] ++ handedTo e outputs := by
  rw [handedTo, ← List.singleton_append, List.filterMap_append]
  rfl

/-- Run lemma: what was under way and was sent has been handed on or is under way
still, in the same order. -/
theorem runSteps_moves
    {system final : EventSystem}
    {actions : List EventAction}
    {outputs : List EventOutput}
    (owns : OwnsRecords system)
    (admissible :
      AlongRun eventStep (fun system action => action.Admissible system) system
        actions)
    (ran : runSteps eventStep system actions = some (final, outputs))
    (e : NodeAddress) :
    OwnsRecords final ∧
      underWay e system ++ (sentTo e outputs).map some =
        ((handedTo e outputs).map Prod.fst).map some ++ underWay e final := by
  induction actions generalizing system outputs with
  | nil =>
      cases ran
      exact ⟨owns, by simp [sentTo, handedTo]⟩
  | cons action actions inductionHypothesis =>
      obtain ⟨next, output, rest, stepped, restRan, rfl⟩ :=
        runSteps_cons_eq_some.mp ran
      obtain ⟨nextOwns, moves⟩ := eventStep_moves owns admissible.1 stepped
      obtain ⟨finalOwns, restMoves⟩ :=
        inductionHypothesis nextOwns (admissible.2 next output stepped) restRan
      refine ⟨finalOwns, ?_⟩
      rw [sentTo_cons, handedTo_cons, List.map_append, ← List.append_assoc,
        moves e, List.append_assoc, restMoves]
      simp

/-! ## Polls -/

/-- What the poll in progress was handed, by where the poller is. -/
def PollHolds :
    PollState → (current : Option (List (BufferIoEvent × Int))) → Prop
  | .idle, current => current = none
  | .waiting, current =>
      ∃ poll, current = some poll ∧ ∀ handed ∈ poll, handed.2 ≠ 0
  | .returning, current => ∃ poll, current = some poll ∧ EndsAtZero poll

section PollSteps

variable {e : NodeAddress} {current : Option (List (BufferIoEvent × Int))}

/-- One more record handed to the condition, which goes on or returns zero. -/
theorem PollHolds.handed
    {poll : List (BufferIoEvent × Int)}
    (nonzero : ∀ handed ∈ poll, handed.2 ≠ 0)
    (record : BufferIoEvent)
    (rc : Int) :
    PollHolds (if rc ≠ 0 then .waiting else .returning)
      (some (poll ++ [(record, rc)])) := by
  by_cases zero : rc = 0
  · rw [if_neg (not_not_intro zero), zero]
    exact ⟨_, rfl, poll, record, rfl, nonzero⟩
  · rw [if_pos zero]
    refine ⟨_, rfl, fun handed member => ?_⟩
    rcases List.mem_append.mp member with before | last
    · exact nonzero handed before
    · rw [List.mem_singleton.mp last]
      exact zero

/-- An output that is not about an event leaves the poll of the event alone. -/
theorem PollHolds.elsewhere
    {state : PollState}
    {output : EventOutput}
    (holds : PollHolds state current)
    (after : pollAfter e current output = current)
    (returned : pollReturned e current output = none)
    (handed : handedTo e [output] = []) :
    PollHolds state (pollAfter e current output) ∧
      (∀ poll ∈ pollReturned e current output, EndsAtZero poll) ∧
        (pollReturned e current output).getD [] ++
            (pollAfter e current output).getD [] =
          current.getD [] ++ handedTo e [output] := by
  rw [after, returned, handed]
  exact ⟨holds, by simp, by simp⟩

/-- Step lemma: a poll returns after the first zero of the condition only. -/
theorem eventStep_poll
    {system next : EventSystem}
    {action : EventAction}
    {output : EventOutput}
    (stepped : eventStep system action = some (next, output))
    (holds : PollHolds (system.poller e) current) :
    PollHolds (next.poller e) (pollAfter e current output) ∧
      (∀ poll ∈ pollReturned e current output, EndsAtZero poll) ∧
        (pollReturned e current output).getD [] ++
            (pollAfter e current output).getD [] =
          current.getD [] ++ handedTo e [output] := by
  cases eventStep_steps stepped with
  | transfer => exact holds.elsewhere rfl rfl rfl
  | wake => exact holds.elsewhere rfl rfl rfl
  | @poll target idle =>
      by_cases same : target.address = e
      · subst same
        rw [idle] at holds
        obtain rfl : current = none := holds
        refine ⟨?_, by simp [pollReturned],
          by simp [pollReturned, pollAfter, handedTo]⟩
        dsimp only
        rw [assign_self, pollAfter, if_pos rfl]
        exact ⟨[], rfl, by simp⟩
      · dsimp only
        rw [assign_of_ne _ _ (Ne.symm same)]
        exact holds.elsewhere (if_neg same) rfl rfl
  | pollOther =>
      exact holds.elsewhere (if_neg (by simp)) (if_neg (by simp)) rfl
  | @take target info pipe record rc waiting queued stored =>
      by_cases same : target = e
      · subst same
        rw [waiting] at holds
        obtain ⟨poll, rfl, nonzero⟩ := holds
        refine ⟨?_, by simp [pollReturned],
          by simp [pollReturned, pollAfter, handedTo]⟩
        dsimp only
        rw [assign_self, pollAfter, if_pos rfl, Option.map_some]
        exact PollHolds.handed nonzero record rc
      · dsimp only
        rw [assign_of_ne _ _ (Ne.symm same)]
        exact holds.elsewhere (if_neg same) rfl (by simp [handedTo, same])
  | @finish target returning =>
      by_cases same : target = e
      · subst same
        rw [returning] at holds
        obtain ⟨poll, rfl, ends⟩ := holds
        refine ⟨?_, ?_, by simp [pollReturned, pollAfter, handedTo]⟩
        · dsimp only
          rw [assign_self, pollAfter, if_pos ⟨rfl, rfl⟩]
          exact rfl
        · simpa [pollReturned] using ends
      · dsimp only
        rw [assign_of_ne _ _ (Ne.symm same)]
        exact holds.elsewhere (if_neg fun returned => same returned.1)
          (if_neg fun returned => same returned.1) rfl

end PollSteps

/-- Run lemma: every poll that returned was handed records up to the first zero of
the condition, and the polls together were handed everything. -/
theorem runSteps_polls
    {system final : EventSystem}
    {actions : List EventAction}
    {outputs : List EventOutput}
    (ran : runSteps eventStep system actions = some (final, outputs))
    {e : NodeAddress}
    {current : Option (List (BufferIoEvent × Int))}
    (holds : PollHolds (system.poller e) current) :
    PollHolds (final.poller e) (pollsOf e current outputs).2 ∧
      (∀ poll ∈ (pollsOf e current outputs).1, EndsAtZero poll) ∧
        (pollsOf e current outputs).1.flatten ++
            (pollsOf e current outputs).2.getD [] =
          current.getD [] ++ handedTo e outputs := by
  induction actions generalizing system current outputs with
  | nil =>
      cases ran
      exact ⟨holds, by simp [pollsOf], by simp [pollsOf, handedTo]⟩
  | cons action actions inductionHypothesis =>
      obtain ⟨next, output, rest, stepped, restRan, rfl⟩ :=
        runSteps_cons_eq_some.mp ran
      obtain ⟨nextHolds, ends, consumed⟩ := eventStep_poll stepped holds
      obtain ⟨finalHolds, restEnd, restConsumed⟩ :=
        inductionHypothesis restRan nextHolds
      have flat (poll : Option (List (BufferIoEvent × Int))) :
          poll.toList.flatten = poll.getD [] := by
        cases poll <;> simp
      refine ⟨finalHolds, ?_, ?_⟩
      · intro poll member
        rcases List.mem_append.mp member with now | later
        · exact ends poll (Option.mem_toList.mp now)
        · exact restEnd poll later
      · rw [handedTo_cons, ← List.append_assoc, ← consumed, List.append_assoc,
          ← restConsumed, ← List.append_assoc]
        simp only [pollsOf, List.flatten_append, flat]

/-! ## Counts -/

/-- Every call sends the counts of its outcome to an event, once for every place
the event has in the list. -/
theorem sentCounts
    {buf : Buffer}
    {io : BufferIo}
    {call : BufferCall}
    (returns : io.call buf = some call)
    (bounded : io.request < 2 ^ 32)
    (e : NodeAddress) :
    (recordsFor e (wakesOf call.effects)).map BufferIoEvent.counts =
      if io.request = 0 then []
      else List.replicate (buf.eventList.count e) call.counts := by
  have wakes := BufferIo.call_wakes returns
  have countLe : io.count buf ≤ io.request := by
    cases io with
    | write src nBytes => exact Nat.min_le_left _ _
    | read dest nBytes => exact Nat.min_le_left _ _
    | reset => exact Nat.le_refl 0
  have counts : (transferRecord (io.count buf) call.buf).counts =
      call.counts := by
    rw [BufferCall.counts, wakes.rc_eq, toUnsigned_toSigned 32 (by omega)]
    rfl
  rw [wakes.wakes_eq, recordsFor_map, List.map_replicate, counts]
  split_ifs with empty <;> simp

/-- Run lemma: the counts sent to an event are those of the transfers. -/
theorem runSteps_sentCounts
    {system final : EventSystem}
    {actions : List EventAction}
    {outputs : List EventOutput}
    (admissible :
      AlongRun eventStep (fun system action => action.Admissible system) system
        actions)
    (ran : runSteps eventStep system actions = some (final, outputs))
    (e : NodeAddress) :
    (sentTo e outputs).map BufferIoEvent.counts =
      transferCounts (system.buf.eventList.count e) outputs := by
  induction actions generalizing system outputs with
  | nil =>
      cases ran
      rfl
  | cons action actions inductionHypothesis =>
      obtain ⟨next, output, rest, stepped, restRan, rfl⟩ :=
        runSteps_cons_eq_some.mp ran
      have rest_eq :=
        inductionHypothesis (admissible.2 next output stepped) restRan
      have now := admissible.1
      simp only [sentTo, transferCounts, List.flatMap_cons,
        List.map_append] at rest_eq ⊢
      cases eventStep_steps stepped with
      | @transfer io call idle returns =>
          have events : call.buf.eventList = system.buf.eventList :=
            congrArg BufferSetup.eventList (BufferIo.call_setup returns)
          rw [events] at rest_eq
          rw [rest_eq, sentCounts returns now e]
      | wake => simpa using rest_eq
      | poll => simpa using rest_eq
      | pollOther => simpa using rest_eq
      | take => simpa using rest_eq
      | finish => simpa using rest_eq

/-! ## Delivery -/

theorem exists_map_some
    {α β : Type}
    {values : α → Option β}
    {places : List α}
    (allocated : ∀ place ∈ places, (values place).isSome) :
    ∃ contents : List β, places.map values = contents.map some := by
  induction places with
  | nil => exact ⟨[], rfl⟩
  | cons place places inductionHypothesis =>
      rw [List.forall_mem_cons] at allocated
      obtain ⟨content, stored⟩ := Option.isSome_iff_exists.mp allocated.1
      obtain ⟨contents, rest⟩ := inductionHypothesis allocated.2
      exact ⟨content :: contents, by simp [stored, rest]⟩

/-- A poll in progress has passed no zero of the condition. -/
theorem PollHolds.inProgress
    {state : PollState}
    {current : Option (List (BufferIoEvent × Int))}
    (holds : PollHolds state current) :
    ∀ poll ∈ current, ∀ handed ∈ poll.dropLast, handed.2 ≠ 0 := by
  intro poll progress handed member
  cases state with
  | idle =>
      rw [PollHolds] at holds
      rw [holds] at progress
      cases progress
  | waiting =>
      obtain ⟨other, rfl, nonzero⟩ := holds
      cases progress
      exact nonzero handed (List.mem_of_mem_dropLast member)
  | returning =>
      obtain ⟨other, rfl, before, info, rfl, nonzero⟩ := holds
      cases progress
      rw [List.dropLast_concat] at member
      exact nonzero handed member

/-- The number of times an event is registered. -/
def registrations (events : List HmEvent) (e : NodeAddress) : Nat :=
  events.countP fun other => other.objType = .buffer ∧ other.address = e

theorem count_bufferEventAddAll
    (buf : Buffer)
    (events : List HmEvent)
    (e : NodeAddress) :
    (bufferEventAddAll buf events).eventList.count e =
      buf.eventList.count e + registrations events e := by
  induction events generalizing buf with
  | nil => rfl
  | cons other events inductionHypothesis =>
      rw [bufferEventAddAll, List.foldl_cons, ← bufferEventAddAll,
        inductionHypothesis, registrations, registrations, List.countP_cons]
      by_cases isBuffer : other.objType = .buffer
      · by_cases same : other.address = e
        · simp [bufferEventAdd, isBuffer, same]
          omega
        · simp [bufferEventAdd, isBuffer, same]
      · simp [bufferEventAdd, isBuffer]

/-- No record is lost and none is added. -/
theorem Delivers.length_eq
    {e : NodeAddress}
    {copies : Nat}
    {final : EventSystem}
    {outputs : List EventOutput}
    (delivers : Delivers e copies final outputs) :
    (handedTo e outputs).length + (final.bufPipe e).length +
        (recordsFor e final.waking).length =
      (transferCounts copies outputs).length := by
  obtain ⟨queued, stored, order⟩ := delivers.inOrder
  have queuedLength := congrArg List.length stored
  rw [List.length_map, List.length_map] at queuedLength
  rw [← order, queuedLength]
  simp [Nat.add_assoc]

/-- For every order of the steps of transfers and pollers, every event receives the
records of the transfers in call order, once for each of its registrations. -/
theorem bufferEvents_delivered
    (buf : Buffer)
    (noEvents : buf.eventList = [])
    (events : List HmEvent)
    (actions : List EventAction)
    (admissible :
      AlongRun eventStep (fun system action => action.Admissible system)
        (EventSystem.init (bufferEventAddAll buf events)) actions)
    (final : EventSystem)
    (outputs : List EventOutput)
    (ran :
      runSteps eventStep (EventSystem.init (bufferEventAddAll buf events))
        actions = some (final, outputs))
    (e : NodeAddress) :
    Delivers e (registrations events e) final outputs := by
  obtain ⟨owns, moves⟩ :=
    runSteps_moves (ownsRecords_init _) admissible ran e
  obtain ⟨pollHolds, returned, consumed⟩ := runSteps_polls ran
    (show PollHolds
      ((EventSystem.init (bufferEventAddAll buf events)).poller e) none from rfl)
  have counts := runSteps_sentCounts admissible ran e
  have copies : (bufferEventAddAll buf events).eventList.count e =
      registrations events e := by
    rw [count_bufferEventAddAll, noEvents, List.count_nil, Nat.zero_add]
  obtain ⟨queued, stored⟩ := exists_map_some (owns.allocated e)
  have order : sentTo e outputs =
      (handedTo e outputs).map Prod.fst ++ queued ++
        recordsFor e final.waking := by
    apply List.map_injective_iff.mpr (Option.some_injective _)
    simpa [underWay, EventSystem.init, recordsFor, stored] using moves
  exact
    { inOrder := ⟨queued, stored, by
        rw [← order, counts, ← copies]
        rfl⟩
      returned := returned
      inProgress := pollHolds.inProgress
      consumed := by simpa using consumed }

/-- Delivery to the first of two events while its poller overtakes the transfer and
stops at the second record. -/
theorem bufferEvents_delivered_two :
    ∃ final outputs,
      runSteps eventStep
          (EventSystem.init
            (bufferEventAddAll (bufferInit 4 .ring)
              [⟨7, .buffer⟩, ⟨8, .buffer⟩]))
          [.poll ⟨7, .buffer⟩, .transfer (.write [1, 2] 2), .wake 100,
            .take 7 1, .wake 101, .transfer (.read none 1), .wake 100,
            .take 7 0, .wake 102, .finish 7] =
          some (final, outputs) ∧
        Delivers 7 (registrations [⟨7, .buffer⟩, ⟨8, .buffer⟩] 7) final
          outputs := by
  refine ⟨_, _, rfl, ?_⟩
  exact bufferEvents_delivered (bufferInit 4 .ring) rfl _
    [.poll ⟨7, .buffer⟩, .transfer (.write [1, 2] 2), .wake 100, .take 7 1,
      .wake 101, .transfer (.read none 1), .wake 100, .take 7 0, .wake 102,
      .finish 7]
    (by decide) _ _ rfl 7

/-- An event that is registered twice receives two records of one write. -/
theorem bufferEvents_delivered_twice :
    ∃ final outputs,
      runSteps eventStep
          (EventSystem.init
            (bufferEventAddAll (bufferInit 4 .ring)
              [⟨7, .buffer⟩, ⟨7, .buffer⟩]))
          [.transfer (.write [1] 1), .wake 100, .wake 101] =
          some (final, outputs) ∧
        ¬Delivers 7 1 final outputs := by
  refine ⟨_, _, rfl, fun delivers => ?_⟩
  have count := delivers.length_eq
  revert count
  decide

end Hiemal
