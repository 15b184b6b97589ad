import Hiemal.Foundation.Monitor
import Mathlib.Data.List.ReduceOption

/-!
# Methods that send on bounded channels

A statement under the mutex may send records on channels that hold only so many. One
that finds no room waits until a receiver has made some, and holds the mutex meanwhile.

As long as there are receivers, the threads can do all they can do with unbounded
channels. By themselves they can do exactly that for which there is room, so a thread
that waits for the mutex can get it exactly if there is room for all that the thread
inside has still to send.
-/

namespace Hiemal
namespace Foundation

variable {Shared Fixed Call Env Reply Out Thread Channel : Type*}

/-- Channels for some of what is put out. -/
structure Channels (Out Channel : Type*) where
  /-- Where it is sent, if at all. -/
  target : Out → Option Channel
  /-- How many records a channel holds at most. -/
  capacity : Channel → Nat

/-- Threads, and how many records wait in each channel. -/
structure ChannelSystem (Thread Shared Call Env Out Channel : Type*) where
  system : MonitorSystem Thread Shared Call Env Out
  pending : Channel → Nat

/-- A step of a thread or of a receiver. -/
inductive ChannelAction (Thread Call Channel : Type*)
  | take (action : MonitorAction Thread Call)
  /-- Take one record out of a channel. -/
  | receive (channel : Channel)

/-- The step of a thread. -/
def ChannelAction.taken :
    ChannelAction Thread Call Channel → Option (MonitorAction Thread Call)
  | .take action => some action
  | .receive _ => none

namespace Channels

variable [DecidableEq Channel] (channels : Channels Out Channel)

/-- How many records are sent on a channel. -/
def sent (out : List Out) (channel : Channel) : Nat :=
  (out.filterMap channels.target).count channel

/-- What waits in the channels once it is sent. -/
def send (pending : Channel → Nat) (out : List Out) : Channel → Nat :=
  fun channel => pending channel + channels.sent out channel

/-- There is room for all that is sent. -/
def Room (pending : Channel → Nat) (out : List Out) : Prop :=
  ∀ channel ∈ out.filterMap channels.target,
    channels.send pending out channel ≤ channels.capacity channel

instance (pending : Channel → Nat) (out : List Out) :
    Decidable (channels.Room pending out) :=
  inferInstanceAs (Decidable (∀ channel ∈ out.filterMap channels.target,
    channels.send pending out channel ≤ channels.capacity channel))

/-- At most one record is sent. -/
def Single (out : List Out) : Prop :=
  (out.filterMap channels.target).length ≤ 1

section Room

variable {channels} {pending : Channel → Nat}

theorem send_nil : channels.send pending [] = pending := by
  funext channel
  simp [send, sent]

theorem send_append (first second : List Out) :
    channels.send pending (first ++ second) =
      channels.send (channels.send pending first) second := by
  funext channel
  simp only [send, sent, List.filterMap_append, List.count_append, Nat.add_assoc]

/-- What is not sent takes no room. -/
theorem room_of_silent
    {out : List Out}
    (silent : out.filterMap channels.target = []) :
    channels.Room pending out := by
  intro channel member
  rw [silent] at member
  cases member

/-- There is room for what is sent in two parts if there is for the first, and then
for the second. -/
theorem room_append {first second : List Out} :
    channels.Room pending (first ++ second) ↔
      channels.Room pending first ∧
        channels.Room (channels.send pending first) second := by
  constructor
  · intro room
    constructor
    · intro channel member
      have fits := room channel
        (by rw [List.filterMap_append]; exact List.mem_append_left _ member)
      rw [send_append] at fits
      exact Nat.le_trans (Nat.le_add_right _ _) fits
    · intro channel member
      have fits := room channel
        (by rw [List.filterMap_append]; exact List.mem_append_right _ member)
      rw [send_append] at fits
      exact fits
  · rintro ⟨roomFirst, roomSecond⟩ channel member
    rw [send_append]
    by_cases later : channel ∈ second.filterMap channels.target
    · exact roomSecond channel later
    · rw [List.filterMap_append, List.mem_append, or_iff_left later] at member
      have nothing : channels.sent second channel = 0 :=
        List.count_eq_zero_of_not_mem later
      rw [send, nothing, Nat.add_zero]
      exact roomFirst channel member

theorem Room.shorten
    {first out : List Out}
    (isPrefix : first <+: out)
    (room : channels.Room pending out) :
    channels.Room pending first := by
  obtain ⟨later, rfl⟩ := isPrefix
  exact (room_append.mp room).1

/-- One record fits into an empty channel. -/
theorem room_of_single
    (positive : ∀ channel, 0 < channels.capacity channel)
    {out : List Out}
    (single : channels.Single out)
    (empty : ∀ channel ∈ out.filterMap channels.target, pending channel = 0) :
    channels.Room pending out := by
  intro channel member
  have once : channels.sent out channel ≤ 1 :=
    Nat.le_trans List.count_le_length single
  have here := empty channel member
  have capacity := positive channel
  rw [send]
  omega

end Room

/-! ## Steps -/

variable [DecidableEq Thread]
variable (monitor : Monitor Shared Fixed Call Env Reply Out)

/-- One step. What a thread puts out needs room, and a receiver needs a record. -/
def step (state : ChannelSystem Thread Shared Call Env Out Channel) :
    ChannelAction Thread Call Channel →
      Option (ChannelSystem Thread Shared Call Env Out Channel ×
        Option (MonitorEvent Thread Call Reply Out))
  | .take action =>
      match monitor.step state.system action with
      | none => none
      | some (next, event) =>
          if channels.Room state.pending event.out then
            some ({ system := next
                    pending := channels.send state.pending event.out }, some event)
          else none
  | .receive channel =>
      if 0 < state.pending channel then
        some ({ state with
          pending :=
            Function.update state.pending channel (state.pending channel - 1) },
          none)
      else none

section Steps

variable {channels monitor}
variable {state final : ChannelSystem Thread Shared Call Env Out Channel}
variable {system next : MonitorSystem Thread Shared Call Env Out}
variable {event : MonitorEvent Thread Call Reply Out}
variable {events : List (MonitorEvent Thread Call Reply Out)}

/-- A thread takes its step where there is room. -/
theorem step_take_eq_some
    {action : MonitorAction Thread Call}
    {output : Option (MonitorEvent Thread Call Reply Out)} :
    channels.step monitor state (.take action) = some (final, output) ↔
      ∃ next event, monitor.step state.system action = some (next, event) ∧
        channels.Room state.pending event.out ∧
          final =
              { system := next
                pending := channels.send state.pending event.out } ∧
            output = some event := by
  rw [step]
  cases monitor.step state.system action with
  | none => simp
  | some moved =>
      obtain ⟨next, event⟩ := moved
      dsimp only
      split
      · rename_i room
        simp [room, eq_comm]
      · rename_i full
        constructor
        · intro stepped
          cases stepped
        · rintro ⟨_, _, moved, room, _⟩
          cases moved
          exact absurd room full

/-- Whatever the channels hold, the threads do what they do with unbounded ones. -/
theorem runSteps_monitor
    {actions : List (ChannelAction Thread Call Channel)}
    {outputs : List (Option (MonitorEvent Thread Call Reply Out))}
    (ran : runSteps (channels.step monitor) state actions =
      some (final, outputs)) :
    runSteps monitor.step state.system (actions.filterMap ChannelAction.taken) =
      some (final.system, outputs.reduceOption) := by
  induction actions generalizing state outputs with
  | nil =>
      cases ran
      rfl
  | cons action actions inductionHypothesis =>
      obtain ⟨next, output, rest, stepped, restRan, rfl⟩ :=
        runSteps_cons_eq_some.mp ran
      have later := inductionHypothesis restRan
      cases action with
      | take action =>
          obtain ⟨system, event, moved, _, rfl, rfl⟩ := step_take_eq_some.mp stepped
          exact runSteps_cons_eq_some.mpr ⟨_, _, _, moved, later, rfl⟩
      | receive channel =>
          rw [step] at stepped
          split at stepped
          · cases stepped
            exact later
          · cases stepped

/-- By themselves the threads take the steps for which there is room. -/
theorem runSteps_take
    {actions : List (MonitorAction Thread Call)}
    (ran : runSteps monitor.step state.system actions = some (system, events))
    (room : channels.Room state.pending (emitted events)) :
    runSteps (channels.step monitor) state (actions.map .take) =
      some ({ system := system
              pending := channels.send state.pending (emitted events) },
        events.map some) := by
  induction actions generalizing state events with
  | nil =>
      cases ran
      rw [emitted, List.flatMap_nil, send_nil]
      rfl
  | cons action actions inductionHypothesis =>
      obtain ⟨next, event, rest, stepped, restRan, rfl⟩ :=
        runSteps_cons_eq_some.mp ran
      rw [emitted, List.flatMap_cons, ← emitted] at room ⊢
      obtain ⟨now, later⟩ := room_append.mp room
      rw [send_append]
      exact runSteps_cons_eq_some.mpr
        ⟨_, _, _, step_take_eq_some.mpr ⟨next, event, stepped, now, rfl, rfl⟩,
          inductionHypothesis restRan later, rfl⟩

/-- They take no others. -/
theorem room_of_runSteps_take
    {actions : List (MonitorAction Thread Call)}
    {outputs : List (Option (MonitorEvent Thread Call Reply Out))}
    (ran : runSteps (channels.step monitor) state (actions.map .take) =
      some (final, outputs)) :
    channels.Room state.pending (emitted outputs.reduceOption) := by
  induction actions generalizing state outputs with
  | nil =>
      cases ran
      exact room_of_silent rfl
  | cons action actions inductionHypothesis =>
      obtain ⟨next, output, rest, stepped, restRan, rfl⟩ :=
        runSteps_cons_eq_some.mp ran
      obtain ⟨system, event, _, room, rfl, rfl⟩ := step_take_eq_some.mp stepped
      rw [List.reduceOption_cons_of_some, emitted, List.flatMap_cons]
      exact room_append.mpr ⟨room, inductionHypothesis restRan⟩

/-! ## With receivers -/

/-- Receivers can empty a channel. -/
theorem drain
    (state : ChannelSystem Thread Shared Call Env Out Channel)
    (channel : Channel) :
    ∃ actions outputs,
      runSteps (channels.step monitor) state actions =
        some ({ state with pending := Function.update state.pending channel 0 },
          outputs) := by
  induction waiting : state.pending channel generalizing state with
  | zero =>
      refine ⟨[], [], ?_⟩
      rw [← waiting, Function.update_eq_self]
      rfl
  | succ records inductionHypothesis =>
      have stepped : channels.step monitor state (.receive channel) =
          some ({ state with
            pending := Function.update state.pending channel records }, none) := by
        rw [step, if_pos (by omega), waiting, Nat.add_sub_cancel]
      obtain ⟨actions, outputs, ran⟩ :=
        inductionHypothesis
          { state with pending := Function.update state.pending channel records }
          (Function.update_self ..)
      refine ⟨.receive channel :: actions, none :: outputs, ?_⟩
      rw [Function.update_idem] at ran
      exact runSteps_cons_eq_some.mpr ⟨_, _, _, stepped, ran, rfl⟩

/-- Receivers can make room for one record. -/
theorem room_for_single
    (positive : ∀ channel, 0 < channels.capacity channel)
    (state : ChannelSystem Thread Shared Call Env Out Channel)
    {out : List Out}
    (single : channels.Single out) :
    ∃ actions pending outputs,
      runSteps (channels.step monitor) state actions =
          some ({ state with pending := pending }, outputs) ∧
        channels.Room pending out := by
  cases targets : out.filterMap channels.target with
  | nil => exact ⟨[], state.pending, [], rfl, room_of_silent targets⟩
  | cons channel others =>
      obtain ⟨actions, outputs, ran⟩ :=
        @drain _ _ _ _ _ _ _ _ _ channels _ monitor state channel
      refine ⟨actions, _, outputs, ran, room_of_single positive single ?_⟩
      have alone : others = [] := by
        rw [Single, targets, List.length_cons] at single
        exact List.eq_nil_of_length_eq_zero (by omega)
      rw [targets, alone]
      intro other member
      rw [List.mem_singleton.mp member, Function.update_self]

/-- As long as there are receivers, the threads can do all that they can do with
unbounded channels, if they send one record at a time. -/
theorem runSteps_received
    (positive : ∀ channel, 0 < channels.capacity channel)
    {actions : List (MonitorAction Thread Call)}
    (ran : runSteps monitor.step state.system actions = some (system, events))
    (single : ∀ event ∈ events, channels.Single event.out) :
    ∃ more after outputs,
      runSteps (channels.step monitor) state more = some (after, outputs) ∧
        after.system = system := by
  induction actions generalizing state events with
  | nil =>
      cases ran
      exact ⟨[], state, [], rfl, rfl⟩
  | cons action actions inductionHypothesis =>
      obtain ⟨next, event, rest, stepped, restRan, rfl⟩ :=
        runSteps_cons_eq_some.mp ran
      rw [List.forall_mem_cons] at single
      obtain ⟨received, pending, nothing, made, room⟩ :=
        @room_for_single _ _ _ _ _ _ _ _ _ channels _ monitor positive state
          event.out single.1
      have taken : channels.step monitor { state with pending := pending }
          (.take action) =
            some ({ system := next, pending := channels.send pending event.out },
              some event) :=
        step_take_eq_some.mpr ⟨next, event, stepped, room, rfl, rfl⟩
      obtain ⟨more, after, outputs, moreRan, same⟩ :=
        @inductionHypothesis
          { system := next, pending := channels.send pending event.out } rest
          restRan single.2
      exact ⟨(received ++ [.take action]) ++ more, after, _,
        runSteps_append (runSteps_concat made taken) moreRan, same⟩

/-! ## Progress -/

/-- Records are sent one at a time. -/
structure OneByOne
    (channels : Channels Out Channel)
    (monitor : Monitor Shared Fixed Call Env Reply Out) : Prop where
  body : ∀ {known call env body}, monitor.enter known call = .critical env body →
    ∀ statement ∈ body, ∀ shared env, channels.Single (statement shared env).2.2
  lock : channels.Single monitor.lockOut
  unlock : channels.Single monitor.unlockOut

omit [DecidableEq Channel] in
theorem OneByOne.step
    (oneByOne : OneByOne channels monitor)
    (reached : monitor.Reached system)
    {action : MonitorAction Thread Call}
    (stepped : monitor.step system action = some (next, event)) :
    channels.Single event.out := by
  rcases Monitor.step_out stepped with nothing | locks | unlocks | advances
  · rw [nothing]
    exact Nat.zero_le 1
  · rw [locks]
    exact oneByOne.lock
  · rw [unlocks]
    exact oneByOne.unlock
  · obtain ⟨holder, held, statement, rest, inside, out⟩ := advances
    obtain ⟨call, env, done, enters⟩ := reached.rest_inside inside
    rw [out]
    exact oneByOne.body enters statement (by simp) system.shared held

omit [DecidableEq Channel] in
theorem OneByOne.run
    (oneByOne : OneByOne channels monitor)
    (reached : monitor.Reached system)
    {actions : List (MonitorAction Thread Call)}
    (ran : runSteps monitor.step system actions = some (next, events)) :
    ∀ event ∈ events, channels.Single event.out := by
  induction actions generalizing system events with
  | nil =>
      cases ran
      simp
  | cons action actions inductionHypothesis =>
      obtain ⟨between, event, rest, stepped, restRan, rfl⟩ :=
        runSteps_cons_eq_some.mp ran
      rw [List.forall_mem_cons]
      exact ⟨oneByOne.step reached stepped,
        inductionHypothesis (reached.step stepped) restRan⟩

variable {thread : Thread} {call : Call} {env : Env}
variable {body : List (Statement Shared Env Out)}

/-- With receivers, a thread that waits for the mutex can get it. -/
theorem OneByOne.enters
    (oneByOne : OneByOne channels monitor)
    (positive : ∀ channel, 0 < channels.capacity channel)
    (reached : monitor.Reached state.system)
    (waiting : state.system.phase thread = .waiting call env body) :
    ∃ actions after outputs,
      runSteps (channels.step monitor) state actions = some (after, outputs) ∧
        after.system.phase thread = .inside env body := by
  obtain ⟨_, _, _, moves, after, events, ran, entered, _⟩ := reached.enters waiting
  obtain ⟨actions, later, outputs, received, same⟩ :=
    runSteps_received positive ran (oneByOne.run reached ran)
  refine ⟨actions, later, outputs, received, ?_⟩
  rw [same]
  exact entered

/-- Without them, it can exactly if there is room for all that the thread inside has
still to send. -/
theorem enters_iff_room
    (silent : monitor.lockOut.filterMap channels.target = [])
    (reached : monitor.Reached state.system)
    (waiting : state.system.phase thread = .waiting call env body) :
    (∃ actions : List (MonitorAction Thread Call), ∃ after outputs,
      runSteps (channels.step monitor) state (actions.map .take) =
          some (after, outputs) ∧
        after.system.phase thread = .inside env body) ↔
      ∀ holder held rest, state.system.phase holder = .inside held rest →
        channels.Room state.pending
          (monitor.finish state.system.shared held rest).2.2 := by
  constructor
  · rintro ⟨actions, after, outputs, ran, entered⟩ holder held rest inside
    have moved := runSteps_monitor ran
    have different : thread ≠ holder := by
      rintro rfl
      rw [waiting] at inside
      cases inside
    apply (room_of_runSteps_take ran).shorten
    exact reached.emits_before inside moved different entered
  · intro room
    obtain ⟨settled, due, settles, actions, after, events, ran, entered, out⟩ :=
      reached.enters waiting
    have roomDue : channels.Room state.pending due := by
      cases settles with
      | free outside unlocked => exact room_of_silent rfl
      | held inside alone locked => exact room _ _ _ inside
    have roomAll : channels.Room state.pending (emitted events) := by
      rw [out]
      exact room_append.mpr ⟨roomDue, room_of_silent silent⟩
    exact ⟨actions, _, _, runSteps_take ran roomAll, entered⟩

end Steps
end Channels
end Foundation
end Hiemal
