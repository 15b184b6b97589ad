import Hiemal.Buffer.Effects
import Hiemal.Common.Defs

/-!
# Events on buffers

Translation of the buffer part of `core/event_unix.c` and of `buffer_event_add`.
A transfer hands one record to every registered event: `hm_event_buffer_wake`
writes a pointer to a new record into the pipe of the event, and `hm_event_poll`
takes the pointers out again, one at a time, until the condition of the event
returns zero.

The parties run concurrently. A transfer holds the mutex of its buffer until all
its records are written, so the next transfer waits for them; the pollers go on
in between. Pipes are lossless, and one poll of an event is in progress at a
time. The condition belongs to the client: what it returns is part of the run.
-/

namespace Hiemal

open Foundation

/-- `enum hm_event_obj_type`. -/
inductive HmEventObjType
  | fd
  | mutex
  | futex
  | buffer
  deriving DecidableEq, Repr

/-- `struct _hm_event`, named by its address. -/
structure HmEvent where
  address : NodeAddress
  objType : HmEventObjType
  deriving DecidableEq

def bufferEventAdd (buf : Buffer) (e : HmEvent) : Buffer × Int :=
  if e.objType ≠ .buffer then (buf, -1)
  else ({ buf with eventList := buf.eventList ++ [e.address] }, 0)

/-- Registering several events one after the other. -/
def bufferEventAddAll (buf : Buffer) (events : List HmEvent) : Buffer :=
  events.foldl (fun buf e => (bufferEventAdd buf e).1) buf

/-- The records among the effects of a call, with the events they are for. -/
def wakesOf (effects : List BufferEffect) : List (NodeAddress × BufferIoEvent) :=
  effects.filterMap fun
    | .wake e info => some (e, info)
    | _ => none

/-- The loop of `hm_event_buffer_wake` on the reference list of events in memory,
which looks every event up by its index. -/
def hmEventBufferWakeLoop
    (m : ListMemory)
    (info : BufferIoEvent) :
    (remaining index : Nat) → Option (List BufferEffect)
  | 0, _ => some []
  | remaining + 1, index => do
      let e ← ← hmListAt m index
      let rest ← hmEventBufferWakeLoop m info remaining (index + 1)
      return .wake e info :: rest

/-! ## Transfers and pollers together -/

/-- Where the poller of an event is in `hm_poll_buffer`. -/
inductive PollState
  /-- No poll is in progress. -/
  | idle
  /-- At the label `poll_fd`. -/
  | waiting
  /-- At `return 0`. -/
  | returning
  deriving DecidableEq, Repr

/-- A buffer, the records in memory, and the pipe and the poller of every event. -/
structure EventSystem where
  buf : Buffer
  /-- The records the transfer in progress has still to write, in order. -/
  waking : List (NodeAddress × BufferIoEvent)
  /-- The records allocated and not yet freed. -/
  bufIoInfo : NodeAddress → Option BufferIoEvent
  /-- The pointers in the pipe of every event, oldest first. -/
  bufPipe : NodeAddress → List NodeAddress
  poller : NodeAddress → PollState

/-- A buffer before its first transfer; the pipes are empty. -/
def EventSystem.init (buf : Buffer) : EventSystem where
  buf := buf
  waking := []
  bufIoInfo := fun _ => none
  bufPipe := fun _ => []
  poller := fun _ => .idle

/-- One step of one of the parties. -/
inductive EventAction
  /-- A client calls `buffer_write` or `buffer_read`. -/
  | transfer (io : BufferIo)
  /-- `hm_event_buffer_wake` writes the next record; `malloc` returned `info`. -/
  | wake (info : NodeAddress)
  /-- A client calls `hm_event_poll(e)`. -/
  | poll (e : HmEvent)
  /-- The poller of `e` takes a record out of the pipe; the condition returns
  `rc`. -/
  | take (e : NodeAddress) (rc : Int)
  /-- `hm_event_poll(e)` returns. -/
  | finish (e : NodeAddress)

/-- What can be seen of a step. -/
inductive EventOutput
  /-- A transfer of `n_bytes` bytes was requested and did this. -/
  | transferred (nBytes : Nat) (call : BufferCall)
  | woken
  /-- A poll began. -/
  | polling (e : NodeAddress)
  /-- A record was handed to the condition of `e`, which returned `rc`. -/
  | handed (e : NodeAddress) (info : BufferIoEvent) (rc : Int)
  /-- `hm_event_poll(e)` returned a code. -/
  | polled (e : NodeAddress) (rc : Int)

/-- Write one place of a memory or of the state of all events. -/
def assign {α : Type} (values : NodeAddress → α) (place : NodeAddress) (value : α) :
    NodeAddress → α :=
  fun other => if other = place then value else values other

/-- Execute one step; `none` if the party has to wait. -/
def eventStep (system : EventSystem) :
    EventAction → Option (EventSystem × EventOutput)
  | .transfer io =>
      match system.waking with
      | _ :: _ => none
      | [] =>
          (io.call system.buf).map fun call =>
            ({ system with buf := call.buf, waking := wakesOf call.effects },
              .transferred io.request call)
  | .wake info =>
      match system.waking with
      | [] => none
      | (e, record) :: waking =>
          some
            ({ system with
                waking := waking
                bufIoInfo := assign system.bufIoInfo info (some record)
                bufPipe := assign system.bufPipe e (system.bufPipe e ++ [info]) },
              .woken)
  | .poll e =>
      match e.objType, system.poller e.address with
      | .buffer, .idle =>
          some
            ({ system with poller := assign system.poller e.address .waiting },
              .polling e.address)
      | .buffer, _ => none
      | _, _ => some (system, .polled e.address (-1))
  | .take e rc =>
      match system.poller e, system.bufPipe e with
      | .waiting, info :: pipe =>
          (system.bufIoInfo info).map fun record =>
            ({ system with
                bufIoInfo := assign system.bufIoInfo info none
                bufPipe := assign system.bufPipe e pipe
                poller := assign system.poller e
                  (if rc ≠ 0 then .waiting else .returning) },
              .handed e record rc)
      | _, _ => none
  | .finish e =>
      match system.poller e with
      | .returning =>
          some
            ({ system with poller := assign system.poller e .idle },
              .polled e 0)
      | _ => none

/-- The client's and the environment's side of a step: requests are unsigned
numbers, and `malloc` returns memory that is not in use. -/
def EventAction.Admissible (system : EventSystem) : EventAction → Prop
  | .transfer io => io.request < 2 ^ 32
  | .wake info => system.bufIoInfo info = none
  | _ => True

instance decidableEventAdmissible (system : EventSystem) :
    (action : EventAction) → Decidable (action.Admissible system)
  | .transfer _ => inferInstanceAs (Decidable (_ < _))
  | .wake _ => inferInstanceAs (Decidable (_ = _))
  | .poll _ => inferInstanceAs (Decidable True)
  | .take _ _ => inferInstanceAs (Decidable True)
  | .finish _ => inferInstanceAs (Decidable True)

end Hiemal
