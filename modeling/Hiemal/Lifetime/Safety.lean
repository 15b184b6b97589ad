import Hiemal.Lifetime.Placement

/-!
# Memory safety of programs

A program that observes the discipline of objects never reaches a block that is not
there, whatever it allocates, registers, wakes, records and deletes in whatever order,
and a program that does not observe it does. What is allocated at the end are the blocks
of the objects that exist, and those the library loses.
-/

namespace Hiemal

open Foundation ObjectHeap LifetimeObjects

variable {m : Lifetimes} {objects : LifetimeObjects} {home : Nat → Nat}
variable {cells : Nat → List Nat} {name : Nat} {object new : LifetimeObject}

/-! ## Finding an object -/

section Lookups

theorem bufferAt_none
    (missing : bufferAt objects name = none)
    (found : objects[name]? = some object) :
    ∀ state, object ≠ .buffer state := by
  rintro state rfl
  rw [bufferAt_eq_some.mpr found] at missing
  cases missing

theorem eventAt_none
    (missing : eventAt objects name = none)
    (found : objects[name]? = some object) :
    ∀ objType pending, object ≠ .event objType pending := by
  rintro objType pending rfl
  rw [eventAt_eq_some.mpr found] at missing
  cases missing

theorem recordingAt_none
    (missing : recordingAt objects name = none)
    (found : objects[name]? = some object) :
    ∀ active members, object ≠ .recording active members := by
  rintro active members rfl
  rw [recordingAt_eq_some.mpr found] at missing
  cases missing

/-- A buffer that exists. -/
theorem Placed.at_buffer
    (placed : Placed m objects home cells)
    {state : OwnedBuffer}
    (found : bufferAt objects name = some state) :
    m.pointer name = some (home name) ∧ ∃ handle fdNodes eventNodes,
      BufferAt m.heap home (home name) (cells name) state handle fdNodes eventNodes := by
  rw [bufferAt_eq_some] at found
  refine ⟨?_, placed.objectAt name _ found⟩
  exact placed.pointer_live found (LifetimeObject.buffer_ne_gone _)

/-- An event that exists. -/
theorem Placed.at_event
    (placed : Placed m objects home cells)
    {objType : HmEventObjType}
    {pending : Nat}
    (found : eventAt objects name = some (objType, pending)) :
    m.pointer name = some (home name) ∧
      ObjectAt m.heap home (home name) (cells name) (.event objType pending) := by
  rw [eventAt_eq_some] at found
  refine ⟨?_, placed.objectAt name _ found⟩
  exact placed.pointer_live found (LifetimeObject.event_ne_gone _ _)

/-- A recording that exists. -/
theorem Placed.at_recording
    (placed : Placed m objects home cells)
    {active : Bool}
    {members : List Nat}
    (found : recordingAt objects name = some (active, members)) :
    m.pointer name = some (home name) ∧ ∃ handle items,
      RecordingAt m.heap home (home name) (cells name) active members handle items := by
  rw [recordingAt_eq_some] at found
  refine ⟨?_, placed.objectAt name _ found⟩
  exact placed.pointer_live found (LifetimeObject.recording_ne_gone _ _)

/-- Where there is no buffer, none is found. -/
theorem Placed.no_buffer
    (placed : Placed m objects home cells)
    (missing : bufferAt objects name = none)
    {address : Nat}
    (pointed : m.pointer name = some address) :
    buffer m.heap address = none := by
  obtain ⟨rfl, object, found⟩ := placed.pointer_eq pointed
  exact (placed.objectAt name object found).buffer_eq_none (bufferAt_none missing found)

theorem Placed.no_event
    (placed : Placed m objects home cells)
    (missing : eventAt objects name = none)
    {address : Nat}
    (pointed : m.pointer name = some address) :
    event m.heap address = none := by
  obtain ⟨rfl, object, found⟩ := placed.pointer_eq pointed
  exact (placed.objectAt name object found).event_eq_none (eventAt_none missing found)

theorem Placed.no_recording
    (placed : Placed m objects home cells)
    (missing : recordingAt objects name = none)
    {address : Nat}
    (pointed : m.pointer name = some address) :
    recording m.heap address = none := by
  obtain ⟨rfl, object, found⟩ := placed.pointer_eq pointed
  exact (placed.objectAt name object found).recording_eq_none
    (recordingAt_none missing found)

end Lookups

/-! ## Loops over objects -/

section Loops

/-- A loop over some objects follows the discipline: it fails where the discipline is
not observed, and otherwise it leaves the blocks of the other objects. -/
def LoopFollows
    (m : Lifetimes)
    (cells : Nat → List Nat)
    (home : Nat → Nat)
    (touched : List Nat)
    (result : Option ObjectHeap) : Option LifetimeObjects → Prop
  | none => result = none
  | some next =>
      ∃ after cells', result = some after ∧ Placed (m.withHeap after) next home cells' ∧
        ∀ other ∉ touched, cells' other = cells other ∧
          ∀ place ∈ cells other, after.block place = m.heap.block place

/-- A loop that touches nothing. -/
theorem loopFollows_nil
    (placed : Placed m objects home cells) :
    LoopFollows m cells home [] (some m.heap) (some objects) :=
  ⟨m.heap, cells, rfl, placed, fun _ _ => ⟨rfl, fun _ _ => rfl⟩⟩

/-- A loop goes on behind a function of one of its objects. -/
theorem LoopFollows.step
    {after : ObjectHeap}
    {left touched : List Nat}
    {result : Option ObjectHeap}
    {spec : Option LifetimeObjects}
    (placed : Placed m objects home cells)
    (turns : m.heap.Turns after (cells name) left)
    (rest : LoopFollows (m.withHeap after) (Function.update cells name left) home touched
      result spec) :
    LoopFollows m cells home (name :: touched) result spec := by
  cases spec with
  | none => exact rest
  | some next =>
      obtain ⟨final, cells', returns, placedAfter, others⟩ := rest
      refine ⟨final, cells', returns, placedAfter, ?_⟩
      intro other outside
      rw [List.mem_cons, not_or] at outside
      obtain ⟨cells_eq, blocks⟩ := others other outside.2
      rw [Function.update_of_ne outside.1] at cells_eq blocks
      refine ⟨cells_eq, ?_⟩
      intro place member
      exact (blocks place member).trans
        (placed.owned.block_other turns outside.1 member)

/-- One round of the loop of a wake-up. -/
theorem wakeLoop_succ
    {heap : ObjectHeap}
    {list e : Nat}
    {memory : ListMemory}
    (known : listMemory heap list = some memory)
    {index : Nat}
    (looked : hmListAt memory index = some (some e))
    (remaining : Nat) :
    wakeLoop list (remaining + 1) index heap =
      (writePipe (heap.malloc .bufIoInfo).1 e heap.next).bind
        (wakeLoop list remaining (index + 1)) := by
  rw [wakeLoop]
  simp only [known, looked, Option.bind_eq_bind, Option.bind_some, Heap.address_malloc]

/-- **The loop of a wake-up** hands every registered event a record, and fails at the
first one that was deleted. -/
theorem wakeLoop_follows
    (placed : Placed m objects home cells)
    {state : OwnedBuffer}
    (found : objects[name]? = some (.buffer state))
    {handle : BufferBlock}
    {fdNodes eventNodes : List Nat}
    (at' : BufferAt m.heap home (home name) (cells name) state handle fdNodes eventNodes)
    (bounded : ∀ e ∈ state.events, e < objects.length)
    {remaining index : Nat}
    (inRange : index + remaining = state.events.length) :
    LoopFollows m cells home (state.events.drop index)
      (wakeLoop handle.eventList remaining index m.heap)
      (wakeAll objects (state.events.drop index)) := by
  induction remaining generalizing m objects cells index with
  | zero =>
      rw [List.drop_eq_nil_of_le (by omega)]
      exact loopFollows_nil placed
  | succ remaining inductionHypothesis =>
      have within : index < state.events.length := by omega
      have inside := bounded _ (List.getElem_mem within)
      obtain ⟨list, known, holds⟩ := at'.listMemory
      -- the event at the index
      have looked : hmListAt list index = some (some (home state.events[index])) := by
        have shown : index < (state.events.map home).length := by
          rw [List.length_map]
          exact within
        rw [holds.hmListAt_eq shown, List.getElem?_map, List.getElem?_eq_getElem within]
        rfl
      rw [List.drop_eq_getElem_cons within, wakeAll, wakeLoop_succ known looked]
      generalize state.events[index] = e at inside
      cases at_e : eventAt objects e with
      | none =>
          -- a deleted event
          have there := List.getElem?_eq_getElem inside
          have missing := (placed.objectAt e _ there).event_eq_none
            (eventAt_none at_e there)
          have below := placed.home_lt there
          have dead : event (m.heap.malloc .bufIoInfo).1 (home e) = none := by
            rw [event] at missing ⊢
            rw [Heap.block_malloc_of_ne _ _ (Nat.ne_of_lt below)]
            exact missing
          rw [writePipe, dead]
          rfl
      | some pair =>
          obtain ⟨objType, pending⟩ := pair
          have there := eventAt_eq_some.mp at_e
          obtain ⟨_, atEvent⟩ := placed.at_event at_e
          obtain ⟨after, left, returns, turns, atAfter⟩ :=
            writePipe_makes atEvent (placed.owned.holds e)
          have placedAfter :=
            placed.replace there
              (placed.pointed there (LifetimeObject.event_ne_gone _ _)) turns atAfter
          have different : name ≠ e := by
            rintro rfl
            rw [found] at there
            cases there
          have foundAfter :
              (objects.set e (.event objType (pending + 1)))[name]? =
                some (.buffer state) := by
            rw [List.getElem?_set_ne (Ne.symm different)]
            exact found
          have bufferAfter :
              BufferAt after home (home name) (Function.update cells e left name) state
                handle fdNodes eventNodes := by
            rw [Function.update_of_ne different]
            refine at'.congr ?_ fun _ _ => rfl
            intro place member
            exact placed.owned.block_other turns different member
          rw [returns]
          apply LoopFollows.step placed turns
          apply inductionHypothesis placedAfter foundAfter bufferAfter
          · rw [List.length_set]
            exact bounded
          · omega

/-- **The loop of `hm_recording_delete`** deletes every buffer, and fails at the first
one that was deleted before. -/
theorem deleteBuffers_follows
    (placed : Placed m objects home cells)
    {members : List Nat}
    (bounded : ∀ member ∈ members, member < objects.length) :
    LoopFollows m cells home members
      (deleteBuffers m.heap (members.map fun member => some (home member)))
      (deleteAll objects members) := by
  induction members generalizing m objects cells with
  | nil => exact loopFollows_nil placed
  | cons member members inductionHypothesis =>
      rw [List.forall_mem_cons] at bounded
      rw [List.map_cons, deleteBuffers, deleteAll]
      cases at_buffer : bufferAt objects member with
      | none =>
          have there := List.getElem?_eq_getElem bounded.1
          have missing := (placed.objectAt member _ there).buffer_eq_none
            (bufferAt_none at_buffer there)
          simp only [bufferDelete, missing, Option.bind_eq_bind, Option.bind_some]
          rfl
      | some state =>
          have there := bufferAt_eq_some.mp at_buffer
          obtain ⟨_, handle, fdNodes, eventNodes, at'⟩ := placed.at_buffer at_buffer
          obtain ⟨after, left, returns, turns, atAfter⟩ :=
            at'.bufferDelete (placed.owned.holds member)
          have placedAfter :=
            placed.replace there
              (placed.pointed there (LifetimeObject.buffer_ne_gone _)) turns atAfter
          simp only [returns, Option.bind_eq_bind, Option.bind_some]
          apply LoopFollows.step placed turns
          apply inductionHypothesis placedAfter
          rw [List.length_set]
          exact bounded.2

end Loops

/-! ## Calls -/

section Calls

/-- A call follows the discipline: it fails where the discipline is not observed, and
otherwise the objects are placed as the discipline has them. -/
def CallFollows (result : Option Lifetimes) : Option LifetimeObjects → Prop
  | none => result = none
  | some next =>
      ∃ after home cells, result = some after ∧ Placed after next home cells ∧
        WellReferred next

/-- A call through a pointer, which fails without the object it needs. -/
theorem callFollows_pointer
    {α : Type}
    {pointer : Option Nat}
    {step : Nat → Option Lifetimes}
    {lookup : Option α}
    {spec : α → Option LifetimeObjects}
    (absent : lookup = none → ∀ address, pointer = some address → step address = none)
    (present : ∀ found, lookup = some found →
      ∃ address, pointer = some address ∧ CallFollows (step address) (spec found)) :
    CallFollows (pointer.bind step) (lookup.bind spec) := by
  cases looked : lookup with
  | none =>
      cases pointed : pointer with
      | none => rfl
      | some address => exact absent looked address pointed
  | some found =>
      obtain ⟨address, pointed, follows⟩ := present found looked
      rw [pointed]
      exact follows

/-- A function of one object. -/
theorem Placed.callFollows
    (placed : Placed m objects home cells)
    (found : objects[name]? = some object)
    (exists' : ∀ lost, object ≠ .gone lost)
    {result : Option ObjectHeap}
    (made : Makes m.heap home (home name) (cells name) result new)
    (well : WellReferred (objects.set name new)) :
    CallFollows (result.bind fun heap => some (m.withHeap heap))
      (some (objects.set name new)) := by
  obtain ⟨after, left, returns, turns, at'⟩ := made
  have placedAfter := placed.replace found (placed.pointed found exists') turns at'
  exact ⟨_, _, _, by rw [returns, Option.bind_some], placedAfter, well⟩

/-- A deleted object leaves its variable cleared. -/
theorem Placed.callFollows_cleared
    (placed : Placed m objects home cells)
    (found : objects[name]? = some object)
    (exists' : ∀ lost, object ≠ .gone lost)
    {result : Option ObjectHeap}
    {lost : Nat}
    (made : Makes m.heap home (home name) (cells name) result (.gone lost))
    (wellNext : WellReferred (objects.set name (.gone lost))) :
    CallFollows (result.bind fun heap => some (m.cleared name heap))
      (some (objects.set name (.gone lost))) := by
  obtain ⟨after, left, returns, turns, at'⟩ := made
  have placedAfter := placed.replace found (placed.pointed found exists') turns at'
  have gone := placedAfter.clear
    (List.getElem?_set_self (List.getElem?_eq_some_iff.mp found).1)
  exact ⟨_, _, _, by rw [returns, Option.bind_some]; rfl, gone, wellNext⟩

/-- An init function. -/
theorem Placed.callFollows_declare
    (placed : Placed m objects home cells)
    (well : WellReferred objects)
    (closed : new.references = [])
    {after : ObjectHeap}
    {base : Nat}
    {left : List Nat}
    (turns : m.heap.Turns after [] left)
    (at' : ObjectAt after home base left new) :
    CallFollows (some (m.declare (after, base))) (some (objects ++ [new])) :=
  ⟨_, _, _, rfl, placed.declare well turns at' closed, well.append closed⟩

/-- Nothing is held by an owner that is still to come. -/
theorem Placed.holds_nil
    (placed : Placed m objects home cells) :
    m.heap.Holds [] := by
  have holds := placed.owned.holds objects.length
  rwa [placed.only objects.length (Nat.le_refl _)] at holds

variable (well : WellReferred objects)
include well

theorem callFollows_bufferInit
    (placed : Placed m objects home cells) :
    CallFollows (lifetimeStep m .bufferInit) (objectStep objects .bufferInit) := by
  obtain ⟨after, base, left, made, turns, _, at'⟩ :=
    bufferInit_makes home placed.holds_nil
  rw [lifetimeStep, made]
  exact placed.callFollows_declare well rfl turns at'

theorem callFollows_bufferInitExt
    (placed : Placed m objects home cells)
    (rawBuffer : Nat) :
    CallFollows (lifetimeStep m (.bufferInitExt rawBuffer))
      (objectStep objects (.bufferInitExt rawBuffer)) := by
  obtain ⟨after, base, left, made, turns, _, at'⟩ :=
    bufferInitExt_makes home placed.holds_nil rawBuffer
  rw [lifetimeStep, made]
  exact placed.callFollows_declare well rfl turns at'

theorem callFollows_bufferCopy
    (placed : Placed m objects home cells)
    (srcBuf : Nat) :
    CallFollows (lifetimeStep m (.bufferCopy srcBuf))
      (objectStep objects (.bufferCopy srcBuf)) := by
  apply callFollows_pointer
  · intro missing address pointed
    rw [ObjectHeap.bufferCopy, placed.no_buffer missing pointed]
    rfl
  · intro state found
    obtain ⟨pointed, handle, fdNodes, eventNodes, source⟩ := placed.at_buffer found
    obtain ⟨after, base, left, made, turns, _, at'⟩ :=
      bufferInit_makes home placed.holds_nil
    refine ⟨_, pointed, ?_⟩
    -- the source is where it was
    have kept : BufferAt after home (home srcBuf) (cells srcBuf) state handle fdNodes
        eventNodes := by
      refine source.congr ?_ fun _ _ => rfl
      intro place member
      exact turns.outside place ((placed.owned.holds srcBuf).below member)
        List.not_mem_nil
    have copied : ObjectHeap.bufferCopy m.heap (home srcBuf) = some (after, base) := by
      rw [ObjectHeap.bufferCopy, buffer_eq_some source.stored]
      simp only [Option.bind_eq_bind, Option.bind_some, made, kept.reachRaw]
      rfl
    rw [copied]
    exact placed.callFollows_declare well rfl turns at'

theorem callFollows_bufferFdSetInsert
    (placed : Placed m objects home cells)
    (buf : Nat)
    (fd : Int) :
    CallFollows (lifetimeStep m (.bufferFdSetInsert buf fd))
      (objectStep objects (.bufferFdSetInsert buf fd)) := by
  apply callFollows_pointer
  · intro missing address pointed
    rw [placed.no_buffer missing pointed]
    rfl
  · intro state found
    obtain ⟨pointed, handle, fdNodes, eventNodes, at'⟩ := placed.at_buffer found
    rw [bufferAt_eq_some] at found
    refine ⟨_, pointed, ?_⟩
    rw [buffer_eq_some at'.stored]
    apply placed.callFollows found (LifetimeObject.buffer_ne_gone _)
    · exact at'.bufferFdSetInsert (placed.owned.holds buf) fd
    · exact well.set found (replaces_buffer rfl) (well.bounded buf (.buffer state) found)

theorem callFollows_setFdHold
    (placed : Placed m objects home cells)
    (buf : Nat)
    (fdHold : Bool) :
    CallFollows (lifetimeStep m (.setFdHold buf fdHold))
      (objectStep objects (.setFdHold buf fdHold)) := by
  apply callFollows_pointer
  · intro missing address pointed
    rw [ObjectHeap.setFdHold, placed.no_buffer missing pointed]
    rfl
  · intro state found
    obtain ⟨pointed, handle, fdNodes, eventNodes, at'⟩ := placed.at_buffer found
    rw [bufferAt_eq_some] at found
    refine ⟨_, pointed, ?_⟩
    apply placed.callFollows found (LifetimeObject.buffer_ne_gone _)
    · exact at'.setFdHold (placed.owned.holds buf) fdHold
    · exact well.set found (replaces_buffer rfl) (well.bounded buf (.buffer state) found)

theorem callFollows_bufferEventAdd
    (placed : Placed m objects home cells)
    (buf e : Nat) :
    CallFollows (lifetimeStep m (.bufferEventAdd buf e))
      (objectStep objects (.bufferEventAdd buf e)) := by
  apply callFollows_pointer
  · intro missing address pointed
    rw [ObjectHeap.bufferEventAdd, placed.no_event missing pointed]
    rfl
  · rintro ⟨objType, pending⟩ found
    obtain ⟨pointed, bufPipe, stored, _⟩ := placed.at_event found
    refine ⟨_, pointed, ?_⟩
    rw [ObjectHeap.bufferEventAdd, event_eq_some stored]
    simp only [Option.bind_eq_bind, Option.bind_some]
    by_cases other : objType ≠ .buffer
    · rw [if_pos other, if_pos other]
      exact ⟨m, home, cells, rfl, placed, well⟩
    rw [if_neg other, if_neg other]
    cases at_buffer : bufferAt objects buf with
    | none =>
        cases pointed' : m.pointer buf with
        | none => rfl
        | some address =>
            rw [Option.bind_some, placed.no_buffer at_buffer pointed']
            rfl
    | some state =>
        obtain ⟨pointed', handle, fdNodes, eventNodes, at'⟩ := placed.at_buffer at_buffer
        have foundBuffer := bufferAt_eq_some.mp at_buffer
        rw [pointed', Option.bind_some, buffer_eq_some at'.stored, Option.bind_some]
        apply placed.callFollows foundBuffer (LifetimeObject.buffer_ne_gone _)
        · exact at'.hmListAppend (placed.owned.holds buf) e
        · refine well.set foundBuffer (replaces_buffer rfl) ?_
          intro reference refers
          rcases List.mem_append.mp refers with event | recording
          · rcases List.mem_append.mp event with old | added
            · exact well.bounded buf _ foundBuffer reference (List.mem_append_left _ old)
            · rw [List.mem_singleton.mp added]
              exact (List.getElem?_eq_some_iff.mp (eventAt_eq_some.mp found)).1
          · exact well.bounded buf _ foundBuffer reference
              (List.mem_append_right _ recording)

/-- The common part of writing and reading. -/
theorem transfer_follows
    (placed : Placed m objects home cells)
    {state : OwnedBuffer}
    (found : objects[name]? = some (.buffer state))
    {handle : BufferBlock}
    {fdNodes eventNodes : List Nat}
    (at' : BufferAt m.heap home (home name) (cells name) state handle fdNodes eventNodes)
    (nBytes : Nat) :
    LoopFollows m cells home (if nBytes = 0 then [] else state.events)
      (ObjectHeap.transfer m.heap handle nBytes)
      (if nBytes = 0 then some objects else wakeAll objects state.events) := by
  by_cases empty : nBytes = 0
  · rw [ObjectHeap.transfer, if_pos empty, if_pos empty, if_pos empty]
    exact loopFollows_nil placed
  · obtain ⟨list, known, holds⟩ := at'.listMemory
    have count : 0 + list.list.nItems = state.events.length := by
      rw [holds.count, holds.length_eq, List.length_map, Nat.zero_add]
    have woken := wakeLoop_follows placed found at'
      (fun e member => well.bounded name _ found e (List.mem_append_left _ member)) count
    rw [List.drop_zero] at woken
    rw [ObjectHeap.transfer, if_neg empty, if_neg empty, if_neg empty, at'.reachRaw,
      Option.bind_eq_bind, Option.bind_some, ObjectHeap.hmEventBufferWake, known]
    exact woken

theorem wellReferred_transfer
    {state : OwnedBuffer}
    {nBytes : Nat}
    {next : LifetimeObjects}
    (done : (if nBytes = 0 then some objects else wakeAll objects state.events) =
      some next) :
    WellReferred next := by
  by_cases empty : nBytes = 0
  · rw [if_pos empty] at done
    cases done
    exact well
  · rw [if_neg empty] at done
    exact well.wakeAll done

theorem callFollows_bufferRead
    (placed : Placed m objects home cells)
    (src nBytes : Nat) :
    CallFollows (lifetimeStep m (.bufferRead src nBytes))
      (objectStep objects (.bufferRead src nBytes)) := by
  apply callFollows_pointer
  · intro missing address pointed
    rw [ObjectHeap.bufferRead, placed.no_buffer missing pointed]
    rfl
  · intro state found
    obtain ⟨pointed, handle, fdNodes, eventNodes, at'⟩ := placed.at_buffer found
    rw [bufferAt_eq_some] at found
    refine ⟨_, pointed, ?_⟩
    rw [ObjectHeap.bufferRead, buffer_eq_some at'.stored]
    simp only [Option.bind_eq_bind, Option.bind_some]
    have follows := transfer_follows well placed found at' nBytes
    cases done : (if nBytes = 0 then some objects else wakeAll objects state.events) with
    | none =>
        rw [done] at follows
        rw [show ObjectHeap.transfer m.heap handle nBytes = none from follows]
        rfl
    | some next =>
        rw [done] at follows
        obtain ⟨after, cells', returns, placedAfter, _⟩ := follows
        rw [returns]
        exact ⟨_, home, cells', rfl, placedAfter, wellReferred_transfer well done⟩

/-- The recording of a buffer exists and has its entry. -/
theorem recording_reached
    (placed : Placed m objects home cells)
    {state : OwnedBuffer}
    (found : objects[name]? = some (.buffer state))
    {handle : BufferBlock}
    {fdNodes eventNodes : List Nat}
    (at' : BufferAt m.heap home (home name) (cells name) state handle fdNodes
      eventNodes) :
    reachRecording m.heap handle = some () := by
  have known := at'.recording
  cases added : state.recording with
  | none =>
      rw [added] at known
      rw [reachRecording, show handle.r = none from known]
  | some pair =>
      obtain ⟨r, rId⟩ := pair
      rw [added] at known
      rw [reachRecording, show handle.r = some (home r) from known, at'.entry _ added]
      obtain ⟨active, members, foundRecording, entry⟩ :=
        well.recorded name state r rId found added
      obtain ⟨recording, items, atRecording⟩ := placed.objectAt r _ foundRecording
      exact atRecording.hmRecordingWrite (List.getElem?_eq_some_iff.mp entry).1

/-- **A write** reaches the recording of its buffer, its area, its events and its
descriptors. -/
theorem callFollows_bufferWrite
    (placed : Placed m objects home cells)
    (dest nBytes : Nat) :
    CallFollows (lifetimeStep m (.bufferWrite dest nBytes))
      (objectStep objects (.bufferWrite dest nBytes)) := by
  apply callFollows_pointer
  · intro missing address pointed
    rw [ObjectHeap.bufferWrite, placed.no_buffer missing pointed]
    rfl
  · intro state found
    obtain ⟨pointed, handle, fdNodes, eventNodes, at'⟩ := placed.at_buffer found
    rw [bufferAt_eq_some] at found
    refine ⟨_, pointed, ?_⟩
    rw [ObjectHeap.bufferWrite, buffer_eq_some at'.stored]
    simp only [Option.bind_eq_bind, Option.bind_some]
    rw [recording_reached well placed found at', Option.bind_some]
    have follows := transfer_follows well placed found at' nBytes
    cases done : (if nBytes = 0 then some objects else wakeAll objects state.events) with
    | none =>
        rw [done] at follows
        rw [show ObjectHeap.transfer m.heap handle nBytes = none from follows]
        rfl
    | some next =>
        rw [done] at follows
        obtain ⟨after, cells', returns, placedAfter, others⟩ := follows
        -- the buffer is no event
        obtain ⟨cells_eq, blocks⟩ := others dest (by
          by_cases empty : nBytes = 0
          · rw [if_pos empty]
            exact List.not_mem_nil
          · rw [if_neg empty] at done ⊢
            intro listed
            exact wakeAll_events done dest listed state found)
        have holds := placedAfter.owned.holds dest
        rw [cells_eq] at holds
        have atAfter := @BufferAt.congr _ after _ _ _ _ _ _ _ at' home blocks
          fun _ _ => rfl
        have announced :
            (if handle.fdHold then some after
              else (ObjectHeap.bufferSignalFds after handle.fdSet).bind fun _ =>
                pure after) = some after := by
          rw [atAfter.bufferSignalFds holds]
          cases handle.fdHold <;> rfl
        rw [returns, Option.bind_some, announced]
        exact ⟨_, home, cells', rfl, placedAfter, wellReferred_transfer well done⟩

theorem callFollows_bufferReset
    (placed : Placed m objects home cells)
    (buf : Nat) :
    CallFollows (lifetimeStep m (.bufferReset buf))
      (objectStep objects (.bufferReset buf)) := by
  apply callFollows_pointer
  · intro missing address pointed
    rw [ObjectHeap.bufferReset, placed.no_buffer missing pointed]
    rfl
  · intro state found
    obtain ⟨pointed, handle, fdNodes, eventNodes, at'⟩ := placed.at_buffer found
    refine ⟨_, pointed, ?_⟩
    rw [ObjectHeap.bufferReset, buffer_eq_some at'.stored]
    exact ⟨m, home, cells, rfl, placed, well⟩

theorem callFollows_bufferDelete
    (placed : Placed m objects home cells)
    (buf : Nat) :
    CallFollows (lifetimeStep m (.bufferDelete buf))
      (objectStep objects (.bufferDelete buf)) := by
  apply callFollows_pointer
  · intro missing address pointed
    rw [ObjectHeap.bufferDelete, placed.no_buffer missing pointed]
    rfl
  · intro state found
    obtain ⟨pointed, handle, fdNodes, eventNodes, at'⟩ := placed.at_buffer found
    rw [bufferAt_eq_some] at found
    refine ⟨_, pointed, ?_⟩
    apply placed.callFollows_cleared found (LifetimeObject.buffer_ne_gone _)
    · exact at'.bufferDelete (placed.owned.holds buf)
    · exact well.close found (LifetimeObject.buffer_ne_recording _)
        (LifetimeObject.gone_ne_buffer _) rfl

theorem callFollows_hmEventInit
    (placed : Placed m objects home cells)
    (objType : HmEventObjType) :
    CallFollows (lifetimeStep m (.hmEventInit objType))
      (objectStep objects (.hmEventInit objType)) := by
  obtain ⟨turns, at'⟩ := hmEventInit_makes home placed.holds_nil objType
  exact placed.callFollows_declare well rfl turns at'

theorem callFollows_hmEventPoll
    (placed : Placed m objects home cells)
    (e : Nat) :
    CallFollows (lifetimeStep m (.hmEventPoll e)) (objectStep objects (.hmEventPoll e)) := by
  apply callFollows_pointer
  · intro missing address pointed
    rw [ObjectHeap.hmEventPoll, placed.no_event missing pointed]
    rfl
  · rintro ⟨objType, pending⟩ found
    obtain ⟨pointed, at'⟩ := placed.at_event found
    rw [eventAt_eq_some] at found
    refine ⟨_, pointed, ?_⟩
    have made := hmEventPoll_makes at' (placed.owned.holds e)
    have wellSet (count : Nat) : WellReferred (objects.set e (.event objType count)) :=
      well.close found (LifetimeObject.event_ne_recording _ _)
        (LifetimeObject.event_ne_buffer _ _) rfl
    dsimp only
    by_cases other : objType ≠ .buffer
    · rw [if_pos other] at made ⊢
      have same : objects.set e (.event objType pending) = objects := by
        obtain ⟨inside, value⟩ := List.getElem?_eq_some_iff.mp found
        rw [← value]
        exact List.set_getElem_self inside
      have follows := placed.callFollows found
        (LifetimeObject.event_ne_gone _ _) made (wellSet pending)
      rwa [same] at follows
    · rw [if_neg other] at made ⊢
      exact placed.callFollows found
        (LifetimeObject.event_ne_gone _ _) made (wellSet (pending - 1))

theorem callFollows_hmEventDelete
    (placed : Placed m objects home cells)
    (e : Nat) :
    CallFollows (lifetimeStep m (.hmEventDelete e))
      (objectStep objects (.hmEventDelete e)) := by
  apply callFollows_pointer
  · intro missing address pointed
    rw [ObjectHeap.hmEventDelete, placed.no_event missing pointed]
    rfl
  · rintro ⟨objType, pending⟩ found
    obtain ⟨pointed, at'⟩ := placed.at_event found
    rw [eventAt_eq_some] at found
    refine ⟨_, pointed, ?_⟩
    apply placed.callFollows found (LifetimeObject.event_ne_gone _ _)
    · exact hmEventDelete_makes at' (placed.owned.holds e)
    · exact well.close found (LifetimeObject.event_ne_recording _ _)
        (LifetimeObject.gone_ne_buffer _) rfl

theorem callFollows_hmRecordingInit
    (placed : Placed m objects home cells) :
    CallFollows (lifetimeStep m .hmRecordingInit) (objectStep objects .hmRecordingInit) := by
  obtain ⟨after, left, made, turns, at'⟩ := hmRecordingInit_makes home placed.holds_nil
  rw [lifetimeStep, made]
  exact placed.callFollows_declare well rfl turns at'

theorem callFollows_setActive
    (placed : Placed m objects home cells)
    (r : Nat)
    (active : Bool) :
    CallFollows (lifetimeStep m (.setActive r active))
      (objectStep objects (.setActive r active)) := by
  apply callFollows_pointer
  · intro missing address pointed
    rw [ObjectHeap.setActive, placed.no_recording missing pointed]
    rfl
  · rintro ⟨before, members⟩ found
    obtain ⟨pointed, handle, items, at'⟩ := placed.at_recording found
    rw [recordingAt_eq_some] at found
    refine ⟨_, pointed, ?_⟩
    apply placed.callFollows found (LifetimeObject.recording_ne_gone _ _)
    · exact at'.setActive (placed.owned.holds r) active
    · refine well.set found ?_ (well.bounded r (.recording before members) found)
      exact
        { buffer := fun state same =>
            absurd same.symm (LifetimeObject.buffer_ne_recording _ _ _)
          recording := by
            rintro _ _ ⟨⟩
            exact ⟨active, [], by rw [List.append_nil]⟩ }

/-- **Adding a buffer** to a recording stores to the array, to the buffer, to the list
and to the recording. -/
theorem callFollows_hmRecordingBufferAdd
    (placed : Placed m objects home cells)
    (r buf : Nat) :
    CallFollows (lifetimeStep m (.hmRecordingBufferAdd r buf))
      (objectStep objects (.hmRecordingBufferAdd r buf)) := by
  apply callFollows_pointer
  · intro missing address pointed
    cases m.pointer buf with
    | none => rfl
    | some other =>
        rw [Option.bind_eq_bind, Option.bind_some, ObjectHeap.hmRecordingBufferAdd,
          placed.no_recording missing pointed]
        rfl
  · rintro ⟨active, members⟩ found
    obtain ⟨pointed, handle, items, at'⟩ := placed.at_recording found
    have foundRecording := recordingAt_eq_some.mp found
    refine ⟨_, pointed, ?_⟩
    have holds := placed.owned.holds r
    have read : buffers m.heap handle.buffers = some items := by
      rw [buffers, at'.array]
    have recorded := placed.pointed foundRecording
      (LifetimeObject.recording_ne_gone _ _)
    cases pointedBuf : m.pointer buf with
    | none =>
        have missing : bufferAt objects buf = none := by
          cases at_buffer : bufferAt objects buf with
          | none => rfl
          | some state =>
              rw [(placed.at_buffer at_buffer).1] at pointedBuf
              cases pointedBuf
        rw [missing]
        show CallFollows none (if maxRecordingBuffers ≤ members.length then none else none)
        rw [ite_self]
        rfl
    | some address =>
        rw [Option.bind_eq_bind, Option.bind_some, ObjectHeap.hmRecordingBufferAdd,
          recording_eq_some at'.stored]
        simp only [Option.bind_eq_bind, Option.bind_some, read, at'.nBuffer, at'.room]
        by_cases full : maxRecordingBuffers ≤ members.length
        · rw [if_pos full, if_pos full]
          rfl
        rw [if_neg full, if_neg full]
        obtain ⟨first, storing, turns, atFirst⟩ := at'.storeItem holds (some address)
        have placedFirst := placed.keep foundRecording recorded turns ⟨handle, _, atFirst⟩
        rw [storing, Option.bind_some]
        cases at_buffer : bufferAt objects buf with
        | none =>
            have missing : buffer first address = none :=
              placedFirst.no_buffer at_buffer pointedBuf
            rw [missing]
            rfl
        | some state =>
            have found' := bufferAt_eq_some.mp at_buffer
            obtain ⟨pointed', added, fdNodes, eventNodes, atBuffer⟩ :
                m.pointer buf = some (home buf) ∧ ∃ added fdNodes eventNodes,
                  BufferAt first home (home buf) (cells buf) state added fdNodes
                    eventNodes := placedFirst.at_buffer at_buffer
            obtain rfl : address = home buf := by
              rw [pointed'] at pointedBuf
              exact (Option.some.inj pointedBuf).symm
            obtain ⟨second, left, storingSecond, turnsSecond, atSecond⟩ :=
              atBuffer.storeRecording (placedFirst.owned.holds buf) r members.length
            have placedSecond := placedFirst.replace found'
              (placedFirst.pointed found' (LifetimeObject.buffer_ne_gone _))
              turnsSecond atSecond
            have different : r ≠ buf := by
              rintro rfl
              rw [foundRecording] at found'
              cases found'
            have foundSecond : (objects.set buf (.buffer
                { state with recording := some (r, members.length) }))[r]? =
                  some (.recording active members) := by
              rw [List.getElem?_set_ne (Ne.symm different)]
              exact foundRecording
            have holdsSecond := placedSecond.owned.holds r
            rw [Function.update_of_ne different] at holdsSecond
            have recordingSecond := @RecordingAt.congr _ second _ _ _ _ _ _ _ atFirst home
              (fun place member =>
                placedFirst.owned.block_other turnsSecond different member)
              fun _ _ => rfl
            have made := recordingSecond.addEntry holdsSecond
              (List.getElem?_set_self (by rw [at'.room]; omega))
            have reached : buffer first (home buf) = some added :=
              buffer_eq_some atBuffer.stored
            rw [reached, Option.bind_some, storingSecond, Option.bind_some]
            apply placedSecond.callFollows foundSecond
              (LifetimeObject.recording_ne_gone _ _)
            · rw [Function.update_of_ne different]
              exact made
            · exact well.addMember foundRecording found'

/-- **Deleting a recording** deletes its buffers. -/
theorem callFollows_hmRecordingDelete
    (placed : Placed m objects home cells)
    (r : Nat) :
    CallFollows (lifetimeStep m (.hmRecordingDelete r))
      (objectStep objects (.hmRecordingDelete r)) := by
  apply callFollows_pointer
  · intro missing address pointed
    rw [ObjectHeap.hmRecordingDelete, placed.no_recording missing pointed]
    rfl
  · rintro ⟨active, members⟩ found
    obtain ⟨pointed, handle, items, at'⟩ := placed.at_recording found
    rw [recordingAt_eq_some] at found
    refine ⟨_, pointed, ?_⟩
    have read : buffers m.heap handle.buffers = some items := by
      rw [buffers, at'.array]
    rw [ObjectHeap.hmRecordingDelete, recording_eq_some at'.stored]
    have listed : items.take handle.nBuffer =
        members.map fun member => some (home member) := by
      rw [at'.nBuffer]
      exact at'.listedItems
    simp only [Option.bind_eq_bind, Option.bind_some, read, listed]
    have bounded : ∀ member ∈ members, member < objects.length := well.bounded r _ found
    have follows := deleteBuffers_follows placed bounded
    cases done : deleteAll objects members with
    | none =>
        rw [done] at follows
        rw [show deleteBuffers m.heap (members.map fun member => some (home member)) = none
          from follows]
        rfl
    | some deleted =>
        rw [done] at follows
        obtain ⟨after, cells', returns, placedAfter, others⟩ := follows
        -- the recording is none of its buffers
        have outside : r ∉ members := fun listed =>
          deleteAll_buffers done r listed active members found
        obtain ⟨cells_eq, blocks⟩ := others r outside
        have foundAfter : deleted[r]? = some (.recording active members) := by
          rw [(well.deleteAll done).2.2 r outside]
          exact found
        have holds := placedAfter.owned.holds r
        rw [cells_eq] at holds
        have atAfter := @RecordingAt.congr _ after _ _ _ _ _ _ _ at' home blocks
          fun _ _ => rfl
        have made := atAfter.release holds
        rw [← cells_eq] at made
        have follows := placedAfter.callFollows_cleared foundAfter
          (LifetimeObject.recording_ne_gone _ _) made
          (well.deleteRecording found done)
        rw [returns, Option.bind_some]
        exact follows

end Calls

/-! ## Runs -/

/-- **Step lemma.** Every call follows the discipline. -/
theorem lifetimeStep_follows
    (placed : Placed m objects home cells)
    (well : WellReferred objects)
    (call : LifetimeCall) :
    CallFollows (lifetimeStep m call) (objectStep objects call) := by
  cases call with
  | bufferInit => exact callFollows_bufferInit well placed
  | bufferInitExt rawBuffer => exact callFollows_bufferInitExt well placed rawBuffer
  | bufferCopy srcBuf => exact callFollows_bufferCopy well placed srcBuf
  | bufferFdSetInsert buf fd => exact callFollows_bufferFdSetInsert well placed buf fd
  | setFdHold buf fdHold => exact callFollows_setFdHold well placed buf fdHold
  | bufferEventAdd buf e => exact callFollows_bufferEventAdd well placed buf e
  | bufferWrite dest nBytes => exact callFollows_bufferWrite well placed dest nBytes
  | bufferRead src nBytes => exact callFollows_bufferRead well placed src nBytes
  | bufferReset buf => exact callFollows_bufferReset well placed buf
  | bufferDelete buf => exact callFollows_bufferDelete well placed buf
  | hmEventInit objType => exact callFollows_hmEventInit well placed objType
  | hmEventPoll e => exact callFollows_hmEventPoll well placed e
  | hmEventDelete e => exact callFollows_hmEventDelete well placed e
  | hmRecordingInit => exact callFollows_hmRecordingInit well placed
  | setActive r active => exact callFollows_setActive well placed r active
  | hmRecordingBufferAdd r buf => exact callFollows_hmRecordingBufferAdd well placed r buf
  | hmRecordingDelete r => exact callFollows_hmRecordingDelete well placed r

/-- **Run lemma.** -/
theorem foldlM_follows
    (placed : Placed m objects home cells)
    (well : WellReferred objects)
    (calls : List LifetimeCall) :
    CallFollows (calls.foldlM lifetimeStep m) (calls.foldlM objectStep objects) := by
  induction calls generalizing m objects home cells with
  | nil => exact ⟨m, home, cells, rfl, placed, well⟩
  | cons call calls inductionHypothesis =>
      have follows := lifetimeStep_follows placed well call
      rw [List.foldlM_cons, List.foldlM_cons]
      cases stepped : objectStep objects call with
      | none =>
          rw [stepped] at follows
          rw [show lifetimeStep m call = none from follows]
          rfl
      | some next =>
          rw [stepped] at follows
          obtain ⟨after, home', cells', returns, placedAfter, wellAfter⟩ := follows
          rw [returns]
          exact inductionHypothesis placedAfter wellAfter

/-- The allocated blocks are those of the objects. -/
theorem Placed.length_live
    (placed : Placed m objects home cells) :
    m.heap.live.length = (objects.map LifetimeObject.blocks).sum := by
  rw [placed.owned.length_live placed.only]
  congr 1
  apply List.ext_getElem
  · rw [List.length_map, List.length_map, List.length_range]
  · intro index short inside
    rw [List.length_map] at inside
    rw [List.getElem_map, List.getElem_map, List.getElem_range]
    exact (placed.objectAt index _ (List.getElem?_eq_getElem inside)).length_cells

/-- **Memory safety.** For every program, in whatever order it makes, copies, registers,
writes, reads, polls, records and deletes: its calls reach only blocks that are there if
and only if it observes the discipline of objects, in which no call uses a deleted
object, none wakes a deleted event, and no recording deletes a buffer that is gone or
gets an eleventh one. The blocks allocated at the end are then those of the objects that
exist, the records in the pipes of deleted events, and three for every deleted
recording. -/
theorem lifetimes_areSafe (calls : List LifetimeCall) :
    match objectRun calls with
    | none => lifetimeRun calls = none
    | some objects =>
        ∃ m, lifetimeRun calls = some m ∧
          m.heap.live.length = (objects.map LifetimeObject.blocks).sum := by
  have follows := foldlM_follows placed_start wellReferred_nil calls
  rw [objectRun, lifetimeRun]
  cases observed : calls.foldlM objectStep [] with
  | none =>
      rw [observed] at follows
      exact follows
  | some objects =>
      rw [observed] at follows
      obtain ⟨m, home, cells, returns, placed, _⟩ := follows
      exact ⟨m, returns, placed.length_live⟩

/-- A buffer can be deleted behind its event, but not written to. -/
example :
    (objectRun [.bufferInit, .hmEventInit .buffer, .bufferEventAdd 0 1, .hmEventDelete 1,
      .bufferDelete 0]).isSome ∧
    objectRun [.bufferInit, .hmEventInit .buffer, .bufferEventAdd 0 1, .hmEventDelete 1,
      .bufferWrite 0 4] = none := by
  decide

end Hiemal
