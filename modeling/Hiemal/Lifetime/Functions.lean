import Hiemal.Lifetime.Footprints

/-!
# Functions of one object

Each function that works on one object starts from the blocks of the object, finds all
of them, and leaves the blocks of the object as the discipline has it afterwards.
-/

namespace Hiemal

open Foundation

namespace ObjectHeap

variable {heap : ObjectHeap} {home : Nat → Nat} {base : Nat} {cells : List Nat}

/-- A function has turned an object with these blocks into another one. -/
def Makes
    (heap : ObjectHeap)
    (home : Nat → Nat)
    (base : Nat)
    (cells : List Nat)
    (result : Option ObjectHeap)
    (object : LifetimeObject) : Prop :=
  ∃ after left, result = some after ∧ heap.Turns after cells left ∧
    ObjectAt after home base left object

/-! ## Buffers -/

section Buffers

variable {state : OwnedBuffer} {handle : BufferBlock} {fdNodes eventNodes : List Nat}

/-- Overwriting the structure of a buffer where it does not point to its blocks. -/
theorem BufferAt.storeHandle
    (at' : BufferAt heap home base cells state handle fdNodes eventNodes)
    (holds : heap.Holds cells)
    {new : BufferBlock}
    {object : OwnedBuffer}
    (buf : new.buf = handle.buf)
    (fdSet : new.fdSet = handle.fdSet)
    (eventList : new.eventList = handle.eventList)
    (extBuf : new.extBuf = handle.extBuf)
    (external : object.external = state.external)
    (fds : object.fdSet = state.fdSet)
    (events : object.events = state.events)
    (fdHold : new.fdHold = object.fdHold)
    (recording : new.r = object.recording.map fun added => home added.1)
    (entry : ∀ added, object.recording = some added → new.rId = added.2) :
    Makes heap home base cells (heap.store base (.buffer new)) (.buffer object) := by
  have split : cells.Perm
      ([base] ++ (rawCells handle ++ (handle.fdSet :: fdNodes) ++
        (handle.eventList :: eventNodes))) := at'.listed
  obtain ⟨storing, turns⟩ :=
    (holds.perm split).front.store base List.mem_cons_self (.buffer new)
  have framed := turns.frame (holds.perm split)
  have rest := turns.block_rest (holds.perm split)
  refine ⟨_, cells, storing, framed.perm split.symm split.symm, new, fdNodes,
    eventNodes, ?_⟩
  have area : rawCells new = rawCells handle := by
    rw [rawCells, rawCells, extBuf, buf]
  exact
    { stored := Heap.block_put_self _ _ _
      extBuf := by rw [extBuf, at'.extBuf, external]
      fdHold := fdHold
      recording := recording
      entry := entry
      raw := by
        intro place member
        rw [area] at member
        rw [rest place (by simp [member])]
        exact at'.raw place member
      fds := by
        rw [fdSet, fds]
        apply at'.fds.congr
        intro place member
        exact rest place (List.mem_append_left _ (List.mem_append_right _ member))
      events := by
        rw [eventList, events]
        apply at'.events.congr
        intro place member
        exact rest place (List.mem_append_right _ member)
      listed := by
        rw [area, fdSet, eventList]
        exact at'.listed }

/-- `buffer_fd_hold` and `buffer_fd_release`. -/
theorem BufferAt.setFdHold
    (at' : BufferAt heap home base cells state handle fdNodes eventNodes)
    (holds : heap.Holds cells)
    (fdHold : Bool) :
    Makes heap home base cells (setFdHold heap base fdHold)
      (.buffer { state with fdHold := fdHold }) := by
  rw [ObjectHeap.setFdHold, buffer_eq_some at'.stored, Option.bind_eq_bind,
    Option.bind_some]
  exact at'.storeHandle holds rfl rfl rfl rfl rfl rfl rfl rfl at'.recording at'.entry

/-- The part of `buffer_add_recording` that writes to the buffer. -/
theorem BufferAt.storeRecording
    (at' : BufferAt heap home base cells state handle fdNodes eventNodes)
    (holds : heap.Holds cells)
    (r rId : Nat) :
    Makes heap home base cells
      (heap.store base (.buffer { handle with rId := rId, r := some (home r) }))
      (.buffer { state with recording := some (r, rId) }) := by
  apply at'.storeHandle holds <;> try rfl
  · exact at'.fdHold
  · intro added found
    cases found
    rfl

/-- `buffer_fd_set_insert`. -/
theorem BufferAt.bufferFdSetInsert
    (at' : BufferAt heap home base cells state handle fdNodes eventNodes)
    (holds : heap.Holds cells)
    (fd : Int) :
    Makes heap home base cells (bufferFdSetInsert heap handle.fdSet fd)
      (.buffer { state with fdSet := Hiemal.bufferFdSetInsert state.fdSet fd }) := by
  have split : cells.Perm
      ((handle.fdSet :: fdNodes) ++
        ((base :: rawCells handle) ++ (handle.eventList :: eventNodes))) := by
    refine at'.listed.trans ?_
    rw [List.append_assoc]
    exact List.perm_append_comm_assoc _ _ _
  obtain ⟨after, left, inserted, turns, fds⟩ :=
    at'.fds.bufferFdSetInsert (holds.perm split).front fd
  have framed := turns.frame (holds.perm split)
  have rest := turns.block_rest (holds.perm split)
  refine ⟨after, _, inserted, framed.perm split.symm (List.Perm.refl _), handle, left,
    eventNodes, ?_⟩
  exact
    { stored := by
        rw [rest base (by simp)]
        exact at'.stored
      extBuf := at'.extBuf
      fdHold := at'.fdHold
      recording := at'.recording
      entry := at'.entry
      raw := by
        intro place member
        rw [rest place (by simp [member])]
        exact at'.raw place member
      fds := fds
      events := by
        apply at'.events.congr
        intro place member
        exact rest place (List.mem_append_right _ member)
      listed := by
        rw [List.append_assoc (base :: rawCells handle)]
        exact List.perm_append_comm_assoc _ _ _ }

/-- The part of `buffer_event_add` that registers the event. -/
theorem BufferAt.hmListAppend
    (at' : BufferAt heap home base cells state handle fdNodes eventNodes)
    (holds : heap.Holds cells)
    (e : Nat) :
    Makes heap home base cells (hmListAppend heap handle.eventList (home e))
      (.buffer { state with events := state.events ++ [e] }) := by
  have split : cells.Perm
      ((handle.eventList :: eventNodes) ++
        ((base :: rawCells handle) ++ (handle.fdSet :: fdNodes))) :=
    at'.listed.trans List.perm_append_comm
  obtain ⟨after, appended, turns, events⟩ :=
    at'.events.hmListAppend (holds.perm split).front (home e)
  have framed := turns.frame (holds.perm split)
  have rest := turns.block_rest (holds.perm split)
  refine ⟨after, _, appended, framed.perm split.symm (List.Perm.refl _), handle, fdNodes,
    eventNodes ++ [heap.next], ?_⟩
  exact
    { stored := by
        rw [rest base (by simp)]
        exact at'.stored
      extBuf := at'.extBuf
      fdHold := at'.fdHold
      recording := at'.recording
      entry := at'.entry
      raw := by
        intro place member
        rw [rest place (by simp [member])]
        exact at'.raw place member
      fds := by
        apply at'.fds.congr
        intro place member
        exact rest place (List.mem_append_right _ member)
      events := by
        rw [List.map_append]
        exact events
      listed := List.perm_append_comm }

/-- **`buffer_delete`** releases every block of a buffer. -/
theorem BufferAt.bufferDelete
    (at' : BufferAt heap home base cells state handle fdNodes eventNodes)
    (holds : heap.Holds cells) :
    Makes heap home base cells (bufferDelete heap base) (.gone 0) := by
  have below : base < heap.next :=
    holds.below (at'.listed.mem_iff.mpr (by simp))
  have split : cells.Perm
      (rawCells handle ++ ((handle.fdSet :: fdNodes) ++
        ((handle.eventList :: eventNodes) ++ [base]))) := by
    refine at'.listed.trans ?_
    rw [List.perm_iff_count]
    intro place
    simp only [List.count_append, List.count_cons, List.count_nil]
    omega
  have inside := holds.perm split
  -- the area
  obtain ⟨first, rawFreed, freeRaw⟩ :
      ∃ first, (if handle.extBuf then some heap else heap.free handle.buf) = some first ∧
        heap.Turns first (rawCells handle) [] := by
    have area := inside.front
    unfold rawCells at area ⊢
    by_cases external : handle.extBuf
    · rw [if_pos external] at area ⊢
      rw [if_pos external]
      exact ⟨heap, rfl, area.turns⟩
    · rw [if_neg external] at area ⊢
      rw [if_neg external]
      exact area.free
  have firstFramed := freeRaw.frame inside
  have firstHolds : first.Holds ((handle.fdSet :: fdNodes) ++
      ((handle.eventList :: eventNodes) ++ [base])) := firstFramed.holds
  have firstRest := freeRaw.block_rest inside
  -- the descriptor set
  have fds : FdSetAt first handle.fdSet fdNodes state.fdSet :=
    at'.fds.congr fun place member => firstRest place (List.mem_append_left _ member)
  obtain ⟨second, setDeleted, deleteSet⟩ := fds.bufferFdSetDelete firstHolds.front
  have secondFramed := deleteSet.frame firstHolds
  have secondHolds : second.Holds ((handle.eventList :: eventNodes) ++ [base]) :=
    secondFramed.holds
  -- the event list
  have secondRest := deleteSet.block_rest firstHolds
  have events :
      EventListAt second handle.eventList eventNodes (state.events.map home) := by
    apply at'.events.congr
    intro place member
    rw [secondRest place (List.mem_append_left _ member),
      firstRest place (List.mem_append_right _ (List.mem_append_left _ member))]
  obtain ⟨third, listDeleted, deleteList⟩ :=
    events.hmEventListDelete secondHolds.front
  have thirdFramed := deleteList.frame secondHolds
  -- the structure
  obtain ⟨after, freed, freeing⟩ := thirdFramed.holds.free
  have turns := ((firstFramed.trans secondFramed).trans thirdFramed).trans freeing
  have whole := turns.perm split.symm (List.Perm.refl [])
  refine ⟨after, [], ?_, whole, rfl, ?_, Nat.lt_of_lt_of_le below whole.next_le⟩
  · rw [ObjectHeap.bufferDelete, buffer_eq_some at'.stored]
    simp only [Option.bind_eq_bind, Option.bind_some, rawFreed, setDeleted, listDeleted]
    exact freed
  · apply whole.released base
    · exact Or.inl (at'.listed.mem_iff.mpr (by simp))
    · exact List.not_mem_nil

/-- The area of a buffer can be accessed. -/
theorem BufferAt.reachRaw
    (at' : BufferAt heap home base cells state handle fdNodes eventNodes) :
    reachRaw heap handle = some () := by
  have raw := at'.raw
  unfold rawCells at raw
  unfold ObjectHeap.reachRaw
  by_cases external : handle.extBuf
  · rw [if_pos external]
  · rw [if_neg external] at raw ⊢
    rw [raw handle.buf List.mem_cons_self]

/-- The descriptors of a buffer can be announced to. -/
theorem BufferAt.bufferSignalFds
    (at' : BufferAt heap home base cells state handle fdNodes eventNodes)
    (holds : heap.Holds cells) :
    bufferSignalFds heap handle.fdSet = some () := by
  have split : cells.Perm
      ((handle.fdSet :: fdNodes) ++
        ((base :: rawCells handle) ++ (handle.eventList :: eventNodes))) := by
    refine at'.listed.trans ?_
    rw [List.append_assoc]
    exact List.perm_append_comm_assoc _ _ _
  exact at'.fds.bufferSignalFds (holds.perm split).front

/-- The event list of a buffer. -/
theorem BufferAt.listMemory
    (at' : BufferAt heap home base cells state handle fdNodes eventNodes) :
    ∃ m, ObjectHeap.listMemory heap handle.eventList = some m ∧
      ListHolds m eventNodes (state.events.map home) := by
  obtain ⟨content, stored, _, holds⟩ := at'.events.stored
  exact ⟨_, by rw [ObjectHeap.listMemory, stored], holds⟩

end Buffers

/-! ## Events -/

section Events

variable {objType : HmEventObjType} {pending : Nat}

/-- A new event. -/
theorem hmEventInit_makes
    (home : Nat → Nat)
    (holds : heap.Holds [])
    (objType : HmEventObjType) :
    heap.Turns (hmEventInit heap objType).1 [] [heap.next] ∧
      ObjectAt (hmEventInit heap objType).1 home heap.next [heap.next]
        (.event objType 0) := by
  refine ⟨holds.malloc _, [], ?_, rfl, List.Perm.refl _⟩
  exact Heap.block_malloc_self _ _

/-- A record for an event, from its allocation to the write to the pipe. -/
theorem writePipe_makes
    (at' : ObjectAt heap home base cells (.event objType pending))
    (holds : heap.Holds cells) :
    Makes heap home base cells
      (writePipe (heap.malloc .bufIoInfo).1 base heap.next)
      (.event objType (pending + 1)) := by
  obtain ⟨bufPipe, stored, length, listed⟩ := at'
  have owned : base ∈ cells := listed.mem_iff.mpr List.mem_cons_self
  have allocated : heap.Turns (heap.malloc .bufIoInfo).1 cells (heap.next :: cells) :=
    holds.malloc _
  have kept : (heap.malloc .bufIoInfo).1.block base = some (.event objType bufPipe) :=
    (Heap.block_malloc_of_ne _ _ (Nat.ne_of_lt (holds.below owned))).trans stored
  obtain ⟨storing, turns⟩ :=
    allocated.holds.store base (List.mem_cons_of_mem _ owned)
      (.event objType (bufPipe ++ [heap.next]))
  refine ⟨_, _, ?_, allocated.trans turns, bufPipe ++ [heap.next],
    Heap.block_put_self _ _ _, ?_, ?_⟩
  · rw [writePipe, event_eq_some kept, Option.bind_eq_bind, Option.bind_some]
    exact storing
  · rw [List.length_append, length, List.length_singleton]
  · rw [← List.cons_append]
    exact (listed.cons _).trans (List.perm_append_singleton _ _).symm

/-- `hm_event_poll`. -/
theorem hmEventPoll_makes
    (at' : ObjectAt heap home base cells (.event objType pending))
    (holds : heap.Holds cells) :
    Makes heap home base cells (hmEventPoll heap base)
      (if objType ≠ .buffer then .event objType pending
      else .event objType (pending - 1)) := by
  obtain ⟨bufPipe, stored, length, listed⟩ := at'
  rw [hmEventPoll, event_eq_some stored, Option.bind_eq_bind, Option.bind_some]
  dsimp only
  by_cases other : objType ≠ .buffer
  · rw [if_pos other, if_pos other]
    exact ⟨heap, cells, rfl, holds.turns, bufPipe, stored, length, listed⟩
  rw [if_neg other, if_neg other]
  cases bufPipe with
  | nil =>
      refine ⟨heap, cells, rfl, holds.turns, [], stored, ?_, listed⟩
      rw [← length, List.length_nil]
  | cons info rest =>
      have split : cells.Perm (info :: base :: rest) :=
        listed.trans (List.Perm.swap _ _ _)
      obtain ⟨storing, turns⟩ :=
        (holds.perm split).store base (List.mem_cons_of_mem _ List.mem_cons_self)
          (.event objType rest)
      obtain ⟨after, freed, freeing⟩ := turns.holds.free
      refine ⟨after, base :: rest, ?_, (turns.trans freeing).perm split.symm
        (List.Perm.refl _), rest, ?_, ?_, List.Perm.refl _⟩
      · simp only [storing, Option.bind_eq_bind, Option.bind_some]
        exact freed
      · have different : base ≠ info := by
          rintro rfl
          have distinct := (holds.perm split).distinct
          simp at distinct
        obtain ⟨_, _, rfl⟩ := Option.map_eq_some_iff.mp freed
        apply (Heap.block_put_of_ne _ none different).trans
        exact Heap.block_put_self _ _ _
      · rw [← length, List.length_cons, Nat.add_sub_cancel]

/-- `hm_event_delete`; the records in the pipe are lost. -/
theorem hmEventDelete_makes
    (at' : ObjectAt heap home base cells (.event objType pending))
    (holds : heap.Holds cells) :
    Makes heap home base cells (hmEventDelete heap base) (.gone pending) := by
  obtain ⟨bufPipe, stored, length, listed⟩ := at'
  obtain ⟨after, freed, freeing⟩ := (holds.perm listed).free
  have owned : base ∈ cells := listed.mem_iff.mpr List.mem_cons_self
  have turns := freeing.perm listed.symm (List.Perm.refl bufPipe)
  refine ⟨after, bufPipe, ?_, turns, length, ?_,
    Nat.lt_of_lt_of_le (holds.below owned) turns.next_le⟩
  · rw [hmEventDelete, event_eq_some stored, Option.bind_eq_bind, Option.bind_some]
    exact freed
  · apply turns.released base (Or.inl owned)
    exact (List.nodup_cons.mp (holds.perm listed).distinct).1

end Events

/-! ## Recordings -/

section Recordings

variable {active : Bool} {members : List Nat} {handle : RecordingBlock}
variable {items : List (Option Nat)}

/-- A new recording. -/
theorem hmRecordingInit_makes
    (home : Nat → Nat)
    (holds : heap.Holds []) :
    ∃ after left, hmRecordingInit heap = some (after, heap.next) ∧
      heap.Turns after [] left ∧
        ObjectAt after home heap.next left (.recording true []) := by
  let items : List (Option Nat) := List.replicate maxRecordingBuffers none
  let first : ObjectHeap := (heap.malloc .uninitialised).1
  let second : ObjectHeap := (first.malloc (.buffers items)).1
  let third : ObjectHeap := (second.malloc (.buflist 0)).1
  have made : heap.Turns third [] _ :=
    ((holds.malloc .uninitialised).trans
      ((holds.malloc .uninitialised).holds.malloc (.buffers items))).trans
      (((holds.malloc .uninitialised).holds.malloc (.buffers items)).holds.malloc
        (.buflist 0))
  let handle : RecordingBlock :=
    { active := true, nBuffer := 0, buffers := heap.next + 1, buflist := heap.next + 2 }
  obtain ⟨storing, turns⟩ :=
    made.holds.store heap.next (by simp) (.recording handle)
  refine ⟨_, _, ?_, made.trans turns, handle, items, ?_⟩
  · have unfolded : hmRecordingInit heap =
        (third.store heap.next (.recording handle)).bind fun after =>
          some (after, heap.next) := rfl
    rw [unfolded, storing]
    rfl
  · exact
      { stored := Heap.block_put_self _ _ _
        active_eq := rfl
        nBuffer := rfl
        array := by
          apply (Heap.block_put_of_ne third _ (Nat.ne_of_gt (Nat.lt_succ_self _))).trans
          apply (Heap.block_malloc_of_ne second _ (Nat.ne_of_lt (Nat.lt_succ_self _))).trans
          exact Heap.block_malloc_self _ _
        room := List.length_replicate
        listedItems := by rw [List.length_nil, List.take_zero, List.map_nil]
        fits := Nat.zero_le _
        entries := by
          have different : heap.next + 2 ≠ heap.next := by omega
          apply (Heap.block_put_of_ne third _ different).trans
          exact Heap.block_malloc_self _ _
        listed := by
          rw [List.perm_iff_count]
          intro place
          show List.count place [heap.next + 2, heap.next + 1, heap.next] =
            List.count place [heap.next, heap.next + 1, heap.next + 2]
          simp only [List.count_cons, List.count_nil]
          omega }

/-- Other blocks of a recording than its structure. -/
theorem RecordingAt.different
    (at' : RecordingAt heap home base cells active members handle items)
    (holds : heap.Holds cells) :
    handle.buffers ≠ base ∧ handle.buflist ≠ base ∧ handle.buflist ≠ handle.buffers := by
  have distinct := (holds.perm at'.listed).distinct
  simp only [List.nodup_cons, List.mem_cons, List.not_mem_nil, or_false, not_or] at distinct
  exact ⟨Ne.symm distinct.1.1, Ne.symm distinct.1.2, Ne.symm distinct.2.1⟩

/-- `hm_recording_start` and `hm_recording_stop`. -/
theorem RecordingAt.setActive
    (at' : RecordingAt heap home base cells active members handle items)
    (holds : heap.Holds cells)
    (on : Bool) :
    Makes heap home base cells (setActive heap base on) (.recording on members) := by
  have owned : base ∈ cells := at'.listed.mem_iff.mpr List.mem_cons_self
  obtain ⟨storing, turns⟩ := holds.store base owned (.recording { handle with active := on })
  obtain ⟨buffers, buflist, _⟩ := at'.different holds
  refine ⟨_, cells, ?_, turns, { handle with active := on }, items, ?_⟩
  · rw [ObjectHeap.setActive, recording_eq_some at'.stored, Option.bind_eq_bind,
      Option.bind_some]
    exact storing
  · exact
      { stored := Heap.block_put_self _ _ _
        active_eq := rfl
        nBuffer := at'.nBuffer
        array := (Heap.block_put_of_ne heap _ buffers).trans at'.array
        room := at'.room
        listedItems := at'.listedItems
        fits := at'.fits
        entries := (Heap.block_put_of_ne heap _ buflist).trans at'.entries
        listed := at'.listed }

/-- A write to an entry of a recording. -/
theorem RecordingAt.hmRecordingWrite
    (at' : RecordingAt heap home base cells active members handle items)
    {rId : Nat}
    (inRange : rId < members.length) :
    hmRecordingWrite heap base rId = some () := by
  have entries : buflist heap handle.buflist = some members.length := by
    rw [buflist, at'.entries]
  rw [ObjectHeap.hmRecordingWrite, recording_eq_some at'.stored, Option.bind_eq_bind,
    Option.bind_some]
  cases handle.active with
  | false => rfl
  | true =>
      rw [if_pos rfl, entries, Option.bind_eq_bind, Option.bind_some, if_pos inRange]

/-- A store to the array behind its entries. -/
theorem RecordingAt.storeItem
    (at' : RecordingAt heap home base cells active members handle items)
    (holds : heap.Holds cells)
    (item : Option Nat) :
    ∃ after,
      heap.store handle.buffers (.buffers (items.set members.length item)) = some after ∧
        heap.Turns after cells cells ∧
          RecordingAt after home base cells active members handle
            (items.set members.length item) := by
  obtain ⟨buffers, buflist, apart⟩ := at'.different holds
  have owned : handle.buffers ∈ cells := at'.listed.mem_iff.mpr (by simp)
  obtain ⟨storing, turns⟩ := holds.store handle.buffers owned
    (.buffers (items.set members.length item))
  refine ⟨_, storing, turns, ?_⟩
  exact
    { stored := (Heap.block_put_of_ne heap _ (Ne.symm buffers)).trans at'.stored
      active_eq := at'.active_eq
      nBuffer := at'.nBuffer
      array := Heap.block_put_self _ _ _
      room := by rw [List.length_set, at'.room]
      listedItems := by
        rw [List.take_set_of_le (Nat.le_refl _)]
        exact at'.listedItems
      fits := by
        rw [List.length_set]
        exact at'.fits
      entries := (Heap.block_put_of_ne heap _ apart).trans at'.entries
      listed := at'.listed }

/-- The stores of `hm_recording_buffer_add` behind the one to the array. -/
theorem RecordingAt.addEntry
    (at' : RecordingAt heap home base cells active members handle items)
    (holds : heap.Holds cells)
    {member : Nat}
    (stored : items[members.length]? = some (some (home member))) :
    Makes heap home base cells
      (do
        let nBuffers ← buflist heap handle.buflist
        let heap ← heap.store handle.buflist (.buflist (nBuffers + 1))
        heap.store base (.recording { handle with nBuffer := members.length + 1 }))
      (.recording active (members ++ [member])) := by
  obtain ⟨buffers, buflist, apart⟩ := at'.different holds
  have listOwned : handle.buflist ∈ cells := at'.listed.mem_iff.mpr (by simp)
  have owned : base ∈ cells := at'.listed.mem_iff.mpr List.mem_cons_self
  have entries : ObjectHeap.buflist heap handle.buflist = some members.length := by
    rw [ObjectHeap.buflist, at'.entries]
  obtain ⟨firstStoring, firstTurns⟩ :=
    holds.store handle.buflist listOwned (.buflist (members.length + 1))
  obtain ⟨storing, turns⟩ := firstTurns.holds.store base owned
    (.recording { handle with nBuffer := members.length + 1 })
  have inside := (List.getElem?_eq_some_iff.mp stored).1
  refine ⟨_, cells, ?_, firstTurns.trans turns,
    { handle with nBuffer := members.length + 1 }, items, ?_⟩
  · simp only [entries, Option.bind_eq_bind, Option.bind_some, firstStoring]
    exact storing
  · exact
      { stored := Heap.block_put_self _ _ _
        active_eq := at'.active_eq
        nBuffer := by
          rw [List.length_append]
          rfl
        array := by
          apply (Heap.block_put_of_ne _ _ buffers).trans
          apply (Heap.block_put_of_ne _ _ (Ne.symm apart)).trans
          exact at'.array
        room := at'.room
        listedItems := by
          rw [List.length_append, List.length_singleton, List.map_append,
            List.take_add_one, stored, at'.listedItems]
          rfl
        fits := by
          rw [List.length_append, List.length_singleton]
          exact inside
        entries := by
          rw [List.length_append]
          apply (Heap.block_put_of_ne _ _ buflist).trans
          exact Heap.block_put_self _ _ _
        listed := at'.listed }

/-- The end of `hm_recording_delete` loses the array, the old list and a new one. -/
theorem RecordingAt.release
    (at' : RecordingAt heap home base cells active members handle items)
    (holds : heap.Holds cells) :
    Makes heap home base cells
      (do
        let (heap, buflist) := heap.malloc (.buflist 0)
        let heap ← heap.store base (.recording { handle with buflist := buflist })
        heap.free base)
      (.gone 3) := by
  have owned : base ∈ cells := at'.listed.mem_iff.mpr List.mem_cons_self
  have allocated := holds.malloc (.buflist 0 : ObjectBlock)
  obtain ⟨storing, turns⟩ := allocated.holds.store base (List.mem_cons_of_mem _ owned)
    (.recording { handle with buflist := heap.next })
  have split : (heap.next :: cells).Perm
      (base :: [heap.next, handle.buffers, handle.buflist]) :=
    (at'.listed.cons _).trans (List.Perm.swap _ _ _)
  obtain ⟨after, freed, freeing⟩ := (turns.holds.perm split).free
  have whole := (allocated.trans turns).trans
    (freeing.perm split.symm (List.Perm.refl _))
  refine ⟨after, _, ?_, whole, rfl, ?_,
    Nat.lt_of_lt_of_le (holds.below owned) whole.next_le⟩
  · simp only [Heap.address_malloc, storing, Option.bind_eq_bind, Option.bind_some]
    exact freed
  · apply whole.released base (Or.inl owned)
    exact (List.nodup_cons.mp (turns.holds.perm split).distinct).1

end Recordings

end ObjectHeap

end Hiemal
