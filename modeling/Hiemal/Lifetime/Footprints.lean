import Hiemal.Lifetime.DescriptorSets
import Hiemal.Lifetime.EventLists
import Hiemal.Lifetime.Objects

/-!
# The blocks of an object

An object is at an address, its home, and has the blocks of its structure and of what
only it points to. Each function of an object starts from these blocks and leaves those
of the object as the discipline has it.
-/

namespace Hiemal

open Foundation

namespace ObjectHeap

/-- The area of a buffer, unless it is the caller's. -/
def rawCells (handle : BufferBlock) : List Nat :=
  if handle.extBuf then [] else [handle.buf]

/-- A buffer with its structure, its descriptor set and its event list. -/
structure BufferAt
    (heap : ObjectHeap)
    (home : Nat → Nat)
    (base : Nat)
    (cells : List Nat)
    (state : OwnedBuffer)
    (handle : BufferBlock)
    (fdNodes eventNodes : List Nat) : Prop where
  stored : heap.block base = some (.buffer handle)
  extBuf : handle.extBuf = state.external
  fdHold : handle.fdHold = state.fdHold
  recording : handle.r = state.recording.map fun added => home added.1
  entry : ∀ added, state.recording = some added → handle.rId = added.2
  raw : ∀ place ∈ rawCells handle, heap.block place = some .raw
  fds : FdSetAt heap handle.fdSet fdNodes state.fdSet
  events : EventListAt heap handle.eventList eventNodes (state.events.map home)
  listed : cells.Perm
    ((base :: rawCells handle) ++ (handle.fdSet :: fdNodes) ++
      (handle.eventList :: eventNodes))

/-- A recording with its structure, its array and its list. -/
structure RecordingAt
    (heap : ObjectHeap)
    (home : Nat → Nat)
    (base : Nat)
    (cells : List Nat)
    (active : Bool)
    (members : List Nat)
    (handle : RecordingBlock)
    (items : List (Option Nat)) : Prop where
  stored : heap.block base = some (.recording handle)
  active_eq : handle.active = active
  nBuffer : handle.nBuffer = members.length
  array : heap.block handle.buffers = some (.buffers items)
  room : items.length = maxRecordingBuffers
  listedItems : items.take members.length = members.map fun member => some (home member)
  fits : members.length ≤ items.length
  entries : heap.block handle.buflist = some (.buflist members.length)
  listed : cells.Perm [base, handle.buffers, handle.buflist]

/-- An object at its home, with its blocks. -/
def ObjectAt
    (heap : ObjectHeap)
    (home : Nat → Nat)
    (base : Nat)
    (cells : List Nat) : LifetimeObject → Prop
  | .buffer state =>
      ∃ handle fdNodes eventNodes,
        BufferAt heap home base cells state handle fdNodes eventNodes
  | .event objType pending =>
      ∃ bufPipe, heap.block base = some (.event objType bufPipe) ∧
        bufPipe.length = pending ∧ cells.Perm (base :: bufPipe)
  | .recording active members =>
      ∃ handle items, RecordingAt heap home base cells active members handle items
  | .gone lost =>
      cells.length = lost ∧ heap.block base = none ∧ base < heap.next

variable {heap after : ObjectHeap} {home : Nat → Nat} {base : Nat} {cells left : List Nat}
variable {state : OwnedBuffer} {handle : BufferBlock} {fdNodes eventNodes : List Nat}

theorem length_rawCells (handle : BufferBlock) :
    (rawCells handle).length = if handle.extBuf then 0 else 1 := by
  unfold rawCells
  split <;> rfl

/-- An object takes up its number of blocks. -/
theorem ObjectAt.length_cells
    {object : LifetimeObject}
    (at' : ObjectAt heap home base cells object) :
    cells.length = object.blocks := by
  cases object with
  | buffer state =>
      obtain ⟨handle, fdNodes, eventNodes, at'⟩ := at'
      obtain ⟨content, _, _, holds⟩ := at'.events.stored
      have events := holds.length_eq
      rw [List.length_map] at events
      rw [at'.listed.length_eq, LifetimeObject.blocks, ← at'.extBuf,
        ← at'.fds.length_eq, ← events]
      simp only [List.length_append, List.length_cons, length_rawCells]
      omega
  | event objType pending =>
      obtain ⟨bufPipe, _, rfl, listed⟩ := at'
      rw [listed.length_eq, List.length_cons, LifetimeObject.blocks]
  | recording active members =>
      obtain ⟨handle, items, at'⟩ := at'
      exact at'.listed.length_eq
  | gone lost => exact at'.1

theorem BufferAt.congr
    (at' : BufferAt heap home base cells state handle fdNodes eventNodes)
    {home' : Nat → Nat}
    (same : ∀ place ∈ cells, after.block place = heap.block place)
    (homes : ∀ other ∈ (LifetimeObject.buffer state).references,
      home' other = home other) :
    BufferAt after home' base cells state handle fdNodes eventNodes := by
  have same' : ∀ place ∈ (base :: rawCells handle) ++ (handle.fdSet :: fdNodes) ++
      (handle.eventList :: eventNodes), after.block place = heap.block place :=
    fun place member => same place (at'.listed.mem_iff.mpr member)
  rw [List.forall_mem_append, List.forall_mem_append, List.forall_mem_cons] at same'
  have events : state.events.map home' = state.events.map home := by
    apply List.map_congr_left
    intro e member
    exact homes e (List.mem_append_left _ member)
  exact
    { stored := same'.1.1.1.trans at'.stored
      extBuf := at'.extBuf
      fdHold := at'.fdHold
      recording := by
        rw [at'.recording]
        cases added : state.recording with
        | none => rfl
        | some pair =>
            have known := homes pair.1 (by simp [LifetimeObject.references, added])
            rw [Option.map_some, Option.map_some, known]
      entry := at'.entry
      raw := by
        intro place member
        rw [same'.1.1.2 place member]
        exact at'.raw place member
      fds := at'.fds.congr same'.1.2
      events := by
        rw [events]
        exact at'.events.congr same'.2
      listed := at'.listed }

theorem RecordingAt.congr
    {active : Bool}
    {members : List Nat}
    {handle : RecordingBlock}
    {items : List (Option Nat)}
    (at' : RecordingAt heap home base cells active members handle items)
    {home' : Nat → Nat}
    (same : ∀ place ∈ cells, after.block place = heap.block place)
    (homes : ∀ other ∈ members, home' other = home other) :
    RecordingAt after home' base cells active members handle items := by
  have same' : ∀ place ∈ [base, handle.buffers, handle.buflist],
      after.block place = heap.block place :=
    fun place member => same place (at'.listed.mem_iff.mpr member)
  simp only [List.forall_mem_cons] at same'
  have items_eq : (members.map fun member => some (home' member)) =
      members.map fun member => some (home member) := by
    apply List.map_congr_left
    intro member listed
    rw [homes member listed]
  exact
    { stored := same'.1.trans at'.stored
      active_eq := at'.active_eq
      nBuffer := at'.nBuffer
      array := same'.2.1.trans at'.array
      room := at'.room
      listedItems := at'.listedItems.trans items_eq.symm
      fits := at'.fits
      entries := same'.2.2.1.trans at'.entries
      listed := at'.listed }

/-- **Frame.** An object whose blocks are unchanged is as before. -/
theorem ObjectAt.congr
    {object : LifetimeObject}
    (at' : ObjectAt heap home base cells object)
    {home' : Nat → Nat}
    (same : ∀ place ∈ cells, after.block place = heap.block place)
    (dead : heap.block base = none → base < heap.next →
      after.block base = none ∧ base < after.next)
    (homes : ∀ other ∈ object.references, home' other = home other) :
    ObjectAt after home' base cells object := by
  cases object with
  | buffer state =>
      obtain ⟨handle, fdNodes, eventNodes, at'⟩ := at'
      exact ⟨handle, fdNodes, eventNodes, at'.congr same homes⟩
  | event objType pending =>
      obtain ⟨bufPipe, stored, length, listed⟩ := at'
      refine ⟨bufPipe, ?_, length, listed⟩
      rw [same base (listed.mem_iff.mpr List.mem_cons_self), stored]
  | recording active members =>
      obtain ⟨handle, items, at'⟩ := at'
      exact ⟨handle, items, at'.congr same homes⟩
  | gone lost =>
      obtain ⟨length, released, below⟩ := at'
      exact ⟨length, dead released below⟩

/-! ## Accesses by kind -/

theorem buffer_eq_some
    (stored : heap.block base = some (.buffer handle)) :
    buffer heap base = some handle := by
  rw [buffer, stored]

theorem event_eq_some
    {objType : HmEventObjType}
    {bufPipe : List Nat}
    (stored : heap.block base = some (.event objType bufPipe)) :
    event heap base = some (objType, bufPipe) := by
  rw [event, stored]

theorem recording_eq_some
    {handle : RecordingBlock}
    (stored : heap.block base = some (.recording handle)) :
    recording heap base = some handle := by
  rw [recording, stored]

/-- An object that is no buffer has no buffer at its home. -/
theorem ObjectAt.buffer_eq_none
    {object : LifetimeObject}
    (at' : ObjectAt heap home base cells object)
    (other : ∀ state, object ≠ .buffer state) :
    buffer heap base = none := by
  cases object with
  | buffer state => exact absurd rfl (other state)
  | event objType pending =>
      obtain ⟨bufPipe, stored, _⟩ := at'
      rw [buffer, stored]
  | recording active members =>
      obtain ⟨handle, items, at'⟩ := at'
      rw [buffer, at'.stored]
  | gone lost => rw [buffer, at'.2.1]

theorem ObjectAt.event_eq_none
    {object : LifetimeObject}
    (at' : ObjectAt heap home base cells object)
    (other : ∀ objType pending, object ≠ .event objType pending) :
    event heap base = none := by
  cases object with
  | buffer state =>
      obtain ⟨handle, fdNodes, eventNodes, at'⟩ := at'
      rw [event, at'.stored]
  | event objType pending => exact absurd rfl (other objType pending)
  | recording active members =>
      obtain ⟨handle, items, at'⟩ := at'
      rw [event, at'.stored]
  | gone lost => rw [event, at'.2.1]

theorem ObjectAt.recording_eq_none
    {object : LifetimeObject}
    (at' : ObjectAt heap home base cells object)
    (other : ∀ active members, object ≠ .recording active members) :
    recording heap base = none := by
  cases object with
  | buffer state =>
      obtain ⟨handle, fdNodes, eventNodes, at'⟩ := at'
      rw [recording, at'.stored]
  | event objType pending =>
      obtain ⟨bufPipe, stored, _⟩ := at'
      rw [recording, stored]
  | recording active members => exact absurd rfl (other active members)
  | gone lost => rw [recording, at'.2.1]

/-! ## New buffers -/

theorem block_bufferFdSetInit
    {place : Nat}
    (below : place < heap.next) :
    (bufferFdSetInit heap).1.block place = heap.block place := by
  refine (Heap.block_malloc_of_ne _ _ ?_).trans (Heap.block_malloc_of_ne _ _ ?_)
  · exact Nat.ne_of_lt (Nat.lt_succ_of_lt below)
  · exact Nat.ne_of_lt below

/-- The part of the init functions that they share. -/
theorem initHandle_makes
    (home : Nat → Nat)
    (rawBuffer : Nat)
    (extBuf : Bool)
    (holds : heap.Holds (if extBuf then [] else [rawBuffer]))
    (raw : ∀ place ∈ (if extBuf then [] else [rawBuffer]), heap.block place = some .raw) :
    ∃ after left, initHandle heap rawBuffer extBuf = some (after, heap.next) ∧
      heap.Turns after (if extBuf then [] else [rawBuffer]) left ∧
        ObjectAt after home heap.next left (.buffer (.new extBuf)) := by
  let first : ObjectHeap := (heap.malloc .uninitialised).1
  have allocated : heap.Turns first _ (heap.next :: _) := holds.malloc .uninitialised
  have firstNext : first.next = heap.next + 1 := rfl
  obtain ⟨setMade, setAddress, setAt⟩ := bufferFdSetInit_turns allocated.holds
  let second : ObjectHeap := (bufferFdSetInit first).1
  have secondNext : second.next = heap.next + 3 := rfl
  have listMade := setMade.holds.malloc (.eventList hmReflistInit)
  let third : ObjectHeap := (second.malloc (.eventList hmReflistInit)).1
  let handle : BufferBlock :=
    { buf := rawBuffer
      extBuf := extBuf
      r := none
      rId := 0
      fdSet := first.next + 1
      fdHold := false
      eventList := second.next }
  have made := (allocated.trans setMade).trans listMade
  obtain ⟨storing, finished⟩ :=
    made.holds.store heap.next (by simp [firstNext]) (.buffer handle)
  let after : ObjectHeap := third.put heap.next (some (.buffer handle))
  have afterSecond (place : Nat) (other : place ≠ heap.next) (below : place < second.next) :
      after.block place = second.block place := by
    apply (Heap.block_put_of_ne third _ other).trans
    exact Heap.block_malloc_of_ne _ _ (Nat.ne_of_lt below)
  have listStored : after.block second.next = some (.eventList hmReflistInit) := by
    apply (Heap.block_put_of_ne third _ (by omega)).trans
    exact Heap.block_malloc_self _ _
  refine ⟨after, _, ?_, made.trans finished, handle, [first.next], [], ?_⟩
  · have unfolded : initHandle heap rawBuffer extBuf =
        (third.store heap.next (.buffer handle)).bind fun heap' => some (heap', heap.next) :=
      rfl
    rw [unfolded, storing]
    rfl
  · exact
      { stored := Heap.block_put_self _ _ _
        extBuf := rfl
        fdHold := rfl
        recording := rfl
        entry := fun added found => by cases found
        raw := by
          intro place member
          have below : place < heap.next := holds.below member
          rw [afterSecond place (Nat.ne_of_lt below) (by omega),
            block_bufferFdSetInit (by omega)]
          apply (Heap.block_malloc_of_ne _ _ (Nat.ne_of_lt below)).trans
          exact raw place member
        fds := by
          apply setAt.congr
          intro place member
          simp only [List.mem_cons, List.not_mem_nil, or_false] at member
          exact afterSecond place (by omega) (by omega)
        events :=
          { stored := by
              refine ⟨hmReflistInit, listStored, hmSubtypeId_hmReflistInit, ?_⟩
              exact listHolds_init (Or.inr rfl) _
            default := fun place member => absurd member List.not_mem_nil }
        listed := by
          show List.Perm
            (second.next :: (first.next + 1) :: first.next :: heap.next ::
              (if extBuf then [] else [rawBuffer]))
            (heap.next :: (if extBuf then [] else [rawBuffer]) ++
              [first.next + 1, first.next] ++ [second.next])
          rw [List.perm_iff_count]
          intro place
          simp only [List.count_append, List.count_cons, List.count_nil]
          omega }

/-- `buffer_init`. -/
theorem bufferInit_makes
    (home : Nat → Nat)
    (holds : heap.Holds []) :
    ∃ after base left, bufferInit heap = some (after, base) ∧
      heap.Turns after [] left ∧ heap.next ≤ base ∧
        ObjectAt after home base left (.buffer (.new false)) := by
  have allocated := holds.malloc .raw
  obtain ⟨after, left, made, turns, at'⟩ :=
    initHandle_makes home heap.next false allocated.holds (by
      intro place member
      rw [List.mem_singleton.mp member]
      exact Heap.block_malloc_self _ _)
  exact ⟨after, _, left, made, allocated.trans turns, Nat.le_succ _, at'⟩

/-- `buffer_init_ext`. -/
theorem bufferInitExt_makes
    (home : Nat → Nat)
    (holds : heap.Holds [])
    (rawBuffer : Nat) :
    ∃ after base left, bufferInitExt heap rawBuffer = some (after, base) ∧
      heap.Turns after [] left ∧ heap.next ≤ base ∧
        ObjectAt after home base left (.buffer (.new true)) := by
  obtain ⟨after, left, made, turns, at'⟩ :=
    initHandle_makes home rawBuffer true holds
      (fun place member => absurd member List.not_mem_nil)
  exact ⟨after, _, left, made, turns, Nat.le_refl _, at'⟩

end ObjectHeap

end Hiemal
