import Hiemal.Lifetime.Defs

/-!
# The discipline of objects

What a program has to observe is a matter of its objects alone, without blocks and
pointers: which of them exist, which events a buffer wakes, which buffers a recording
deletes. This module states the discipline as a step function on objects, which are
named in the order of their init functions, and what the discipline keeps.
-/

namespace Hiemal

open Foundation

/-- A buffer as its program sees it. -/
structure OwnedBuffer where
  /-- Made with `buffer_init_ext`. -/
  external : Bool
  fdSet : List Int
  fdHold : Bool
  /-- The registered events, in order. -/
  events : List Nat
  /-- The recording it was added to last, and its entry there. -/
  recording : Option (Nat × Nat)
  deriving DecidableEq

/-- What an init function has made. -/
inductive LifetimeObject
  | buffer (state : OwnedBuffer)
  /-- An event with the number of records in its pipe. -/
  | event (objType : HmEventObjType) (pending : Nat)
  /-- A recording and the buffers added to it. -/
  | recording (active : Bool) (members : List Nat)
  /-- Deleted; `lost` of its blocks are still allocated. -/
  | gone (lost : Nat)
  deriving DecidableEq

/-- Number of blocks an object takes up. -/
def LifetimeObject.blocks : LifetimeObject → Nat
  | .buffer state =>
      (if state.external then 0 else 1) + state.fdSet.length + state.events.length + 3
  | .event _ pending => pending + 1
  | .recording _ _ => 3
  | .gone lost => lost

/-- The objects an object refers to. -/
def LifetimeObject.references : LifetimeObject → List Nat
  | .buffer state => state.events ++ (state.recording.map Prod.fst).toList
  | .event _ _ => []
  | .recording _ members => members
  | .gone _ => []

/-- A buffer after its init function. -/
def OwnedBuffer.new (external : Bool) : OwnedBuffer where
  external := external
  fdSet := bufferFdSetInit
  fdHold := false
  events := []
  recording := none

abbrev LifetimeObjects := List LifetimeObject

namespace LifetimeObjects

variable (objects : LifetimeObjects)

def bufferAt (name : Nat) : Option OwnedBuffer :=
  match objects[name]? with
  | some (.buffer state) => some state
  | _ => none

def eventAt (name : Nat) : Option (HmEventObjType × Nat) :=
  match objects[name]? with
  | some (.event objType pending) => some (objType, pending)
  | _ => none

def recordingAt (name : Nat) : Option (Bool × List Nat) :=
  match objects[name]? with
  | some (.recording active members) => some (active, members)
  | _ => none

/-- Every event gets a record; a deleted one cannot. -/
def wakeAll : LifetimeObjects → (events : List Nat) → Option LifetimeObjects
  | objects, [] => some objects
  | objects, e :: events => do
      let (objType, pending) ← eventAt objects e
      wakeAll (objects.set e (.event objType (pending + 1))) events

/-- Every buffer is deleted; a deleted one cannot. -/
def deleteAll : LifetimeObjects → (members : List Nat) → Option LifetimeObjects
  | objects, [] => some objects
  | objects, member :: members => do
      let _ ← bufferAt objects member
      deleteAll (objects.set member (.gone 0)) members

/-- A transfer wakes the events of its buffer, unless it is empty. -/
def transfer (name nBytes : Nat) : Option LifetimeObjects := do
  let state ← bufferAt objects name
  if nBytes = 0 then some objects else wakeAll objects state.events

end LifetimeObjects

open LifetimeObjects

/-- The discipline of a program, call by call. Recordings are not mentioned where a
buffer is written to. -/
def objectStep (objects : LifetimeObjects) : LifetimeCall → Option LifetimeObjects
  | .bufferInit => some (objects ++ [.buffer (.new false)])
  | .bufferInitExt _ => some (objects ++ [.buffer (.new true)])
  | .bufferCopy srcBuf => do
      let _ ← bufferAt objects srcBuf
      return objects ++ [.buffer (.new false)]
  | .bufferFdSetInsert buf fd => do
      let state ← bufferAt objects buf
      return objects.set buf
        (.buffer { state with fdSet := bufferFdSetInsert state.fdSet fd })
  | .setFdHold buf fdHold => do
      let state ← bufferAt objects buf
      return objects.set buf (.buffer { state with fdHold := fdHold })
  | .bufferEventAdd buf e => do
      let (objType, _) ← eventAt objects e
      if objType ≠ .buffer then some objects
      else
        let state ← bufferAt objects buf
        return objects.set buf (.buffer { state with events := state.events ++ [e] })
  | .bufferWrite dest nBytes => LifetimeObjects.transfer objects dest nBytes
  | .bufferRead src nBytes => LifetimeObjects.transfer objects src nBytes
  | .bufferReset buf => do
      let _ ← bufferAt objects buf
      return objects
  | .bufferDelete buf => do
      let _ ← bufferAt objects buf
      return objects.set buf (.gone 0)
  | .hmEventInit objType => some (objects ++ [.event objType 0])
  | .hmEventPoll e => do
      let (objType, pending) ← eventAt objects e
      if objType ≠ .buffer then some objects
      else some (objects.set e (.event objType (pending - 1)))
  | .hmEventDelete e => do
      let (_, pending) ← eventAt objects e
      return objects.set e (.gone pending)
  | .hmRecordingInit => some (objects ++ [.recording true []])
  | .setActive r active => do
      let (_, members) ← recordingAt objects r
      return objects.set r (.recording active members)
  | .hmRecordingBufferAdd r buf => do
      let (active, members) ← recordingAt objects r
      if maxRecordingBuffers ≤ members.length then none
      else
        let state ← bufferAt objects buf
        let state := { state with recording := some (r, members.length) }
        return (objects.set buf (.buffer state)).set r
          (.recording active (members ++ [buf]))
  | .hmRecordingDelete r => do
      let (_, members) ← recordingAt objects r
      let objects ← deleteAll objects members
      return objects.set r (.gone 3)

/-- The objects of a program. -/
def objectRun (calls : List LifetimeCall) : Option LifetimeObjects :=
  calls.foldlM objectStep []

/-! ## What the discipline keeps -/

namespace LifetimeObject

theorem buffer_ne_gone
    (state : OwnedBuffer)
    (lost : Nat) :
    buffer state ≠ gone lost := by
  intro same
  cases same

theorem event_ne_gone
    (objType : HmEventObjType)
    (pending lost : Nat) :
    event objType pending ≠ gone lost := by
  intro same
  cases same

theorem recording_ne_gone
    (active : Bool)
    (members : List Nat)
    (lost : Nat) :
    recording active members ≠ gone lost := by
  intro same
  cases same

theorem buffer_ne_recording
    (state : OwnedBuffer)
    (active : Bool)
    (members : List Nat) :
    buffer state ≠ recording active members := by
  intro same
  cases same

theorem event_ne_buffer
    (objType : HmEventObjType)
    (pending : Nat)
    (state : OwnedBuffer) :
    event objType pending ≠ buffer state := by
  intro same
  cases same

theorem event_ne_recording
    (objType : HmEventObjType)
    (pending : Nat)
    (active : Bool)
    (members : List Nat) :
    event objType pending ≠ recording active members := by
  intro same
  cases same

theorem gone_ne_buffer
    (lost : Nat)
    (state : OwnedBuffer) :
    gone lost ≠ buffer state := by
  intro same
  cases same

end LifetimeObject

section Lookups

variable {objects : LifetimeObjects} {name : Nat}

theorem bufferAt_eq_some
    {state : OwnedBuffer} :
    bufferAt objects name = some state ↔ objects[name]? = some (.buffer state) := by
  unfold bufferAt
  split
  · next found =>
      rw [found, Option.some.injEq, Option.some.injEq, LifetimeObject.buffer.injEq]
  · next other =>
      constructor
      · intro found
        cases found
      · intro found
        exact absurd found (other state)

theorem eventAt_eq_some
    {objType : HmEventObjType}
    {pending : Nat} :
    eventAt objects name = some (objType, pending) ↔
      objects[name]? = some (.event objType pending) := by
  unfold eventAt
  split
  · next found =>
      rw [found, Option.some.injEq, Option.some.injEq, LifetimeObject.event.injEq,
        Prod.mk.injEq]
  · next other =>
      constructor
      · intro found
        cases found
      · intro found
        exact absurd found (other objType pending)

theorem recordingAt_eq_some
    {active : Bool}
    {members : List Nat} :
    recordingAt objects name = some (active, members) ↔
      objects[name]? = some (.recording active members) := by
  unfold recordingAt
  split
  · next found =>
      rw [found, Option.some.injEq, Option.some.injEq, LifetimeObject.recording.injEq,
        Prod.mk.injEq]
  · next other =>
      constructor
      · intro found
        cases found
      · intro found
        exact absurd found (other active members)

end Lookups

/-- References lead to objects, and the recording of a buffer exists and has the buffer
at its entry. -/
structure WellReferred (objects : LifetimeObjects) : Prop where
  bounded : ∀ (name : Nat) (object : LifetimeObject), objects[name]? = some object →
    ∀ other ∈ object.references, other < objects.length
  recorded : ∀ (name : Nat) (state : OwnedBuffer) (r rId : Nat),
    objects[name]? = some (.buffer state) → state.recording = some (r, rId) →
      ∃ active members, objects[r]? = some (.recording active members) ∧
        members[rId]? = some name

/-- An object may take the place of another without a reference breaking: a recording
keeps its buffers, and a buffer its recording. -/
structure Replaces (object new : LifetimeObject) : Prop where
  buffer : ∀ state', new = .buffer state' →
    ∃ state, object = .buffer state ∧ state'.recording = state.recording
  recording : ∀ active members, object = .recording active members →
    ∃ active' behind, new = .recording active' (members ++ behind)

section WellReferred

variable {objects : LifetimeObjects} {name : Nat} {object new : LifetimeObject}

theorem wellReferred_nil : WellReferred [] where
  bounded := fun name object found => by simp at found
  recorded := fun name state r rId found => by simp at found

/-- An object without references can be added. -/
theorem WellReferred.append
    (well : WellReferred objects)
    (closed : new.references = []) :
    WellReferred (objects ++ [new]) where
  bounded := by
    intro name object found other refers
    rw [List.length_append]
    rcases List.mem_append.mp (List.mem_of_getElem? found) with old | added
    · rcases Nat.lt_or_ge name objects.length with before | behind
      · rw [List.getElem?_append_left before] at found
        exact Nat.lt_add_right _ (well.bounded name object found other refers)
      · rw [List.getElem?_append_right behind] at found
        rw [List.mem_singleton.mp (List.mem_of_getElem? found), closed] at refers
        exact absurd refers List.not_mem_nil
    · rw [List.mem_singleton.mp added, closed] at refers
      exact absurd refers List.not_mem_nil
  recorded := by
    intro name state r rId found recording
    rcases Nat.lt_or_ge name objects.length with before | behind
    · rw [List.getElem?_append_left before] at found
      obtain ⟨active, members, foundRecording, entry⟩ :=
        well.recorded name state r rId found recording
      refine ⟨active, members, ?_, entry⟩
      rw [List.getElem?_append_left (List.getElem?_eq_some_iff.mp foundRecording).1]
      exact foundRecording
    · rw [List.getElem?_append_right behind] at found
      rw [← List.mem_singleton.mp (List.mem_of_getElem? found)] at closed
      rw [LifetimeObject.references, recording] at closed
      simp at closed

/-- Replacing an object. -/
theorem WellReferred.set
    (well : WellReferred objects)
    (found : objects[name]? = some object)
    (replaces : Replaces object new)
    (bounded : ∀ other ∈ new.references, other < objects.length) :
    WellReferred (objects.set name new) where
  bounded := by
    intro place there at' other refers
    rw [List.length_set]
    by_cases same : place = name
    · subst same
      rw [List.getElem?_set_self (List.getElem?_eq_some_iff.mp found).1] at at'
      cases at'
      exact bounded other refers
    · rw [List.getElem?_set_ne (Ne.symm same)] at at'
      exact well.bounded place there at' other refers
  recorded := by
    have inside := (List.getElem?_eq_some_iff.mp found).1
    intro place state r rId at' recording
    -- the buffer had the same recording
    obtain ⟨before, beforeAt, same⟩ :
        ∃ before, objects[place]? = some (.buffer before) ∧
          state.recording = before.recording := by
      by_cases here : place = name
      · subst here
        rw [List.getElem?_set_self inside] at at'
        cases at'
        obtain ⟨before, rfl, same⟩ := replaces.buffer state rfl
        exact ⟨before, found, same⟩
      · rw [List.getElem?_set_ne (Ne.symm here)] at at'
        exact ⟨state, at', rfl⟩
    obtain ⟨active, members, foundRecording, entry⟩ :=
      well.recorded place before r rId beforeAt (same ▸ recording)
    by_cases here : r = name
    · subst here
      rw [found] at foundRecording
      cases foundRecording
      obtain ⟨active', behind, rfl⟩ := replaces.recording active members rfl
      refine ⟨active', members ++ behind, List.getElem?_set_self inside, ?_⟩
      rw [List.getElem?_append_left (List.getElem?_eq_some_iff.mp entry).1]
      exact entry
    · refine ⟨active, members, ?_, entry⟩
      rw [List.getElem?_set_ne (Ne.symm here)]
      exact foundRecording

/-- A buffer whose recording stays. -/
theorem replaces_buffer
    {state state' : OwnedBuffer}
    (same : state'.recording = state.recording) :
    Replaces (.buffer state) (.buffer state') where
  buffer := by
    rintro _ ⟨⟩
    exact ⟨state, rfl, same⟩
  recording := fun active members same =>
    absurd same (LifetimeObject.buffer_ne_recording state active members)

/-- Replacing what is no recording by an object without references. -/
theorem WellReferred.close
    (well : WellReferred objects)
    (found : objects[name]? = some object)
    (notRecording : ∀ active members, object ≠ .recording active members)
    (notBuffer : ∀ state, new ≠ .buffer state)
    (closed : new.references = []) :
    WellReferred (objects.set name new) := by
  apply well.set found
  · exact
      { buffer := fun state same => absurd same (notBuffer state)
        recording := fun active members same => absurd same (notRecording active members) }
  · rw [closed]
    exact fun other refers => absurd refers List.not_mem_nil

/-- Only events are woken. -/
theorem wakeAll_events
    {events : List Nat}
    {after : LifetimeObjects}
    (woken : LifetimeObjects.wakeAll objects events = some after) :
    ∀ e ∈ events, ∀ state, objects[e]? ≠ some (.buffer state) := by
  induction events generalizing objects with
  | nil => exact fun _ member => absurd member List.not_mem_nil
  | cons first events inductionHypothesis =>
      obtain ⟨⟨objType, pending⟩, found, rest⟩ := Option.bind_eq_some_iff.mp woken
      rw [eventAt_eq_some] at found
      intro e member state at'
      by_cases same : e = first
      · rw [same, found] at at'
        cases at'
      · refine inductionHypothesis rest e ((List.mem_cons.mp member).resolve_left same)
          state ?_
        rw [List.getElem?_set_ne (Ne.symm same)]
        exact at'

/-- Only buffers are deleted with a recording. -/
theorem deleteAll_buffers
    {members : List Nat}
    {after : LifetimeObjects}
    (deleted : LifetimeObjects.deleteAll objects members = some after) :
    ∀ member ∈ members, ∀ active others,
      objects[member]? ≠ some (.recording active others) := by
  induction members generalizing objects with
  | nil => exact fun _ member => absurd member List.not_mem_nil
  | cons first members inductionHypothesis =>
      obtain ⟨state, found, rest⟩ := Option.bind_eq_some_iff.mp deleted
      rw [bufferAt_eq_some] at found
      intro member listed active others at'
      by_cases same : member = first
      · rw [same, found] at at'
        cases at'
      · refine inductionHypothesis rest member
          ((List.mem_cons.mp listed).resolve_left same) active others ?_
        rw [List.getElem?_set_ne (Ne.symm same)]
        exact at'

theorem WellReferred.wakeAll
    (well : WellReferred objects)
    {events : List Nat}
    {after : LifetimeObjects}
    (woken : LifetimeObjects.wakeAll objects events = some after) :
    WellReferred after := by
  induction events generalizing objects with
  | nil =>
      cases woken
      exact well
  | cons e events inductionHypothesis =>
      obtain ⟨⟨objType, pending⟩, found, rest⟩ := Option.bind_eq_some_iff.mp woken
      rw [eventAt_eq_some] at found
      have wellSet : WellReferred (objects.set e (.event objType (pending + 1))) :=
        well.close found (LifetimeObject.event_ne_recording _ _)
          (LifetimeObject.event_ne_buffer _ _) rfl
      exact inductionHypothesis wellSet rest

/-- Deleting buffers leaves the other objects, and no buffer among the deleted ones. -/
theorem WellReferred.deleteAll
    (well : WellReferred objects)
    {members : List Nat}
    {after : LifetimeObjects}
    (deleted : LifetimeObjects.deleteAll objects members = some after) :
    WellReferred after ∧
      (∀ member ∈ members, after[member]? = some (.gone 0)) ∧
        ∀ other ∉ members, after[other]? = objects[other]? := by
  induction members generalizing objects with
  | nil =>
      cases deleted
      exact ⟨well, fun _ member => absurd member List.not_mem_nil, fun _ _ => rfl⟩
  | cons first members inductionHypothesis =>
      obtain ⟨state, found, rest⟩ := Option.bind_eq_some_iff.mp deleted
      rw [bufferAt_eq_some] at found
      have inside := (List.getElem?_eq_some_iff.mp found).1
      have wellSet : WellReferred (objects.set first (.gone 0)) :=
        well.close found (LifetimeObject.buffer_ne_recording _)
          (LifetimeObject.gone_ne_buffer _) rfl
      obtain ⟨wellAfter, gone, others⟩ := inductionHypothesis wellSet rest
      refine ⟨wellAfter, ?_, ?_⟩
      · intro member listed
        by_cases again : member ∈ members
        · exact gone member again
        · rw [others member again]
          obtain rfl := (List.mem_cons.mp listed).resolve_right again
          exact List.getElem?_set_self inside
      · intro other outside
        rw [List.mem_cons, not_or] at outside
        rw [others other outside.2, List.getElem?_set_ne (Ne.symm outside.1)]

/-- **Adding a buffer** to a recording. -/
theorem WellReferred.addMember
    (well : WellReferred objects)
    {r : Nat}
    {active : Bool}
    {members : List Nat}
    (foundRecording : objects[r]? = some (.recording active members))
    {state : OwnedBuffer}
    (found : objects[name]? = some (.buffer state)) :
    WellReferred
      ((objects.set name (.buffer { state with recording := some (r, members.length) })).set
        r (.recording active (members ++ [name]))) := by
  have inside := (List.getElem?_eq_some_iff.mp found).1
  have insideRecording := (List.getElem?_eq_some_iff.mp foundRecording).1
  have different : r ≠ name := by
    rintro rfl
    rw [found] at foundRecording
    cases foundRecording
  have stays : ∀ (place : Nat) (object : LifetimeObject),
      ((objects.set name
          (.buffer { state with recording := some (r, members.length) })).set r
            (.recording active (members ++ [name])))[place]? = some object →
        (place = r ∧ object = .recording active (members ++ [name])) ∨
          (place = name ∧
            object = .buffer { state with recording := some (r, members.length) }) ∨
          (place ≠ r ∧ place ≠ name ∧ objects[place]? = some object) := by
    intro place object at'
    by_cases isRecording : place = r
    · rw [isRecording, List.getElem?_set_self (by rwa [List.length_set])] at at'
      cases at'
      exact Or.inl ⟨isRecording, rfl⟩
    rw [List.getElem?_set_ne (Ne.symm isRecording)] at at'
    by_cases isBuffer : place = name
    · rw [isBuffer, List.getElem?_set_self inside] at at'
      cases at'
      exact Or.inr (Or.inl ⟨isBuffer, rfl⟩)
    · rw [List.getElem?_set_ne (Ne.symm isBuffer)] at at'
      exact Or.inr (Or.inr ⟨isRecording, isBuffer, at'⟩)
  exact
    { bounded := by
        intro place object at' other refers
        rw [List.length_set, List.length_set]
        rcases stays place object at' with ⟨_, rfl⟩ | ⟨_, rfl⟩ | ⟨_, _, before⟩
        · rcases List.mem_append.mp refers with old | added
          · exact well.bounded r _ foundRecording other old
          · rw [List.mem_singleton.mp added]
            exact inside
        · rcases List.mem_append.mp refers with old | added
          · exact well.bounded name _ found other (List.mem_append_left _ old)
          · rw [List.mem_singleton.mp added]
            exact insideRecording
        · exact well.bounded place object before other refers
      recorded := by
        intro place other r' rId at' recording
        have atRecording :
            ((objects.set name
                (.buffer { state with recording := some (r, members.length) })).set r
                  (.recording active (members ++ [name])))[r]? =
              some (.recording active (members ++ [name])) :=
          List.getElem?_set_self (by rwa [List.length_set])
        rcases stays place _ at' with ⟨_, same⟩ | ⟨rfl, same⟩ | ⟨_, notBuffer, before⟩
        · cases same
        · cases same
          cases recording
          exact ⟨active, _, atRecording, List.getElem?_concat_length⟩
        · obtain ⟨active', members', foundOther, entry⟩ :=
            well.recorded place other r' rId before recording
          by_cases same : r' = r
          · subst same
            rw [foundRecording] at foundOther
            cases foundOther
            refine ⟨active, _, atRecording, ?_⟩
            rw [List.getElem?_append_left (List.getElem?_eq_some_iff.mp entry).1]
            exact entry
          · refine ⟨active', members', ?_, entry⟩
            have notName : r' ≠ name := by
              rintro rfl
              rw [found] at foundOther
              cases foundOther
            rw [List.getElem?_set_ne (Ne.symm same), List.getElem?_set_ne (Ne.symm notName)]
            exact foundOther }

/-- **Deleting a recording** with all its buffers breaks no reference. -/
theorem WellReferred.deleteRecording
    (well : WellReferred objects)
    {active : Bool}
    {members : List Nat}
    (found : objects[name]? = some (.recording active members))
    {after : LifetimeObjects}
    (deleted : LifetimeObjects.deleteAll objects members = some after) :
    WellReferred (after.set name (.gone 3)) := by
  obtain ⟨wellAfter, gone, others⟩ := well.deleteAll deleted
  have stays : ∀ place object, (after.set name (.gone 3))[place]? = some object →
      object = .gone 3 ∨ place ≠ name ∧ after[place]? = some object := by
    intro place object at'
    by_cases same : place = name
    · subst same
      by_cases inside : place < after.length
      · rw [List.getElem?_set_self inside] at at'
        cases at'
        exact Or.inl rfl
      · rw [List.getElem?_eq_none (by rw [List.length_set]; omega)] at at'
        cases at'
    · rw [List.getElem?_set_ne (Ne.symm same)] at at'
      exact Or.inr ⟨same, at'⟩
  exact
    { bounded := by
        intro place object at' other refers
        rw [List.length_set]
        rcases stays place object at' with rfl | ⟨_, before⟩
        · exact absurd refers List.not_mem_nil
        · exact wellAfter.bounded place object before other refers
      recorded := by
        intro place state r rId at' recording
        rcases stays place _ at' with same | ⟨_, before⟩
        · cases same
        obtain ⟨active', members', foundRecording, entry⟩ :=
          wellAfter.recorded place state r rId before recording
        have different : r ≠ name := by
          -- its buffers are gone
          rintro rfl
          have same : members' = members := by
            by_cases own : r ∈ members
            · rw [gone r own] at foundRecording
              cases foundRecording
            · rw [others r own, found] at foundRecording
              cases foundRecording
              rfl
          rw [same] at entry
          rw [gone place (List.mem_of_getElem? entry)] at before
          cases before
        refine ⟨active', members', ?_, entry⟩
        rw [List.getElem?_set_ne (Ne.symm different)]
        exact foundRecording }

end WellReferred

end Hiemal
