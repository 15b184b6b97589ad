import Hiemal.Buffer.Held

/-!
# What calls do, in order

A call with a nonempty request locks the mutex, copies, wakes the registered
events once the state is updated, and unlocks the mutex. A write records its data
before that and signals its descriptors after it. A call with an empty request
does nothing in between.
-/

namespace Hiemal

open Foundation

/-- The number of bytes a call requests. -/
def BufferIo.request : BufferIo → Nat
  | .write _ nBytes => nBytes
  | .read _ nBytes => nBytes
  | .reset => 0

/-- What a call passes to a recording. -/
def BufferIo.recorded (buf : Buffer) : BufferIo → List BufferEffect
  | .write src nBytes => recordWrite buf src nBytes
  | .read _ _ => []
  | .reset => []

/-- The effects of a transfer of `count` bytes that leaves the buffer `after`: it
locks the mutex, copies, wakes the events and unlocks the mutex. -/
def transferEffects
    (ranges : List Access)
    (events : List Nat)
    (count : Nat)
    (after : Buffer) : List BufferEffect :=
  .lock ::
      (ranges.map .access ++
        hmEventBufferWake events .write count (bufferNReadBytes after)
          (bufferNWriteBytes after)) ++
    [.unlock]

/-- A call performed a transfer of `count` bytes. -/
structure Performs
    (events : List Nat)
    (count : Nat)
    (call : BufferCall) : Prop where
  rc_eq : call.rc = toSigned 32 count
  effects_eq :
    ∃ ranges, call.effects = transferEffects ranges events count call.buf

/-- A call recorded something, performed a transfer unless its request is empty,
and signalled descriptors. -/
structure Does
    (events : List Nat)
    (request count : Nat)
    (recorded : List BufferEffect)
    (call : BufferCall) : Prop where
  rc_eq : call.rc = toSigned 32 count
  effects_eq :
    ∃ ranges signals,
      call.effects =
          recorded ++
              (if request = 0 then []
              else transferEffects ranges events count call.buf) ++
            signals ∧
        ∀ effect ∈ signals, ∃ fd nBytes, effect = .signal fd nBytes

section Transfers

variable {buf : Buffer} {nBytes count : Nat} {dest : Option (List UInt8)}
variable {events : List Nat}

/-- Waking the events is a loop, also over an empty list. -/
theorem wakeEvents_eq (buf : Buffer) (ioType : BufferIoType) (nBytes : Nat) :
    wakeEvents buf ioType nBytes =
      hmEventBufferWake buf.eventList ioType nBytes (bufferNReadBytes buf)
        (bufferNWriteBytes buf) := by
  unfold wakeEvents
  split
  · rfl
  · have none : buf.eventList = [] := by
      rw [← List.length_eq_zero_iff]
      omega
    rw [none]
    rfl

/-- The effects are copies. -/
def Copies (effects : List BufferEffect) : Prop :=
  ∃ ranges : List Access, effects = ranges.map .access

theorem copies_areaAccess
    (buf : Buffer)
    (position nBytes : Nat) :
    Copies [areaAccess buf position nBytes] :=
  ⟨[_], rfl⟩

theorem Copies.append
    {first second : List BufferEffect}
    (firstCopies : Copies first)
    (secondCopies : Copies second) :
    Copies (first ++ second) := by
  obtain ⟨ranges, rfl⟩ := firstCopies
  obtain ⟨others, rfl⟩ := secondCopies
  exact ⟨ranges ++ others, List.map_append.symm⟩

theorem copies_copyOutAccess
    (src : Buffer)
    (dest : Option (List UInt8))
    (position nBytes : Nat) :
    Copies (copyOutAccess src dest position nBytes) := by
  unfold copyOutAccess
  split
  · exact copies_areaAccess src position nBytes
  · exact ⟨[], rfl⟩

/-- The common end of a transfer. -/
theorem finishTransfer_performs
    {mode : Char}
    {accesses : List BufferEffect}
    (copies : Copies accesses)
    (events_eq : buf.eventList = events) :
    Performs events nBytes
      (finishTransfer buf mode dest nBytes accesses) where
  rc_eq := by simp only [finishTransfer, returnUnlocked]
  effects_eq := by
    have kept : (setBufferState buf mode).eventList = events := by
      rw [← events_eq]
      exact congrArg BufferSetup.eventList (setup_setBufferState buf mode)
    obtain ⟨ranges, rfl⟩ := copies
    refine ⟨ranges, ?_⟩
    simp only [finishTransfer, returnUnlocked]
    rw [wakeEvents_eq, kept]
    rfl

theorem lbufWriteHeld_performs
    (events_eq : buf.eventList = events)
    (src : List UInt8) :
    Performs events nBytes (lbufWriteHeld buf src nBytes) :=
  finishTransfer_performs (copies_areaAccess _ _ _) (by exact events_eq)

theorem lbufReadHeld_performs
    (events_eq : buf.eventList = events) :
    Performs events nBytes (lbufReadHeld buf dest nBytes) :=
  finishTransfer_performs (copies_copyOutAccess _ _ _ _) (by exact events_eq)

theorem rbufWriteHeld_performs
    (events_eq : buf.eventList = events)
    (src : List UInt8) :
    Performs events nBytes (rbufWriteHeld buf src nBytes) := by
  unfold rbufWriteHeld
  dsimp only
  split
  · apply finishTransfer_performs
    · exact (copies_areaAccess _ _ _).append (copies_areaAccess _ _ _)
    · exact events_eq
  · apply finishTransfer_performs
    · exact copies_areaAccess _ _ _
    · exact events_eq

theorem rbufReadHeld_performs
    (events_eq : buf.eventList = events) :
    Performs events nBytes (rbufReadHeld buf dest nBytes) := by
  unfold rbufReadHeld
  dsimp only
  split
  · apply finishTransfer_performs
    · exact (copies_copyOutAccess _ _ _ _).append (copies_copyOutAccess _ _ _ _)
    · exact events_eq
  · apply finishTransfer_performs
    · exact copies_copyOutAccess _ _ _ _
    · exact events_eq

/-- The common beginning of a transfer. -/
theorem lockedTransfer_does
    {type : BufferType}
    {held : Buffer → BufferCall}
    {call : BufferCall}
    (type_eq : buf.type = type)
    (returns : lockedTransfer buf type dest nBytes held = some call)
    (empty : nBytes = 0 → count = 0)
    (performs : ∀ m, Performs events count (held { buf with m := m })) :
    Does events nBytes count [] call := by
  unfold lockedTransfer at returns
  rw [if_neg (not_not_intro type_eq)] at returns
  by_cases none : nBytes = 0
  · rw [if_pos none] at returns
    cases returns
    exact
      { rc_eq := by
          rw [empty none]
          exact (toSigned_zero 32).symm
        effects_eq := ⟨[], [], by simp [none, returnEarly], by simp⟩ }
  · rw [if_neg none] at returns
    obtain ⟨m, _, served⟩ := Option.bind_eq_some_iff.mp returns
    cases served
    obtain ⟨ranges, effects⟩ := (performs m).effects_eq
    exact
      { rc_eq := (performs m).rc_eq
        effects_eq := ⟨ranges, [], by simp [none, effects], by simp⟩ }

/-- The end of a write records before and signals after the transfer. -/
theorem signalWrite_does
    {call : BufferCall}
    (does : Does events nBytes count [] call)
    (recorded : List BufferEffect) :
    Does events nBytes count recorded (signalWrite recorded call) where
  rc_eq := by
    simp only [signalWrite, does.rc_eq]
    rw [toSigned_toUnsigned_eq, toSigned_toSigned]
  effects_eq := by
    obtain ⟨ranges, signals, effects, signalled⟩ := does.effects_eq
    rw [signalWrite_buf]
    simp only [signalWrite]
    rw [effects, List.nil_append, ← List.append_assoc, List.append_assoc _ signals]
    refine ⟨ranges, _, rfl, ?_⟩
    intro effect member
    rcases List.mem_append.mp member with before | last
    · exact signalled effect before
    · split at last
      · cases last
      · obtain ⟨fd, _, rfl⟩ := List.mem_map.mp last
        exact ⟨fd, _, rfl⟩

end Transfers

/-- What a call does: it records, transfers, and signals. -/
theorem BufferIo.call_does
    {buf : Buffer}
    {io : BufferIo}
    {call : BufferCall}
    (returns : io.call buf = some call) :
    Does buf.eventList io.request (io.count buf) (io.recorded buf) call := by
  have held (m : HmMutex) (nBytes : Nat) :
      prepareBufWrite { buf with m := m } nBytes =
          min nBytes (bufferNWriteBytes buf) ∧
        prepareBufRead { buf with m := m } nBytes =
          min nBytes (bufferNReadBytes buf) :=
    ⟨prepareBufWrite_eq _ nBytes, prepareBufRead_eq _ nBytes⟩
  cases io with
  | write src nBytes =>
      have empty (none : nBytes = 0) : min nBytes (bufferNWriteBytes buf) = 0 := by
        rw [none, Nat.zero_min]
      simp only [BufferIo.call, bufferWrite, Option.map_eq_some_iff] at returns
      obtain ⟨written, writtenReturns, rfl⟩ := returns
      apply signalWrite_does
      cases type : buf.type with
      | linear =>
          rw [type] at writtenReturns
          refine lockedTransfer_does type writtenReturns empty fun m => ?_
          rw [(held m nBytes).1]
          exact lbufWriteHeld_performs (by rfl) src
      | ring =>
          rw [type] at writtenReturns
          refine lockedTransfer_does type writtenReturns empty fun m => ?_
          rw [(held m nBytes).1]
          exact rbufWriteHeld_performs (by rfl) src
  | read dest nBytes =>
      have empty (none : nBytes = 0) : min nBytes (bufferNReadBytes buf) = 0 := by
        rw [none, Nat.zero_min]
      simp only [BufferIo.call, bufferRead] at returns
      cases type : buf.type with
      | linear =>
          rw [type] at returns
          refine lockedTransfer_does type returns empty fun m => ?_
          rw [(held m nBytes).2]
          exact lbufReadHeld_performs (by rfl)
      | ring =>
          rw [type] at returns
          refine lockedTransfer_does type returns empty fun m => ?_
          rw [(held m nBytes).2]
          exact rbufReadHeld_performs (by rfl)
  | reset =>
      cases returns
      exact
        { rc_eq := (toSigned_zero 32).symm
          effects_eq := ⟨[], [], rfl, by simp⟩ }

end Hiemal
