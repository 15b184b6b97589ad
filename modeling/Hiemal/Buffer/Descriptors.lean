import Hiemal.Buffer.Effects

/-!
# The descriptors of a buffer

A buffer keeps a set of descriptors behind a sentinel node. It announces the count
of every write to them, and on request the count it holds, unless announcements are
held back. Every descriptor of the set receives each count once.
-/

namespace Hiemal

open Foundation

/-- The walk of `buffer_fd_set_insert`: a descriptor no node has is appended. -/
def bufferFdSetInsert : List Int → Int → List Int
  | [], fd => [fd]
  | fdItr :: rest, fd =>
      if fd = fdItr then fdItr :: rest
      else fdItr :: bufferFdSetInsert rest fd

def bufferFdHold (buf : Buffer) : Buffer :=
  { buf with fdHold := true }

def bufferFdRelease (buf : Buffer) : Buffer :=
  { buf with fdHold := false }

/-- `buffer_fd_drain`. The readable count passes through an `int`. -/
def bufferFdDrain (buf : Buffer) : BufferCall :=
  if buf.state = .empty ∨ buf.fdHold then returnEarly buf none 0
  else
    let bytesAvailable := toSigned 32 (bufferNReadBytes buf)
    { buf
      rc := 0
      dest := none
      effects := bufferSignalFds buf.fdSet (toUnsigned 32 bytesAvailable) }

/-- One call on a buffer and its descriptors. -/
inductive DescriptorCall
  /-- `buffer_fd_set_insert(buf->fd_set, fd)`. -/
  | insert (fd : Int)
  /-- `buffer_write`, `buffer_read` or `buffer_reset`. -/
  | transfer (io : BufferIo)
  | hold
  | release
  | drain

/-- The caller's side of a call: descriptors are not negative. -/
def DescriptorCall.Supplied : DescriptorCall → Prop
  | .insert fd => 0 ≤ fd
  | .transfer io => io.Supplied
  | .hold => True
  | .release => True
  | .drain => True

/-- Execute one call. -/
def DescriptorCall.call (buf : Buffer) : DescriptorCall → Option BufferCall
  | .insert fd =>
      let fdSet := bufferFdSetInsert buf.fdSet fd
      some (returnEarly { buf with fdSet := fdSet } none 0)
  | .transfer io => io.call buf
  | .hold => some (returnEarly (bufferFdHold buf) none 0)
  | .release => some (returnEarly (bufferFdRelease buf) none 0)
  | .drain => some (bufferFdDrain buf)

/-- Execute one call as a transition that outputs its whole outcome. -/
def descriptorStep (buf : Buffer) (call : DescriptorCall) : Option (Buffer × BufferCall) :=
  (call.call buf).map fun outcome => (outcome.buf, outcome)

/-- The counts written to a descriptor, in order. -/
def signalsTo (fd : Int) (effects : List BufferEffect) : List Nat :=
  effects.filterMap fun
    | .signal other nBytes => if other = fd then some nBytes else none
    | _ => none

/-! ## The set of descriptors -/

/-- A set of descriptors behind its sentinel node. -/
structure FdSetHolds (fdSet : List Int) : Prop where
  sentinel : fdSet.head? = some (-1)
  distinct : fdSet.Nodup

theorem fdSetHolds_bufferFdSetInit : FdSetHolds bufferFdSetInit where
  sentinel := rfl
  distinct := List.nodup_singleton (-1)

theorem bufferFdSetInsert_eq (fdSet : List Int) (fd : Int) :
    bufferFdSetInsert fdSet fd =
      if fd ∈ fdSet then fdSet else fdSet ++ [fd] := by
  induction fdSet with
  | nil => rfl
  | cons fdItr rest inductionHypothesis =>
      by_cases found : fd = fdItr
      · rw [bufferFdSetInsert, if_pos found, if_pos (by simp [found])]
      · rw [bufferFdSetInsert, if_neg found, inductionHypothesis]
        by_cases later : fd ∈ rest
        · rw [if_pos later, if_pos (List.mem_cons_of_mem _ later)]
        · rw [if_neg later, if_neg (by simp [found, later]), List.cons_append]

/-- Of a set of descriptors, the sentinel is no member. -/
theorem FdSetHolds.mem_iff
    {fdSet : List Int}
    (holds : FdSetHolds fdSet)
    {fd : Int}
    (inRange : 0 ≤ fd) :
    fd ∈ fdSet ↔ fd ∈ fdSet.tail := by
  obtain ⟨fds, rfl⟩ := List.head?_eq_some_iff.mp holds.sentinel
  have other : fd ≠ -1 := by omega
  simp [other]

/-- An insertion adds its descriptor once. -/
theorem FdSetHolds.insert
    {fdSet : List Int}
    (holds : FdSetHolds fdSet)
    {fd : Int}
    (inRange : 0 ≤ fd) :
    FdSetHolds (bufferFdSetInsert fdSet fd) ∧
      ∀ other, other ∈ (bufferFdSetInsert fdSet fd).tail ↔
        other ∈ fdSet.tail ∨ fd = other := by
  rw [bufferFdSetInsert_eq]
  by_cases present : fd ∈ fdSet
  · rw [if_pos present]
    refine ⟨holds, fun other => ?_⟩
    constructor
    · exact Or.inl
    · rintro (member | rfl)
      · exact member
      · exact (holds.mem_iff inRange).mp present
  · rw [if_neg present]
    obtain ⟨fds, rfl⟩ := List.head?_eq_some_iff.mp holds.sentinel
    refine ⟨⟨rfl, ?_⟩, fun other => ?_⟩
    · apply List.Nodup.append holds.distinct (List.nodup_singleton fd)
      simpa using present
    · simp [eq_comm]

/-- The set of descriptors after a call. -/
def DescriptorCall.fdSetAfter (fdSet : List Int) : DescriptorCall → List Int
  | .insert fd => bufferFdSetInsert fdSet fd
  | _ => fdSet

/-- Whether announcements are held after a call. -/
def DescriptorCall.heldAfter (held : Bool) : DescriptorCall → Bool
  | .hold => true
  | .release => false
  | _ => held

/-- A call adds the descriptor it inserts. -/
theorem FdSetHolds.after
    {fdSet : List Int}
    (holds : FdSetHolds fdSet)
    {call : DescriptorCall}
    (supplied : call.Supplied) :
    FdSetHolds (call.fdSetAfter fdSet) ∧
      ∀ fd, fd ∈ (call.fdSetAfter fdSet).tail ↔
        fd ∈ fdSet.tail ∨ call = .insert fd := by
  cases call with
  | insert other =>
      obtain ⟨fdSetHolds, members⟩ := holds.insert supplied
      refine ⟨fdSetHolds, fun fd => ?_⟩
      rw [DescriptorCall.fdSetAfter, members, DescriptorCall.insert.injEq]
  | _ => exact ⟨holds, fun fd => by simp [DescriptorCall.fdSetAfter]⟩

/-! ## What is received -/

@[simp] theorem signalsTo_nil (fd : Int) : signalsTo fd [] = [] := rfl

@[simp] theorem signalsTo_append
    (fd : Int)
    (first second : List BufferEffect) :
    signalsTo fd (first ++ second) = signalsTo fd first ++ signalsTo fd second :=
  List.filterMap_append

/-- Every descriptor of the set receives the count once, no other one does. -/
theorem signalsTo_bufferSignalFds
    {fdSet : List Int}
    (holds : FdSetHolds fdSet)
    (fd : Int)
    (nBytes : Nat) :
    signalsTo fd (bufferSignalFds fdSet nBytes) =
      if fd ∈ fdSet.tail then [nBytes] else [] := by
  have distinct : fdSet.tail.Nodup := holds.distinct.tail
  unfold bufferSignalFds
  generalize fdSet.tail = fds at *
  induction fds with
  | nil => rfl
  | cons first rest inductionHypothesis =>
      obtain ⟨fresh, restDistinct⟩ := List.nodup_cons.mp distinct
      have later := inductionHypothesis restDistinct
      rw [List.map_cons, ← List.singleton_append, signalsTo_append, later]
      by_cases found : first = fd
      · subst found
        simp [signalsTo, fresh]
      · have other : fd ≠ first := Ne.symm found
        simp [signalsTo, found, other]

@[simp] theorem signalsTo_recordWrite
    (fd : Int)
    (buf : Buffer)
    (src : List UInt8)
    (nBytes : Nat) :
    signalsTo fd (recordWrite buf src nBytes) = [] := by
  unfold recordWrite
  split
  · rfl
  · simp [signalsTo]

@[simp] theorem signalsTo_transferEffects
    (fd : Int)
    (ranges : List Access)
    (events : List Nat)
    (count : Nat)
    (after : Buffer) :
    signalsTo fd (transferEffects ranges events count after) = [] := by
  simp [signalsTo, transferEffects, hmEventBufferWake, List.filterMap_append,
    List.filterMap_map]

/-- A transfer itself signals no descriptor. -/
theorem lockedTransfer_silent
    {buf : Buffer}
    {type : BufferType}
    {dest : Option (List UInt8)}
    {nBytes : Nat}
    {held : Buffer → BufferCall}
    {call : BufferCall}
    (returns : lockedTransfer buf type dest nBytes held = some call)
    (performs : ∀ buf, ∃ events count, Performs events count (held buf))
    (fd : Int) :
    signalsTo fd call.effects = [] := by
  unfold lockedTransfer at returns
  split_ifs at returns
  · cases returns
    rfl
  · cases returns
    rfl
  · obtain ⟨m, _, served⟩ := Option.bind_eq_some_iff.mp returns
    cases served
    obtain ⟨events, count, performed⟩ := performs { buf with m := m }
    obtain ⟨ranges, effects⟩ := performed.effects_eq
    rw [effects, signalsTo_transferEffects]

/-- A write that is not held signals the count it returns, nothing else of a
transfer signals. -/
theorem BufferIo.call_signals
    {buf : Buffer}
    {io : BufferIo}
    {call : BufferCall}
    (returns : io.call buf = some call)
    (fd : Int) :
    signalsTo fd call.effects =
      match io with
      | .write _ _ =>
          if buf.fdHold then []
          else signalsTo fd (bufferSignalFds buf.fdSet (toUnsigned 32 call.rc))
      | _ => [] := by
  have setup := BufferIo.call_setup returns
  cases io with
  | write src nBytes =>
      simp only [BufferIo.call, bufferWrite, Option.map_eq_some_iff] at returns
      obtain ⟨written, writtenReturns, rfl⟩ := returns
      have silent : signalsTo fd written.effects = [] := by
        cases type : buf.type with
        | linear =>
            rw [type] at writtenReturns
            apply lockedTransfer_silent writtenReturns
            exact fun held => ⟨_, _, lbufWriteHeld_performs rfl src⟩
        | ring =>
            rw [type] at writtenReturns
            apply lockedTransfer_silent writtenReturns
            exact fun held => ⟨_, _, rbufWriteHeld_performs rfl src⟩
      have kept : written.buf.fdHold = buf.fdHold ∧
          written.buf.fdSet = buf.fdSet := by
        rw [signalWrite_buf] at setup
        exact ⟨congrArg BufferSetup.fdHold setup,
          congrArg BufferSetup.fdSet setup⟩
      have rc : toUnsigned 32 (toSigned 32 (toUnsigned 32 written.rc)) =
          toUnsigned 32 written.rc :=
        toUnsigned_toSigned 32 (toUnsigned_lt 32 written.rc)
      simp only [signalWrite, signalsTo_append, signalsTo_recordWrite, silent,
        kept, rc, List.nil_append]
      split <;> simp
  | read dest nBytes =>
      simp only [BufferIo.call, bufferRead] at returns
      cases type : buf.type with
      | linear =>
          rw [type] at returns
          apply lockedTransfer_silent returns
          exact fun held => ⟨_, _, lbufReadHeld_performs rfl⟩
      | ring =>
          rw [type] at returns
          apply lockedTransfer_silent returns
          exact fun held => ⟨_, _, rbufReadHeld_performs rfl⟩
  | reset =>
      cases returns
      rfl

end Hiemal
