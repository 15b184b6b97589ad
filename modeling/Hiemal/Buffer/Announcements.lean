import Hiemal.Buffer.Descriptors

/-!
# Counts announced to descriptors

What a descriptor receives in a run of calls is compared with what is due to it from
its first insertion on. The two agree as long as the state flag says of the buffer
whether it is empty, which it does not for a ring buffer without cells.
-/

namespace Hiemal

open Foundation

/-! ## What is due -/

/-- What there is to know of a descriptor between two calls: whether it was
inserted, whether announcements are held, and the readable count. -/
structure Listener where
  inserted : Bool
  held : Bool
  readable : Nat

/-- What a call that leaves `after` readable bytes owes to the descriptor: a write
what it added, a drain what there is. -/
def Listener.due
    (listener : Listener)
    (after : Nat)
    (call : DescriptorCall) : List Nat :=
  if listener.inserted && !listener.held then
    match call with
    | .transfer (.write _ _) => [after - listener.readable]
    | .drain => if 0 < listener.readable then [listener.readable] else []
    | _ => []
  else []

/-- What there is to know after a call. -/
def Listener.next
    (fd : Int)
    (listener : Listener)
    (after : Nat)
    (call : DescriptorCall) : Listener where
  inserted :=
    match call with
    | .insert other => listener.inserted || other == fd
    | _ => listener.inserted
  held :=
    match call with
    | .hold => true
    | .release => false
    | _ => listener.held
  readable := after

/-- What is known of the insertion of a descriptor after a call. -/
theorem Listener.next_inserted_iff
    (fd : Int)
    (listener : Listener)
    (after : Nat)
    (call : DescriptorCall) :
    (listener.next fd after call).inserted = true ↔
      listener.inserted = true ∨ call = .insert fd := by
  cases call <;> simp [Listener.next]

/-- What is known of the hold after a call. -/
theorem Listener.next_held
    (fd : Int)
    (listener : Listener)
    (after : Nat)
    (call : DescriptorCall) :
    (listener.next fd after call).held = call.heldAfter listener.held := by
  cases call <;> rfl

/-- What a sequence of calls, each with the readable count after it, owes to a
descriptor. -/
def dueSignals (fd : Int) : Listener → List (DescriptorCall × Nat) → List Nat
  | _, [] => []
  | listener, (call, after) :: rest =>
      listener.due after call ++ dueSignals fd (listener.next fd after call) rest

/-- Every call returns, and every descriptor receives what is due to it and nothing
else. -/
def SignalledAsDue (start : Buffer) (calls : List DescriptorCall) : Prop :=
  ∃ final outcomes,
    runSteps descriptorStep start calls = some (final, outcomes) ∧
      ∀ fd,
        signalsTo fd (outcomes.flatMap (·.effects)) =
          dueSignals fd
            { inserted := false
              held := false
              readable := bufferNReadBytes start }
            (calls.zip (outcomes.map fun outcome => bufferNReadBytes outcome.buf))

/-- A buffer as its two initialisations leave it. -/
def Opened (capacity : Nat) (type : BufferType) (buf : Buffer) : Prop :=
  buf = bufferInit capacity type ∨
    ∃ area, area.length = capacity ∧ buf = bufferInitExt capacity type area

/-! ## When it is sent -/

/-- What went through a ring buffer without cells: whether a descriptor was
inserted, whether announcements are held, and the state flag. -/
structure VoidHistory where
  listening : Bool
  held : Bool
  state : BufferState

/-- The history after a call. -/
def VoidHistory.next (history : VoidHistory) : DescriptorCall → VoidHistory
  | .insert _ => { history with listening := true }
  | .transfer io => { history with state := io.voidState history.state }
  | .hold => { history with held := true }
  | .release => { history with held := false }
  | .drain => history

/-- A drain is quiet if there is no descriptor to signal, announcements are held, or
the buffer is marked empty. -/
def VoidHistory.Quiet (history : VoidHistory) : DescriptorCall → Prop
  | .drain =>
      history.listening = false ∨ history.held = true ∨ history.state = .empty
  | _ => True

/-- All drains are quiet: none that would signal follows a write to the ring buffer
without cells, unless the buffer was read in between. -/
def QuietDrains : VoidHistory → List DescriptorCall → Prop
  | _, [] => True
  | history, call :: calls =>
      history.Quiet call ∧ QuietDrains (history.next call) calls

/-! ## One call -/

/-- A drain that sends an empty count to the descriptor. -/
def SendsZero (fd : Int) (buf : Buffer) : DescriptorCall → Prop
  | .drain =>
      fd ∈ buf.fdSet.tail ∧ buf.fdHold = false ∧ buf.state ≠ .empty ∧
        bufferNReadBytes buf = 0
  | _ => False

/-- What is known of a descriptor agrees with the buffer. -/
structure Tracks
    (capacity : Nat)
    (fd : Int)
    (listener : Listener)
    (buf : Buffer) : Prop where
  idle : BufferIdle capacity buf
  fdSet : FdSetHolds buf.fdSet
  inserted : listener.inserted = true ↔ fd ∈ buf.fdSet.tail
  held : listener.held = buf.fdHold
  readable : listener.readable = bufferNReadBytes buf

section Calls

variable {capacity : Nat} {buf next : Buffer} {fd : Int} {listener : Listener}
variable {outcome : BufferCall}

/-- A buffer that is marked empty holds nothing. -/
theorem BufferHolds.items_of_empty
    {items : List UInt8}
    (holds : BufferHolds capacity buf items)
    (empty : buf.state = .empty) :
    items = [] := by
  cases holds with
  | ring holds =>
      have state := holds.state_eq
      rw [empty, fillState] at state
      split_ifs at state with none
      exact List.length_eq_zero_iff.mp none
  | voidRing zero void => rfl
  | linear holds =>
      have state := holds.state_eq
      rw [empty, markedState] at state
      split_ifs at state with none
      exact List.length_eq_zero_iff.mp none

/-- A write that returns adds what its return value says. -/
theorem BufferIdle.bufferWrite_count
    (idle : BufferIdle capacity buf)
    (capacityBound : capacity < 2 ^ 32)
    {src : List UInt8}
    {nBytes : Nat}
    (supplied : nBytes ≤ src.length)
    (returns : bufferWrite buf src nBytes = some outcome) :
    toUnsigned 32 outcome.rc =
      bufferNReadBytes outcome.buf - bufferNReadBytes buf := by
  obtain ⟨items, holds⟩ := idle.holds
  obtain ⟨served, servedReturns, moves⟩ :=
    holds.call capacityBound idle.free (.write src nBytes) supplied
  obtain rfl : outcome = served :=
    Option.some.inj (returns.symm.trans servedReturns)
  have added :
      bufferNReadBytes outcome.buf =
        items.length + BufferIo.count buf (.write src nBytes) := by
    rw [moves.after.bufferNReadBytes_eq capacityBound, BufferIo.itemsAfter,
      List.length_append, List.length_take, BufferIo.count]
    omega
  have bounded := moves.after.length_le
  rw [← moves.after.bufferNReadBytes_eq capacityBound, added] at bounded
  rw [moves.rc_eq, toUnsigned_toSigned 32 (by omega), added,
    holds.bufferNReadBytes_eq capacityBound]
  omega

/-- A step is a call that returns. -/
theorem descriptorStep_eq_some
    {call : DescriptorCall} :
    descriptorStep buf call = some (next, outcome) ↔
      call.call buf = some outcome ∧ next = outcome.buf := by
  rw [descriptorStep, Option.map_eq_some_iff]
  constructor
  · rintro ⟨called, returns, same⟩
    obtain ⟨rfl, rfl⟩ := Prod.mk.inj same
    exact ⟨returns, rfl⟩
  · rintro ⟨returns, rfl⟩
    exact ⟨outcome, returns, rfl⟩

/-- Calls that only change the set of descriptors or the hold leave the contents
as they are. -/
theorem BufferIdle.withDescriptors
    (idle : BufferIdle capacity buf)
    (fdSet : List Int)
    (fdHold : Bool) :
    BufferIdle capacity { buf with fdSet := fdSet, fdHold := fdHold } := by
  obtain ⟨items, holds⟩ := idle.holds
  exact ⟨⟨items, holds.sameData rfl⟩, idle.free⟩

/-- A call returns. -/
theorem BufferIdle.descriptorStep_returns
    (idle : BufferIdle capacity buf)
    (capacityBound : capacity < 2 ^ 32)
    {call : DescriptorCall}
    (supplied : call.Supplied) :
    ∃ outcome, descriptorStep buf call = some (outcome.buf, outcome) := by
  cases call with
  | insert other => exact ⟨_, rfl⟩
  | transfer io =>
      obtain ⟨items, holds⟩ := idle.holds
      obtain ⟨served, returns, _⟩ :=
        holds.call capacityBound idle.free io supplied
      refine ⟨served, ?_⟩
      simp only [descriptorStep, DescriptorCall.call, returns, Option.map_some]
  | hold => exact ⟨_, rfl⟩
  | release => exact ⟨_, rfl⟩
  | drain => exact ⟨_, rfl⟩

/-- A drain leaves the buffer as it is. -/
@[simp] theorem bufferFdDrain_buf (buf : Buffer) :
    (bufferFdDrain buf).buf = buf := by
  unfold bufferFdDrain
  split <;> rfl

/-- What a call does to the type, the descriptors and the hold. -/
theorem descriptorStep_setup
    {call : DescriptorCall}
    (stepped : descriptorStep buf call = some (next, outcome)) :
    next.type = buf.type ∧
      next.fdSet = call.fdSetAfter buf.fdSet ∧
        next.fdHold = call.heldAfter buf.fdHold := by
  obtain ⟨returns, rfl⟩ := descriptorStep_eq_some.mp stepped
  cases call with
  | transfer io =>
      have setup := BufferIo.call_setup returns
      exact ⟨congrArg BufferSetup.type setup, congrArg BufferSetup.fdSet setup,
        congrArg BufferSetup.fdHold setup⟩
  | drain =>
      cases returns
      rw [bufferFdDrain_buf]
      exact ⟨rfl, rfl, rfl⟩
  | _ =>
      cases returns
      exact ⟨rfl, rfl, rfl⟩

/-- A call leaves the buffer ready for the next one. -/
theorem BufferIdle.afterCall
    (idle : BufferIdle capacity buf)
    (capacityBound : capacity < 2 ^ 32)
    {call : DescriptorCall}
    (supplied : call.Supplied)
    (stepped : descriptorStep buf call = some (next, outcome)) :
    BufferIdle capacity next := by
  obtain ⟨returns, rfl⟩ := descriptorStep_eq_some.mp stepped
  cases call with
  | insert other =>
      cases returns
      exact idle.withDescriptors _ buf.fdHold
  | transfer io =>
      have stepped : bufferStep buf io = some (outcome.buf, outcome) :=
        Option.map_eq_some_iff.mpr ⟨outcome, returns, rfl⟩
      exact (idle.step capacityBound supplied stepped).1
  | hold =>
      cases returns
      exact idle.withDescriptors buf.fdSet true
  | release =>
      cases returns
      exact idle.withDescriptors buf.fdSet false
  | drain =>
      cases returns
      rw [bufferFdDrain_buf]
      exact idle

/-- What is known of a descriptor keeps agreeing with the buffer. -/
theorem Tracks.step
    (tracks : Tracks capacity fd listener buf)
    (capacityBound : capacity < 2 ^ 32)
    {call : DescriptorCall}
    (supplied : call.Supplied)
    (stepped : descriptorStep buf call = some (next, outcome)) :
    next = outcome.buf ∧
      Tracks capacity fd
        (listener.next fd (bufferNReadBytes outcome.buf) call) outcome.buf := by
  obtain ⟨returns, rfl⟩ := descriptorStep_eq_some.mp stepped
  obtain ⟨_, fdSet, fdHold⟩ := descriptorStep_setup stepped
  obtain ⟨holds, members⟩ := tracks.fdSet.after supplied
  refine ⟨rfl, ?_⟩
  exact
    { idle := tracks.idle.afterCall capacityBound supplied stepped
      fdSet := by rw [fdSet]; exact holds
      inserted := by
        rw [fdSet, members, Listener.next_inserted_iff, tracks.inserted]
      held := by rw [fdHold, Listener.next_held, tracks.held]
      readable := rfl }

/-- The descriptor listens exactly if it is in the set and nothing is held. -/
theorem Tracks.listens_iff (tracks : Tracks capacity fd listener buf) :
    (listener.inserted && !listener.held) = true ↔
      fd ∈ buf.fdSet.tail ∧ buf.fdHold = false := by
  rw [Bool.and_eq_true, tracks.inserted, tracks.held, Bool.not_eq_true']

/-- A drain sends what is due, and an empty count where it should be silent. -/
theorem Tracks.drain_signals
    (tracks : Tracks capacity fd listener buf)
    (capacityBound : capacity < 2 ^ 32) :
    ∃ extra,
      signalsTo fd (bufferFdDrain buf).effects =
          listener.due (bufferNReadBytes buf) .drain ++ extra ∧
        (extra = [] ↔ ¬SendsZero fd buf .drain) := by
  obtain ⟨items, holds⟩ := tracks.idle.holds
  have readable := holds.bufferNReadBytes_eq capacityBound
  have bounded := holds.length_le
  have count : toUnsigned 32 (toSigned 32 (bufferNReadBytes buf)) =
      bufferNReadBytes buf :=
    toUnsigned_toSigned 32 (by omega)
  by_cases listens : fd ∈ buf.fdSet.tail ∧ buf.fdHold = false
  · obtain ⟨member, released⟩ := listens
    rw [Listener.due, if_pos (tracks.listens_iff.mpr ⟨member, released⟩)]
    by_cases empty : buf.state = .empty
    · have nothing : bufferNReadBytes buf = 0 := by
        rw [readable, holds.items_of_empty empty, List.length_nil]
      refine ⟨[], ?_, ?_⟩
      · rw [bufferFdDrain, if_pos (Or.inl empty), tracks.readable, nothing]
        rfl
      · simp [SendsZero, empty]
    · have sent : signalsTo fd (bufferFdDrain buf).effects =
          [bufferNReadBytes buf] := by
        rw [bufferFdDrain, if_neg (by simp [empty, released])]
        simp only [count]
        rw [signalsTo_bufferSignalFds tracks.fdSet, if_pos member]
      rw [sent, tracks.readable]
      rcases Nat.eq_zero_or_pos (bufferNReadBytes buf) with zero | positive
      · refine ⟨[0], by simp [zero], ?_⟩
        simp [SendsZero, member, released, empty, zero]
      · refine ⟨[], by simp [positive], ?_⟩
        simp [SendsZero, Nat.ne_of_gt positive]
  · rw [Listener.due, if_neg (mt tracks.listens_iff.mp listens)]
    refine ⟨[], ?_, ?_⟩
    · rw [bufferFdDrain]
      split_ifs with silent
      · rfl
      · have released : buf.fdHold = false := by
          simpa using (not_or.mp silent).2
        have stranger : fd ∉ buf.fdSet.tail := fun member =>
          listens ⟨member, released⟩
        simp only [signalsTo_bufferSignalFds tracks.fdSet, if_neg stranger,
          List.append_nil]
    · constructor
      · rintro _ ⟨member, released, _⟩
        exact listens ⟨member, released⟩
      · exact fun _ => rfl

/-- A call sends what is due, and at most an empty count besides. -/
theorem Tracks.step_signals
    (tracks : Tracks capacity fd listener buf)
    (capacityBound : capacity < 2 ^ 32)
    {call : DescriptorCall}
    (supplied : call.Supplied)
    (stepped : descriptorStep buf call = some (next, outcome)) :
    ∃ extra,
      signalsTo fd outcome.effects =
          listener.due (bufferNReadBytes outcome.buf) call ++ extra ∧
        (extra = [] ↔ ¬SendsZero fd buf call) := by
  obtain ⟨returns, rfl⟩ := descriptorStep_eq_some.mp stepped
  have onlyDue
      (sent : signalsTo fd outcome.effects =
        listener.due (bufferNReadBytes outcome.buf) call)
      (other : ¬SendsZero fd buf call) :
      ∃ extra,
        signalsTo fd outcome.effects =
            listener.due (bufferNReadBytes outcome.buf) call ++ extra ∧
          (extra = [] ↔ ¬SendsZero fd buf call) :=
    ⟨[], by rw [sent, List.append_nil], iff_of_true rfl other⟩
  cases call with
  | insert other =>
      cases returns
      exact onlyDue (by simp [Listener.due, returnEarly]) id
  | transfer io =>
      apply onlyDue _ id
      rw [BufferIo.call_signals returns]
      cases io with
      | write src nBytes =>
          simp only [Listener.due]
          rw [tracks.idle.bufferWrite_count capacityBound supplied returns,
            signalsTo_bufferSignalFds tracks.fdSet, tracks.readable]
          by_cases listens : fd ∈ buf.fdSet.tail ∧ buf.fdHold = false
          · rw [if_pos (tracks.listens_iff.mpr listens), listens.2,
              if_neg Bool.false_ne_true, if_pos listens.1]
          · rw [if_neg (mt tracks.listens_iff.mp listens)]
            split_ifs with held member
            · rfl
            · exact absurd ⟨member, Bool.eq_false_of_not_eq_true held⟩ listens
            · rfl
      | read dest nBytes => simp [Listener.due]
      | reset => simp [Listener.due]
  | hold =>
      cases returns
      exact onlyDue (by simp [Listener.due, returnEarly]) id
  | release =>
      cases returns
      exact onlyDue (by simp [Listener.due, returnEarly]) id
  | drain =>
      cases returns
      rw [bufferFdDrain_buf]
      exact tracks.drain_signals capacityBound

end Calls

/-! ## Whole runs -/

section Runs

variable {capacity : Nat} {buf final : Buffer} {fd : Int} {listener : Listener}
variable {calls : List DescriptorCall} {outcomes : List BufferCall}

/-- The readable counts after the calls of a run. -/
def readableAfter (outcomes : List BufferCall) : List Nat :=
  outcomes.map fun outcome => bufferNReadBytes outcome.buf

/-- Every run returns. -/
theorem BufferIdle.descriptorRun_returns
    (capacityBound : capacity < 2 ^ 32)
    (supplied : ∀ call ∈ calls, call.Supplied)
    (tracks : Tracks capacity fd listener buf) :
    ∃ final outcomes,
      runSteps descriptorStep buf calls = some (final, outcomes) := by
  induction calls generalizing buf listener with
  | nil => exact ⟨buf, [], rfl⟩
  | cons call calls inductionHypothesis =>
      obtain ⟨callSupplied, restSupplied⟩ := List.forall_mem_cons.mp supplied
      obtain ⟨outcome, stepped⟩ :=
        tracks.idle.descriptorStep_returns capacityBound callSupplied
      obtain ⟨_, after⟩ := tracks.step capacityBound callSupplied stepped
      obtain ⟨final, outcomes, ran⟩ := inductionHypothesis restSupplied after
      exact ⟨final, outcome :: outcomes,
        runSteps_cons_eq_some.mpr
          ⟨outcome.buf, outcome, outcomes, stepped, ran, rfl⟩⟩

/-- Something sent besides what is due is not made up for later. -/
theorem append_append_eq_iff
    {first extra sent owed : List Nat}
    (enough : owed.length ≤ sent.length) :
    first ++ extra ++ sent = first ++ owed ↔ extra = [] ∧ sent = owed := by
  rw [List.append_assoc, List.append_cancel_left_eq]
  constructor
  · intro equal
    have lengths := congrArg List.length equal
    rw [List.length_append] at lengths
    have none : extra = [] := List.length_eq_zero_iff.mp (by omega)
    rw [none, List.nil_append] at equal
    exact ⟨none, equal⟩
  · rintro ⟨rfl, rfl⟩
    rfl

/-- A run sends at least what is due, and no more exactly if no drain of it sends
an empty count. -/
theorem Tracks.run_signals
    (capacityBound : capacity < 2 ^ 32)
    (supplied : ∀ call ∈ calls, call.Supplied)
    (tracks : Tracks capacity fd listener buf)
    (ran : runSteps descriptorStep buf calls = some (final, outcomes)) :
    (dueSignals fd listener (calls.zip (readableAfter outcomes))).length ≤
        (signalsTo fd (outcomes.flatMap (·.effects))).length ∧
      (signalsTo fd (outcomes.flatMap (·.effects)) =
          dueSignals fd listener (calls.zip (readableAfter outcomes)) ↔
        AlongRun descriptorStep (fun buf call => ¬SendsZero fd buf call) buf
          calls) := by
  induction calls generalizing buf listener outcomes with
  | nil =>
      cases ran
      exact ⟨Nat.le_refl 0, iff_of_true rfl trivial⟩
  | cons call calls inductionHypothesis =>
      obtain ⟨next, outcome, rest, stepped, restRan, rfl⟩ :=
        runSteps_cons_eq_some.mp ran
      obtain ⟨callSupplied, restSupplied⟩ := List.forall_mem_cons.mp supplied
      obtain ⟨rfl, after⟩ := tracks.step capacityBound callSupplied stepped
      obtain ⟨extra, sent, none⟩ :=
        tracks.step_signals capacityBound callSupplied stepped
      obtain ⟨enough, exactly⟩ :=
        inductionHypothesis restSupplied after restRan
      rw [readableAfter, List.map_cons, List.zip_cons_cons, List.flatMap_cons,
        signalsTo_append, sent, dueSignals, ← readableAfter]
      constructor
      · simp only [List.length_append]
        omega
      · rw [append_append_eq_iff enough, none, exactly,
          ← alongRun_cons_some stepped]

/-- A buffer as initialised holds nothing, and no descriptor was inserted. -/
theorem Opened.tracks
    {type : BufferType}
    (opened : Opened capacity type buf)
    (fd : Int) :
    Tracks capacity fd
      { inserted := false, held := false, readable := bufferNReadBytes buf }
      buf := by
  have idle : BufferIdle capacity buf := by
    rcases opened with rfl | ⟨area, length, rfl⟩
    · exact bufferIdle_bufferInit capacity type
    · exact ⟨⟨[], bufferHolds_bufferInitExt length type⟩, rfl⟩
  have setup : buf.fdSet = bufferFdSetInit ∧ buf.fdHold = false := by
    rcases opened with rfl | ⟨area, length, rfl⟩ <;> exact ⟨rfl, rfl⟩
  exact
    { idle := idle
      fdSet := by rw [setup.1]; exact fdSetHolds_bufferFdSetInit
      inserted := by rw [setup.1]; simp [bufferFdSetInit]
      held := setup.2.symm
      readable := rfl }

/-- Everything due and nothing else is received exactly if no drain sends an empty
count. -/
theorem Opened.receivesDue_iff
    {type : BufferType}
    (capacityBound : capacity < 2 ^ 32)
    (opened : Opened capacity type buf)
    (supplied : ∀ call ∈ calls, call.Supplied) :
    SignalledAsDue buf calls ↔
      AlongRun descriptorStep (fun buf call => ∀ fd, ¬SendsZero fd buf call) buf
        calls := by
  obtain ⟨final, outcomes, ran⟩ :=
    BufferIdle.descriptorRun_returns capacityBound supplied (opened.tracks 0)
  have exactly (fd : Int) :=
    ((opened.tracks fd).run_signals capacityBound supplied ran).2
  rw [← alongRun_forall_iff]
  constructor
  · rintro ⟨last, others, othersRan, received⟩ fd
    rw [ran] at othersRan
    obtain ⟨rfl, rfl⟩ := Prod.mk.inj (Option.some.inj othersRan)
    exact (exactly fd).mp (received fd)
  · intro silent
    exact ⟨final, outcomes, ran, fun fd => (exactly fd).mpr (silent fd)⟩

end Runs

/-! ## Drains of nothing -/

section Drains

variable {capacity : Nat} {buf next : Buffer} {call : DescriptorCall}
variable {outcome : BufferCall}

/-- A buffer with cells, and every linear one, is marked empty when it holds
nothing. -/
theorem BufferHolds.state_of_nil
    (holds : BufferHolds capacity buf [])
    (celled : buf.type = .linear ∨ 0 < capacity) :
    buf.state = .empty := by
  generalize nothing : ([] : List UInt8) = items at holds
  cases holds with
  | ring holds =>
      rw [holds.state_eq, ← nothing, List.length_nil, fillState, if_pos rfl]
  | voidRing zero void =>
      rcases celled with linear | positive
      · exact absurd (linear.symm.trans void.type_eq) (by decide)
      · omega
  | linear holds =>
      rw [holds.state_eq, ← nothing, List.length_nil, markedState, if_pos rfl]

/-- No drain of such a buffer sends an empty count. -/
theorem BufferIdle.not_sendsZero
    (idle : BufferIdle capacity buf)
    (capacityBound : capacity < 2 ^ 32)
    (celled : buf.type = .linear ∨ 0 < capacity)
    (call : DescriptorCall)
    (fd : Int) :
    ¬SendsZero fd buf call := by
  cases call with
  | drain =>
      rintro ⟨_, _, marked, nothing⟩
      obtain ⟨items, holds⟩ := idle.holds
      rw [holds.bufferNReadBytes_eq capacityBound] at nothing
      obtain rfl : items = [] := List.length_eq_zero_iff.mp nothing
      exact marked (holds.state_of_nil celled)
  | _ => exact id

/-- The history of a ring buffer without cells agrees with it. -/
structure VoidTracks (history : VoidHistory) (buf : Buffer) : Prop where
  void : VoidRing buf
  free : buf.m.locked = false
  listening : history.listening = false ↔ ∀ fd, fd ∉ buf.fdSet.tail
  held : history.held = buf.fdHold
  state : history.state = buf.state

/-- A call leaves a ring buffer without cells, whose state flag the history
tells. -/
theorem VoidRing.afterCall
    (void : VoidRing buf)
    (free : buf.m.locked = false)
    (stepped : descriptorStep buf call = some (next, outcome))
    {history : VoidHistory}
    (state : history.state = buf.state) :
    VoidRingAt (history.next call).state next ∧ next.m.locked = false := by
  obtain ⟨returns, rfl⟩ := descriptorStep_eq_some.mp stepped
  cases call with
  | transfer io =>
      obtain ⟨served, servedReturns, moves⟩ :=
        BufferIo.call_voidRing void free io
      obtain rfl : outcome = served :=
        Option.some.inj (returns.symm.trans servedReturns)
      have after := moves.after
      rw [← state] at after
      exact ⟨after, moves.free⟩
  | drain =>
      cases returns
      rw [bufferFdDrain_buf]
      exact ⟨⟨void, state.symm⟩, free⟩
  | _ =>
      cases returns
      exact ⟨⟨void.sameData rfl, state.symm⟩, free⟩

/-- What the history tells of insertions after a call. -/
theorem VoidHistory.next_listening_iff
    (history : VoidHistory)
    (call : DescriptorCall) :
    (history.next call).listening = false ↔
      history.listening = false ∧ ∀ fd, call ≠ .insert fd := by
  cases call <;> simp [VoidHistory.next]

/-- The history keeps agreeing with the buffer. -/
theorem VoidTracks.step
    {history : VoidHistory}
    (tracks : VoidTracks history buf)
    (fdSet : FdSetHolds buf.fdSet)
    (supplied : call.Supplied)
    (stepped : descriptorStep buf call = some (next, outcome)) :
    VoidTracks (history.next call) next := by
  obtain ⟨_, after, held⟩ := descriptorStep_setup stepped
  obtain ⟨_, members⟩ := fdSet.after supplied
  obtain ⟨voidAt, free⟩ :=
    tracks.void.afterCall tracks.free stepped tracks.state
  exact
    { void := voidAt.1
      free := free
      listening := by
        rw [VoidHistory.next_listening_iff, tracks.listening, after]
        simp only [members, not_or, forall_and, ne_eq]
      held := by
        rw [held, ← tracks.held]
        cases call <;> rfl
      state := voidAt.2.symm }

/-- A drain of a ring buffer without cells is silent exactly if there is no one to
signal, announcements are held, or the buffer is marked empty. -/
theorem VoidTracks.silent_iff
    {history : VoidHistory}
    (tracks : VoidTracks history buf) :
    (∀ fd, ¬SendsZero fd buf .drain) ↔ history.Quiet .drain := by
  rw [VoidHistory.Quiet, tracks.listening, tracks.held, tracks.state]
  have nothing := tracks.void.bufferNReadBytes_eq
  constructor
  · intro silent
    by_contra audible
    rw [not_or, not_or, not_forall] at audible
    obtain ⟨⟨fd, member⟩, released, marked⟩ := audible
    exact silent fd
      ⟨not_not.mp member, Bool.eq_false_of_not_eq_true released, marked, nothing⟩
  · rintro (stranger | held | empty) fd ⟨member, released, marked, _⟩
    · exact stranger fd member
    · rw [held] at released
      cases released
    · exact marked empty

end Drains

section Runs

variable {capacity : Nat} {buf : Buffer} {calls : List DescriptorCall}
variable {fd : Int} {listener : Listener}

/-- Along a run of a buffer with cells, or of a linear one, no drain sends an empty
count. -/
theorem Tracks.silent_of_celled
    (capacityBound : capacity < 2 ^ 32)
    (celled : buf.type = .linear ∨ 0 < capacity)
    (supplied : ∀ call ∈ calls, call.Supplied)
    (tracks : Tracks capacity fd listener buf) :
    AlongRun descriptorStep (fun buf call => ∀ fd, ¬SendsZero fd buf call) buf
      calls := by
  induction calls generalizing buf listener with
  | nil => trivial
  | cons call calls inductionHypothesis =>
      obtain ⟨callSupplied, restSupplied⟩ := List.forall_mem_cons.mp supplied
      refine ⟨tracks.idle.not_sendsZero capacityBound celled call, ?_⟩
      intro next outcome stepped
      obtain ⟨rfl, after⟩ := tracks.step capacityBound callSupplied stepped
      rw [← (descriptorStep_setup stepped).1] at celled
      exact inductionHypothesis celled restSupplied after

/-- Along a run of a ring buffer without cells, no drain sends an empty count
exactly if all of them are quiet. -/
theorem VoidTracks.silent_iff_quietDrains
    {history : VoidHistory}
    (capacityBound : capacity < 2 ^ 32)
    (supplied : ∀ call ∈ calls, call.Supplied)
    (tracks : Tracks capacity fd listener buf)
    (void : VoidTracks history buf) :
    AlongRun descriptorStep (fun buf call => ∀ fd, ¬SendsZero fd buf call) buf
        calls ↔
      QuietDrains history calls := by
  induction calls generalizing buf listener history with
  | nil => exact Iff.rfl
  | cons call calls inductionHypothesis =>
      obtain ⟨callSupplied, restSupplied⟩ := List.forall_mem_cons.mp supplied
      obtain ⟨outcome, stepped⟩ :=
        tracks.idle.descriptorStep_returns capacityBound callSupplied
      obtain ⟨_, after⟩ := tracks.step capacityBound callSupplied stepped
      have voidAfter := void.step tracks.fdSet callSupplied stepped
      rw [← alongRun_cons_some stepped, QuietDrains,
        inductionHypothesis restSupplied after voidAfter]
      apply and_congr_left'
      cases call with
      | drain => exact void.silent_iff
      | _ => exact iff_of_true (fun _ => id) trivial

/-- The descriptors of a buffer receive what is due to them and nothing else exactly
if the buffer is linear or has cells, or no drain follows a write without a read in
between. -/
theorem signalledAsDue_iff
    (capacity : Nat)
    (capacityBound : capacity < 2 ^ 32)
    (type : BufferType)
    (start : Buffer)
    (opened : Opened capacity type start)
    (calls : List DescriptorCall)
    (supplied : ∀ call ∈ calls, call.Supplied) :
    SignalledAsDue start calls ↔
      type = .linear ∨ 0 < capacity ∨
        QuietDrains { listening := false, held := false, state := .empty }
          calls := by
  have tracks := opened.tracks 0
  obtain ⟨sameType, marked⟩ : start.type = type ∧ start.state = .empty := by
    rcases opened with rfl | ⟨area, length, rfl⟩ <;> exact ⟨rfl, rfl⟩
  rw [opened.receivesDue_iff capacityBound supplied, ← or_assoc]
  by_cases celled : type = .linear ∨ 0 < capacity
  · rw [← sameType] at celled
    refine iff_of_true (tracks.silent_of_celled capacityBound celled supplied) ?_
    rw [← sameType]
    exact Or.inl celled
  · rw [or_iff_right celled]
    have void : VoidRing start := by
      obtain ⟨items, holds⟩ := tracks.idle.holds
      cases holds with
      | ring holds =>
          have inside := holds.readPtr_lt
          exact absurd (Or.inr (by omega)) celled
      | voidRing zero void => exact void
      | linear holds =>
          exact absurd (Or.inl (sameType.symm.trans holds.type_eq)) celled
    apply VoidTracks.silent_iff_quietDrains capacityBound supplied tracks
    exact
      { void := void
        free := tracks.idle.free
        listening :=
          iff_of_true rfl fun fd => by simpa using (opened.tracks fd).inserted
        held := tracks.held
        state := marked.symm }

/-- The law for a descriptor that is inserted twice, a write, and a drain. -/
theorem signalledAsDue_iff_twice :
    SignalledAsDue (bufferInit 4 .ring)
        [.insert 3, .transfer (.write [1, 2] 2), .insert 3, .drain] ↔
      BufferType.ring = .linear ∨ 0 < 4 ∨
        QuietDrains { listening := false, held := false, state := .empty }
          [.insert 3, .transfer (.write [1, 2] 2), .insert 3, .drain] :=
  signalledAsDue_iff 4 (by decide) .ring (bufferInit 4 .ring) (Or.inl rfl) _
    (by simp [DescriptorCall.Supplied, BufferIo.Supplied])

/-- A ring buffer without cells is marked full by a write that transfers nothing,
and sends an empty count when it is drained. -/
theorem not_signalledAsDue_noCells :
    ¬SignalledAsDue (bufferInit 0 .ring)
      [.insert 3, .transfer (.write [1] 1), .drain] := by
  rintro ⟨final, outcomes, ran, received⟩
  cases ran
  have counts := received 3
  revert counts
  decide

end Runs

end Hiemal
