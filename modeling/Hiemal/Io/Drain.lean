import Hiemal.Io.RoundTrip
import Mathlib.Logic.Function.Basic

/-!
# Sinks that drain one buffer

The sinks of `core/io.c` count the readable bytes of their buffer without holding
its mutex, read that many under the mutex, and emit that many. Between the count
and the read another sink can take the bytes that were counted.
-/

namespace Hiemal

open Foundation

/-! ## The steps of a sink -/

/-- The count of `sink_fd_impl` and `sink_file_impl`: the request, limited by the
readable bytes. -/
def sinkCount (buf : Buffer) (nBytes : Nat) : Nat :=
  clampRequest nBytes (toSigned 32 (bufferNReadBytes buf))

/-- The read of `sink_fd_impl` and `sink_file_impl`, with the temporary block
afterwards. -/
def sinkRead
    (buf : Buffer)
    (nBytes : Nat)
    (fresh : Nat → UInt8) : Option (BufferCall × List UInt8) := do
  let tmpBuf := resize [] nBytes fresh
  let call ← bufferRead buf (some tmpBuf) nBytes
  return (call, call.dest.getD tmpBuf)

/-- Where a sink is in its call. -/
inductive SinkProgress
  /-- Not in a call. -/
  | idle
  /-- About to read the counted bytes. -/
  | counted (nBytes : Nat)
  /-- About to emit that many bytes of the temporary block. -/
  | filled (nBytes : Nat) (tmpBuf : List UInt8)
  deriving DecidableEq

/-- The bytes the next step of the sink emits. -/
def SinkProgress.block : SinkProgress → List UInt8
  | .filled nBytes tmpBuf => tmpBuf.take nBytes
  | _ => []

/-- The sink has read from the buffer and not emitted yet. -/
def SinkProgress.Holding : SinkProgress → Prop
  | .filled _ _ => True
  | _ => False

/-- A buffer that sinks drain. -/
structure DrainSystem (Sink : Type) where
  buf : Buffer
  progress : Sink → SinkProgress

/-- One step of a writer or of a sink. -/
inductive DrainAction (Sink : Type)
  /-- `buffer_write(buf, src, n_bytes)`. -/
  | write (src : List UInt8) (nBytes : Nat)
  /-- A sink is called with a request and counts the readable bytes. -/
  | count (sink : Sink) (nBytes : Nat)
  /-- A sink reads into its temporary block, allocated with the given cells. -/
  | read (sink : Sink) (fresh : Nat → UInt8)
  /-- A sink emits its temporary block and returns. -/
  | emit (sink : Sink)

/-- The memory a writer passes holds the bytes it writes. -/
def DrainAction.Supplied {Sink : Type} : DrainAction Sink → Prop
  | .write src nBytes => nBytes ≤ src.length
  | _ => True

/-- What a step moves. -/
inductive DrainOutput (Sink : Type)
  /-- The buffer accepted the bytes. -/
  | accepted (data : List UInt8)
  | counted (sink : Sink) (nBytes : Nat)
  /-- `buffer_read` removed the bytes from the buffer and put them in the temporary
  block of the sink. -/
  | removed (sink : Sink) (data : List UInt8)
  /-- `write` or `fwrite` was given the bytes. -/
  | emitted (sink : Sink) (data : List UInt8)
  deriving DecidableEq

section

variable {Sink : Type}

/-- The bytes a step adds to the buffer. -/
def DrainOutput.acceptedData : DrainOutput Sink → List UInt8
  | .accepted data => data
  | _ => []

/-- The bytes a step removes from the buffer, with the sink that gets them. -/
def DrainOutput.removedData : DrainOutput Sink → List (Sink × UInt8)
  | .removed sink data => data.map (Prod.mk sink)
  | _ => []

/-- The bytes a step emits, with the sink that emits them. -/
def DrainOutput.emittedData : DrainOutput Sink → List (Sink × UInt8)
  | .emitted sink data => data.map (Prod.mk sink)
  | _ => []

variable [DecidableEq Sink]

/-- One step; `none` where the sink is not about to take it. -/
def drainStep (system : DrainSystem Sink) :
    DrainAction Sink → Option (DrainSystem Sink × DrainOutput Sink)
  | .write src nBytes => do
      let call ← bufferWrite system.buf src nBytes
      return ({ system with buf := call.buf },
        .accepted (src.take (toUnsigned 32 call.rc)))
  | .count sink nBytes =>
      match system.progress sink with
      | .idle =>
          let nBytes := sinkCount system.buf nBytes
          some
            ({ system with
                progress :=
                  Function.update system.progress sink (.counted nBytes) },
              .counted sink nBytes)
      | _ => none
  | .read sink fresh =>
      match system.progress sink with
      | .counted nBytes => do
          let (call, tmpBuf) ← sinkRead system.buf nBytes fresh
          return (
            { buf := call.buf
              progress :=
                Function.update system.progress sink
                  (.filled nBytes tmpBuf) },
            .removed sink (tmpBuf.take (toUnsigned 32 call.rc)))
      | _ => none
  | .emit sink =>
      match system.progress sink with
      | .filled nBytes tmpBuf =>
          some
            ({ system with
                progress := Function.update system.progress sink .idle },
              .emitted sink (tmpBuf.take nBytes))
      | _ => none

/-- The bytes of one sink. -/
def ofSink (sink : Sink) (tagged : List (Sink × UInt8)) : List UInt8 :=
  (tagged.filter fun pair => pair.1 = sink).map Prod.snd

/-- The bytes the buffer accepted in a run. -/
def drainAccepted (outputs : List (DrainOutput Sink)) : List UInt8 :=
  outputs.flatMap DrainOutput.acceptedData

/-- The bytes `buffer_read` removed in a run. -/
def drainRemoved (outputs : List (DrainOutput Sink)) : List (Sink × UInt8) :=
  outputs.flatMap DrainOutput.removedData

/-- The bytes the sinks emitted in a run. -/
def drainEmitted (outputs : List (DrainOutput Sink)) : List (Sink × UInt8) :=
  outputs.flatMap DrainOutput.emittedData

/-- The sinks emit exactly what was removed for them: the bytes that left the
buffer are the first of those that were in it or came in; a sink emits what it read
and nothing else, in order; and when none holds bytes it read, those emitted are
those removed, each as often. -/
structure Drained
    (capacity : Nat)
    (items : List UInt8)
    (final : DrainSystem Sink)
    (outputs : List (DrainOutput Sink)) : Prop where
  removedOnce :
    ∃ left, BufferHolds capacity final.buf left ∧
      (drainRemoved outputs).map Prod.snd ++ left =
        items ++ drainAccepted outputs
  onlyRead : ∀ sink,
    ofSink sink (drainEmitted outputs) <+: ofSink sink (drainRemoved outputs)
  allRead : ∀ sink, ¬(final.progress sink).Holding →
    ofSink sink (drainEmitted outputs) = ofSink sink (drainRemoved outputs)
  together : (∀ sink, ¬(final.progress sink).Holding) →
    (drainEmitted outputs).Perm (drainRemoved outputs)

theorem SinkProgress.block_of_not_holding
    {progress : SinkProgress}
    (done : ¬progress.Holding) :
    progress.block = [] := by
  cases progress with
  | filled nBytes tmpBuf => exact absurd trivial done
  | _ => rfl

/-- A sink about to read finds the bytes it counted: no other sink has taken some
of them. -/
def StillReadable (system : DrainSystem Sink) : DrainAction Sink → Prop
  | .read sink _ =>
      ∀ nBytes, system.progress sink = .counted nBytes →
        nBytes ≤ bufferNReadBytes system.buf
  | _ => True

instance decidableStillReadable (system : DrainSystem Sink) :
    (action : DrainAction Sink) → Decidable (StillReadable system action)
  | .write _ _ => isTrue trivial
  | .count _ _ => isTrue trivial
  | .emit _ => isTrue trivial
  | .read sink _ =>
      match progress : system.progress sink with
      | .counted nBytes =>
          decidable_of_iff (nBytes ≤ bufferNReadBytes system.buf)
            (by simp [StillReadable, progress])
      | .idle => isTrue (by simp [StillReadable, progress])
      | .filled _ _ => isTrue (by simp [StillReadable, progress])

/-! ## The bytes of a sink -/

@[simp] theorem ofSink_nil (sink : Sink) : ofSink sink [] = [] := rfl

@[simp] theorem ofSink_append (sink : Sink) (first second : List (Sink × UInt8)) :
    ofSink sink (first ++ second) = ofSink sink first ++ ofSink sink second := by
  simp [ofSink]

theorem ofSink_flatMap
    (sink : Sink)
    (data : DrainOutput Sink → List (Sink × UInt8))
    (outputs : List (DrainOutput Sink)) :
    ofSink sink (outputs.flatMap data) =
      outputs.flatMap fun output => ofSink sink (data output) := by
  induction outputs with
  | nil => rfl
  | cons output outputs inductionHypothesis =>
      rw [List.flatMap_cons, List.flatMap_cons, ofSink_append,
        inductionHypothesis]

@[simp] theorem ofSink_self (sink : Sink) (data : List UInt8) :
    ofSink sink (data.map (Prod.mk sink)) = data := by
  simp [ofSink, List.filter_map, Function.comp_def]

theorem ofSink_other
    {sink other : Sink}
    (apart : other ≠ sink)
    (data : List UInt8) :
    ofSink sink (data.map (Prod.mk other)) = [] := by
  simp [ofSink, List.filter_map, Function.comp_def, apart]

theorem count_ofSink
    (sink : Sink)
    (byte : UInt8)
    (tagged : List (Sink × UInt8)) :
    (ofSink sink tagged).count byte = tagged.count (sink, byte) := by
  induction tagged with
  | nil => rfl
  | cons pair tagged inductionHypothesis =>
      obtain ⟨other, first⟩ := pair
      by_cases same : other = sink
      · subst same
        simp only [ofSink] at inductionHypothesis ⊢
        simp [List.count_cons, inductionHypothesis]
      · simp only [ofSink] at inductionHypothesis ⊢
        simp [inductionHypothesis, same]

/-- Lists that agree on the bytes of every sink are permutations of each other. -/
theorem perm_of_ofSink
    {first second : List (Sink × UInt8)}
    (agree : ∀ sink, ofSink sink first = ofSink sink second) :
    first.Perm second := by
  apply List.perm_iff_count.mpr
  rintro ⟨sink, byte⟩
  rw [← count_ofSink, ← count_ofSink, agree sink]

end

/-! ## What a read does -/

section Read

variable {capacity : Nat} {buf : Buffer} {items : List UInt8}

/-- A read takes as much of what the buffer holds as was counted and stores it at
the beginning of the temporary block. -/
theorem sinkRead_returns
    (holds : BufferHolds capacity buf items)
    (capacityBound : capacity < 2 ^ 32)
    (free : buf.m.locked = false)
    (nBytes : Nat)
    (fresh : Nat → UInt8) :
    ∃ call tmpBuf,
      sinkRead buf nBytes fresh = some (call, tmpBuf) ∧
        tmpBuf = store (resize [] nBytes fresh) 0 (items.take nBytes) ∧
        BufferHolds capacity call.buf (items.drop nBytes) ∧
        call.buf.m.locked = false ∧
        tmpBuf.take (toUnsigned 32 call.rc) = items.take nBytes := by
  let tmpBuf := resize [] nBytes fresh
  obtain ⟨call, returns, moves⟩ :=
    holds.bufferRead_block capacityBound free
      (length_resize [] nBytes fresh : tmpBuf.length = nBytes)
  have within := holds.length_le
  have taken : (items.take nBytes).length = min nBytes items.length :=
    List.length_take
  have rc : toUnsigned 32 call.rc = (items.take nBytes).length := by
    rw [moves.rc_eq, toUnsigned_toSigned 32 (by omega)]
  refine ⟨call, store tmpBuf 0 (items.take nBytes), ?_, rfl, moves.after,
    moves.free, ?_⟩
  · simp only [sinkRead, returns, moves.dest_eq, Option.bind_eq_bind, Option.bind_some,
      Option.getD_some, tmpBuf]
    rfl
  · rw [rc, ← load_zero]
    apply load_store_same
    rw [length_resize, taken]
    omega

end Read

/-! ## What a step does -/

section Step

variable {Sink : Type} [DecidableEq Sink]
variable {capacity : Nat} {held : List UInt8}
variable {system next : DrainSystem Sink}
variable {action : DrainAction Sink} {output : DrainOutput Sink}

/-- Between two steps the mutex is free and the buffer holds the given bytes. -/
structure DrainHolds
    (capacity : Nat)
    (system : DrainSystem Sink)
    (held : List UInt8) : Prop where
  holds : BufferHolds capacity system.buf held
  free : system.buf.m.locked = false

/-- What a step does to the progress of the sinks, and what it outputs, when the
buffer holds `held`. -/
inductive DrainMove
    (held : List UInt8)
    (progress : Sink → SinkProgress) :
    DrainAction Sink → (Sink → SinkProgress) → DrainOutput Sink → Prop
  | write {src : List UInt8} {nBytes : Nat} (data : List UInt8) :
      DrainMove held progress (.write src nBytes) progress (.accepted data)
  | count {sink : Sink} {request : Nat} (nBytes : Nat)
      (idle : progress sink = .idle) :
      DrainMove held progress (.count sink request)
        (Function.update progress sink (.counted nBytes))
        (.counted sink nBytes)
  | read {sink : Sink} {fresh : Nat → UInt8} {nBytes : Nat}
      (counted : progress sink = .counted nBytes) :
      DrainMove held progress (.read sink fresh)
        (Function.update progress sink
          (.filled nBytes
            (store (resize [] nBytes fresh) 0 (held.take nBytes))))
        (.removed sink (held.take nBytes))
  | emit {sink : Sink} {nBytes : Nat} {tmpBuf : List UInt8}
      (filled : progress sink = .filled nBytes tmpBuf) :
      DrainMove held progress (.emit sink)
        (Function.update progress sink .idle)
        (.emitted sink (tmpBuf.take nBytes))

/-- A step takes what it removes from the front of the buffer and adds what it
accepts at its end. -/
theorem drainStep_cases
    (holds : DrainHolds capacity system held)
    (capacityBound : capacity < 2 ^ 32)
    (supplied : action.Supplied)
    (stepped : drainStep system action = some (next, output)) :
    DrainMove held system.progress action next.progress output ∧
      ∃ left, DrainHolds capacity next left ∧
        output.removedData.map Prod.snd ++ left =
          held ++ output.acceptedData := by
  obtain ⟨bufHolds, free⟩ := holds
  cases action with
  | write src nBytes =>
      obtain ⟨call, returns, moves⟩ :=
        bufHolds.call capacityBound free (.write src nBytes) supplied
      have written : bufferWrite system.buf src nBytes = some call := returns
      simp only [drainStep, written, Option.bind_eq_bind, Option.bind_some,
        Option.pure_def, Option.some.injEq, Prod.mk.injEq] at stepped
      obtain ⟨rfl, rfl⟩ := stepped
      refine ⟨.write _, _, ⟨moves.after, moves.free⟩, ?_⟩
      -- What was accepted fits in the buffer, so its length is an unsigned int.
      have within := moves.after.length_le
      simp only [BufferIo.itemsAfter, List.length_append, List.length_take]
        at within
      have enough : nBytes ≤ src.length := supplied
      have rc : toUnsigned 32 call.rc =
          min nBytes (bufferNWriteBytes system.buf) := by
        rw [moves.rc_eq, BufferIo.count, toUnsigned_toSigned 32 (by omega)]
      simp only [DrainOutput.removedData, DrainOutput.acceptedData,
        BufferIo.itemsAfter, rc, List.map_nil, List.nil_append]
  | count sink request =>
      simp only [drainStep] at stepped
      split at stepped
      · rename_i idle
        cases stepped
        exact ⟨.count _ idle, held, ⟨bufHolds, free⟩, by
          simp [DrainOutput.removedData, DrainOutput.acceptedData]⟩
      · cases stepped
  | read sink fresh =>
      simp only [drainStep] at stepped
      split at stepped
      · rename_i nBytes counted
        obtain ⟨call, tmpBuf, returns, rfl, after, callFree, removed⟩ :=
          sinkRead_returns bufHolds capacityBound free nBytes fresh
        simp only [returns, removed, Option.bind_eq_bind, Option.bind_some,
          Option.pure_def, Option.some.injEq, Prod.mk.injEq] at stepped
        obtain ⟨rfl, rfl⟩ := stepped
        exact ⟨.read counted, _, ⟨after, callFree⟩, by
          simp [DrainOutput.removedData, DrainOutput.acceptedData]⟩
      · cases stepped
  | emit sink =>
      simp only [drainStep] at stepped
      split at stepped
      · rename_i nBytes tmpBuf filled
        cases stepped
        exact ⟨.emit filled, held, ⟨bufHolds, free⟩, by
          simp [DrainOutput.removedData, DrainOutput.acceptedData]⟩
      · cases stepped

variable {progress progressAfter : Sink → SinkProgress}

/-- The temporary block after a read, counted to its end. -/
theorem length_filled
    (held : List UInt8)
    (nBytes : Nat)
    (fresh : Nat → UInt8) :
    ((store (resize [] nBytes fresh) 0 (held.take nBytes)).take
      nBytes).length = nBytes := by
  rw [List.length_take, length_store, length_resize, Nat.min_self]

/-- For each sink, either a step conveys bytes unchanged from the buffer to its
descriptor, or the step is its read. -/
theorem DrainMove.sink_cases
    (move : DrainMove held progress action progressAfter output)
    (sink : Sink) :
    ofSink sink output.emittedData ++ (progressAfter sink).block =
        (progress sink).block ++ ofSink sink output.removedData ∨
      ∃ fresh nBytes, action = .read sink fresh ∧
        progress sink = .counted nBytes ∧
        ofSink sink output.emittedData = [] ∧
        ofSink sink output.removedData = held.take nBytes ∧
        (progressAfter sink).block =
          (store (resize [] nBytes fresh) 0 (held.take nBytes)).take
            nBytes := by
  cases move with
  | write data =>
      left
      simp [DrainOutput.emittedData, DrainOutput.removedData]
  | count nBytes idle =>
      rename_i actor request
      left
      by_cases same : sink = actor
      · subst same
        simp [DrainOutput.emittedData, DrainOutput.removedData,
          SinkProgress.block, idle]
      · simp [DrainOutput.emittedData, DrainOutput.removedData, same]
  | read counted =>
      rename_i actor fresh nBytes
      by_cases same : sink = actor
      · subst same
        right
        refine ⟨fresh, nBytes, rfl, counted, rfl, ofSink_self sink _, ?_⟩
        rw [Function.update_self, SinkProgress.block]
      · left
        simp only [DrainOutput.removedData, DrainOutput.emittedData, ofSink_nil,
          ofSink_other (Ne.symm same), Function.update_of_ne same,
          List.append_nil, List.nil_append]
  | emit filled =>
      rename_i actor nBytes tmpBuf
      left
      by_cases same : sink = actor
      · subst same
        simp only [DrainOutput.removedData, DrainOutput.emittedData, ofSink_nil,
          ofSink_self, Function.update_self, filled, SinkProgress.block]
      · simp only [DrainOutput.removedData, DrainOutput.emittedData, ofSink_nil,
          ofSink_other (Ne.symm same), Function.update_of_ne same,
          List.append_nil, List.nil_append]

/-- While a sink finds what it counted, what it emits next is what it read. -/
theorem DrainMove.conveys
    (move : DrainMove held progress action progressAfter output)
    (found : ∀ sink fresh nBytes, action = .read sink fresh →
      progress sink = .counted nBytes → nBytes ≤ held.length)
    (sink : Sink) :
    ofSink sink output.emittedData ++ (progressAfter sink).block =
      (progress sink).block ++ ofSink sink output.removedData := by
  rcases move.sink_cases sink with conveyed |
    ⟨fresh, nBytes, act, counted, emitted, removed, filled⟩
  · exact conveyed
  · have enough := found sink fresh nBytes act counted
    rw [emitted, removed, filled, counted,
      store_resize_nil (List.length_take_of_le enough) fresh, List.take_take,
      Nat.min_self]
    rfl

/-- In any case it emits no less than it read. -/
theorem DrainMove.length_le
    (move : DrainMove held progress action progressAfter output)
    (sink : Sink) :
    (progress sink).block.length +
        (ofSink sink output.removedData).length ≤
      (ofSink sink output.emittedData).length +
        (progressAfter sink).block.length := by
  rcases move.sink_cases sink with conveyed |
    ⟨fresh, nBytes, _, counted, emitted, removed, filled⟩
  · have lengths := congrArg List.length conveyed
    rw [List.length_append, List.length_append] at lengths
    omega
  · rw [emitted, removed, filled, length_filled, counted, List.length_take]
    simp only [SinkProgress.block, List.length_nil]
    omega

/-- A sink that does not find what it counted emits more than it read. -/
theorem DrainMove.length_lt
    {sink : Sink}
    {fresh : Nat → UInt8}
    {nBytes : Nat}
    (move : DrainMove held progress (.read sink fresh) progressAfter output)
    (counted : progress sink = .counted nBytes)
    (short : held.length < nBytes) :
    (progress sink).block.length +
        (ofSink sink output.removedData).length <
      (ofSink sink output.emittedData).length +
        (progressAfter sink).block.length := by
  cases move with
  | read countedHere =>
      rw [counted] at countedHere
      cases countedHere
      simp only [DrainOutput.removedData, DrainOutput.emittedData, ofSink_self,
        Function.update_self, counted, SinkProgress.block, length_filled,
        ofSink_nil, List.length_nil]
      rw [List.length_take]
      omega

end Step

/-! ## Runs -/

section Run

variable {Sink : Type} [DecidableEq Sink]
variable {capacity : Nat} {items : List UInt8}
variable {system final : DrainSystem Sink}
variable {actions : List (DrainAction Sink)} {outputs : List (DrainOutput Sink)}

omit [DecidableEq Sink] in
theorem StillReadable.found
    {held : List UInt8}
    {action : DrainAction Sink}
    (holds : DrainHolds capacity system held)
    (capacityBound : capacity < 2 ^ 32)
    (readable : StillReadable system action)
    (sink : Sink)
    (fresh : Nat → UInt8)
    (nBytes : Nat)
    (act : action = .read sink fresh)
    (counted : system.progress sink = .counted nBytes) :
    nBytes ≤ held.length := by
  subst act
  rw [← holds.holds.bufferNReadBytes_eq capacityBound]
  exact readable nBytes counted

/-- What a run removes from the buffer was in it or came in. -/
theorem drain_buffer
    (capacityBound : capacity < 2 ^ 32)
    (start : DrainHolds capacity system items)
    (supplied : ∀ action ∈ actions, action.Supplied)
    (ran : runSteps drainStep system actions = some (final, outputs)) :
    ∃ left, DrainHolds capacity final left ∧
      (drainRemoved outputs).map Prod.snd ++ left =
        items ++ drainAccepted outputs := by
  obtain ⟨left, finalHolds, conveyed⟩ :=
    runSteps_conveys
      (fun _ _ _ _ _ holds supplied stepped =>
        (drainStep_cases holds capacityBound supplied stepped).2)
      start (alongRun_of_forall supplied system) ran
  refine ⟨left, finalHolds, ?_⟩
  rw [drainRemoved, List.map_flatMap, conveyed, drainAccepted]

/-- What a sink emits in a run in which it always finds what it counted. -/
theorem drain_sink
    (capacityBound : capacity < 2 ^ 32)
    (start : DrainHolds capacity system items)
    (supplied : ∀ action ∈ actions, action.Supplied)
    (along : AlongRun drainStep StillReadable system actions)
    (ran : runSteps drainStep system actions = some (final, outputs))
    (sink : Sink) :
    ofSink sink (drainEmitted outputs) ++ (final.progress sink).block =
      (system.progress sink).block ++ ofSink sink (drainRemoved outputs) := by
  have conveys
      (state : DrainSystem Sink)
      (action : DrainAction Sink)
      (next : DrainSystem Sink)
      (output : DrainOutput Sink)
      (block : List UInt8)
      (holds : (∃ held, DrainHolds capacity state held) ∧
        block = (state.progress sink).block)
      (met : action.Supplied ∧ StillReadable state action)
      (stepped : drainStep state action = some (next, output)) :
      ∃ left, ((∃ held, DrainHolds capacity next held) ∧
          left = (next.progress sink).block) ∧
        ofSink sink output.emittedData ++ left =
          block ++ ofSink sink output.removedData := by
    obtain ⟨⟨held, holds⟩, rfl⟩ := holds
    obtain ⟨move, left, nextHolds, _⟩ :=
      drainStep_cases holds capacityBound met.1 stepped
    exact ⟨_, ⟨⟨left, nextHolds⟩, rfl⟩,
      move.conveys (met.2.found holds capacityBound) sink⟩
  obtain ⟨left, ⟨_, rfl⟩, conveyed⟩ :=
    runSteps_conveys conveys ⟨⟨items, start⟩, rfl⟩
      ((alongRun_of_forall supplied system).and along) ran
  rw [drainEmitted, drainRemoved, ofSink_flatMap, ofSink_flatMap, conveyed]

/-- Bytes a sink emits or is about to emit beyond those it read. -/
def Surplus
    (sink : Sink)
    (system final : DrainSystem Sink)
    (outputs : List (DrainOutput Sink)) : Prop :=
  (system.progress sink).block.length +
      (ofSink sink (drainRemoved outputs)).length <
    (ofSink sink (drainEmitted outputs)).length +
      (final.progress sink).block.length

/-- A run never makes up for a surplus: there is none at its end only if every sink
always found what it counted. -/
theorem drain_surplus
    (capacityBound : capacity < 2 ^ 32)
    (start : DrainHolds capacity system items)
    (supplied : ∀ action ∈ actions, action.Supplied)
    (ran : runSteps drainStep system actions = some (final, outputs)) :
    (∀ sink,
      (system.progress sink).block.length +
          (ofSink sink (drainRemoved outputs)).length ≤
        (ofSink sink (drainEmitted outputs)).length +
          (final.progress sink).block.length) ∧
      ((∀ sink, ¬Surplus sink system final outputs) →
        AlongRun drainStep StillReadable system actions) := by
  induction actions generalizing system items outputs with
  | nil =>
      cases ran
      exact ⟨fun _ => Nat.le_of_eq (Nat.add_comm _ _), fun _ => trivial⟩
  | cons action actions inductionHypothesis =>
      obtain ⟨next, output, rest, stepped, restRan, rfl⟩ :=
        runSteps_cons_eq_some.mp ran
      rw [List.forall_mem_cons] at supplied
      obtain ⟨move, left, nextHolds, _⟩ :=
        drainStep_cases start capacityBound supplied.1 stepped
      obtain ⟨restLe, restAlong⟩ :=
        inductionHypothesis nextHolds supplied.2 restRan
      have first := move.length_le
      simp only [Surplus, drainRemoved, drainEmitted, List.flatMap_cons,
        ofSink_append, List.length_append] at restLe restAlong ⊢
      refine ⟨fun sink => by have := first sink; have := restLe sink; omega, ?_⟩
      intro none
      refine ⟨?_, ?_⟩
      · cases action with
        | read sink fresh =>
            intro nBytes counted
            rw [start.holds.bufferNReadBytes_eq capacityBound]
            by_contra short
            have more := move.length_lt counted (Nat.lt_of_not_le short)
            have := restLe sink
            have := none sink
            omega
        | _ => trivial
      · intro other otherOutput otherStepped
        rw [stepped] at otherStepped
        cases otherStepped
        apply restAlong
        intro sink more
        have := first sink
        have := none sink
        omega

/-- The sinks emit exactly what was removed for them if every read finds the bytes
its sink counted; and only then, once every sink that read has emitted. -/
theorem drained_iff_stillReadable
    (capacityBound : capacity < 2 ^ 32)
    {buf : Buffer}
    (holds : BufferHolds capacity buf items)
    (free : buf.m.locked = false)
    (supplied : ∀ action ∈ actions, action.Supplied)
    (ran : runSteps drainStep { buf := buf, progress := fun _ => .idle }
      actions = some (final, outputs)) :
    let alwaysReadable :=
      AlongRun drainStep StillReadable
        { buf := buf, progress := fun _ => .idle } actions
    (alwaysReadable → Drained capacity items final outputs) ∧
      ((∀ sink, ¬(final.progress sink).Holding) →
        (Drained capacity items final outputs ↔ alwaysReadable)) := by
  intro alwaysReadable
  have start : DrainHolds capacity
      ({ buf := buf, progress := fun _ => .idle } : DrainSystem Sink) items :=
    ⟨holds, free⟩
  have sufficient (along : alwaysReadable) :
      Drained capacity items final outputs := by
    have conveyed := drain_sink capacityBound start supplied along ran
    have allRead (sink : Sink) (done : ¬(final.progress sink).Holding) :
        ofSink sink (drainEmitted outputs) =
          ofSink sink (drainRemoved outputs) := by
      have all := conveyed sink
      rw [SinkProgress.block_of_not_holding done, List.append_nil] at all
      exact all
    obtain ⟨left, finalHolds, removed⟩ :=
      drain_buffer capacityBound start supplied ran
    exact
      { removedOnce := ⟨left, finalHolds.holds, removed⟩
        onlyRead := fun sink => ⟨_, conveyed sink⟩
        allRead := allRead
        together := fun done =>
          perm_of_ofSink fun sink => allRead sink (done sink) }
  refine ⟨sufficient, fun done => ⟨fun drained => ?_, sufficient⟩⟩
  apply (drain_surplus capacityBound start supplied ran).2
  intro sink surplus
  rw [Surplus, drained.allRead sink (done sink),
    SinkProgress.block_of_not_holding (done sink)] at surplus
  simp only [SinkProgress.block, List.length_nil] at surplus
  omega

end Run

/-- Two sinks count the two bytes of a ring buffer before either reads: the second
finds none of them and emits the cells of its temporary block. -/
theorem not_drained_twoSinks :
    ∃ final outputs,
      runSteps drainStep
          { buf := bufferInit 2 .ring, progress := fun _ : Bool => .idle }
          [.write [1, 2] 2, .count false 2, .count true 2,
            .read false fun _ => 0, .read true fun _ => 0, .emit false,
            .emit true] =
        some (final, outputs) ∧ ¬Drained 2 [] final outputs :=
  ⟨_, _, rfl, fun drained =>
    absurd (drained.onlyRead true) (by decide)⟩

/-- Two sinks that take turns: the second counts after the first has read. -/
theorem drained_twoSinks :
    ∃ final outputs,
      runSteps drainStep
          { buf := bufferInit 2 .ring, progress := fun _ : Bool => .idle }
          [.write [1, 2] 2, .count false 1, .read false fun _ => 0,
            .count true 2, .emit false, .read true fun _ => 0, .emit true] =
        some (final, outputs) ∧ Drained 2 [] final outputs := by
  obtain ⟨final, outputs, ran⟩ :
      ∃ final outputs,
        runSteps drainStep
            { buf := bufferInit 2 .ring, progress := fun _ : Bool => .idle }
            [.write [1, 2] 2, .count false 1, .read false fun _ => 0,
              .count true 2, .emit false, .read true fun _ => 0, .emit true] =
          some (final, outputs) :=
    ⟨_, _, rfl⟩
  refine ⟨final, outputs, ran, ?_⟩
  exact (drained_iff_stillReadable (by decide)
    (bufferHolds_bufferInit 2 .ring) rfl (by simp [DrainAction.Supplied])
    ran).1 (by decide)

/-! ## A call without interference -/

/-- A sink call in terms of its count and its read. -/
theorem sinkFdImpl_eq
    (nBytes : Nat)
    (buf : Buffer)
    (fd : OpenFile)
    (fresh : Nat → UInt8) :
    sinkFdImpl nBytes buf fd fresh =
      (sinkRead buf (sinkCount buf nBytes) fresh).map fun (call, tmpBuf) =>
        { fd := fd.write (tmpBuf.take (sinkCount buf nBytes))
          buf := call.buf
          rc := toSigned 32 (sinkCount buf nBytes) } := by
  simp only [sinkFdImpl, sinkRead, sinkCount, Option.bind_eq_bind,
    Option.pure_def, Option.map_bind, Function.comp_def, Option.map_some]

/-- A sink call is its count, its read and its emission in a row. -/
theorem drain_sinkFdImpl
    {Sink : Type}
    [DecidableEq Sink]
    {system : DrainSystem Sink}
    {sink : Sink}
    (idle : system.progress sink = .idle)
    {nBytes : Nat}
    {fd : OpenFile}
    {fresh : Nat → UInt8}
    {call : FdCall}
    (returns : sinkFdImpl nBytes system.buf fd fresh = some call) :
    ∃ removed emitted,
      runSteps drainStep system
          [.count sink nBytes, .read sink fresh, .emit sink] =
        some ({ system with buf := call.buf },
          [.counted sink (sinkCount system.buf nBytes),
            .removed sink removed, .emitted sink emitted]) ∧
        call.fd = fd.write emitted := by
  rw [sinkFdImpl_eq] at returns
  obtain ⟨⟨read, tmpBuf⟩, readReturns, rfl⟩ :=
    Option.map_eq_some_iff.mp returns
  have restored : Function.update system.progress sink .idle = system.progress := by
    rw [← idle, Function.update_eq_self]
  refine ⟨tmpBuf.take (toUnsigned 32 read.rc),
    tmpBuf.take (sinkCount system.buf nBytes), ?_, rfl⟩
  simp only [runSteps, drainStep, idle, readReturns, restored,
    Function.update_self, Function.update_idem, Option.bind_eq_bind,
    Option.bind_some, Option.pure_def]

end Hiemal
