import Hiemal.Stream.Defs

/-!
# Streams without a dsp op or a conversion

Here an iteration hands the sink the bytes the source delivered, padded with
zeros up to the smaller of the two reported counts. Short transfers on either
side are not noticed, and a file sink is always reported to have no room.
-/

namespace Hiemal

open Foundation

variable {Source Dsp Sink : Type}

/-- What an iteration without dsp op and conversion does with the bytes. -/
structure PassesThrough (iteration : Iteration) : Prop where
  sinkCount_eq :
    iteration.sinkCount =
      min iteration.srcBytes iteration.destBytes % 2 ^ 32
  handed_length : iteration.handed.length = iteration.sinkCount
  delivered_le : iteration.delivered.length ≤ iteration.sinkCount
  handed_front :
    iteration.handed.take iteration.delivered.length = iteration.delivered
  accepted_prefix : iteration.accepted <+: iteration.handed

/-- The source's bytes in the zeroed scratch buffer, handed to the sink. -/
theorem drainScratch_fillScratch
    (sink : HmSinkOp Sink)
    (state : OpStates Source Dsp Sink)
    {srcBytes destBytes bytesAvailable : Nat}
    (available : bytesAvailable = min srcBytes destBytes)
    (delivery : Delivery (bytesAvailable % 2 ^ 32)) :
    PassesThrough
      (drainScratch sink state srcBytes destBytes delivery.bytes
        (fillScratch delivery.bytes bytesAvailable)).2 := by
  have bounded := delivery.bounded
  have truncated : bytesAvailable % 2 ^ 32 ≤ bytesAvailable := Nat.mod_le _ _
  have zeroed :
      (List.replicate bytesAvailable (0 : UInt8)).length = bytesAvailable :=
    List.length_replicate
  have bufLength :
      (store (List.replicate bytesAvailable (0 : UInt8)) 0
          delivery.bytes).length =
        bytesAvailable := by
    rw [length_store, zeroed]
  exact
    { sinkCount_eq := congrArg (· % 2 ^ 32) available
      handed_length := by
        show (load _ 0 (bytesAvailable % 2 ^ 32)).length =
          bytesAvailable % 2 ^ 32
        exact length_load (by rw [fillScratch, bufLength]; omega)
      delivered_le := bounded
      handed_front := by
        show (load _ 0 (bytesAvailable % 2 ^ 32)).take
          delivery.bytes.length = delivery.bytes
        rw [take_load bounded]
        exact load_store_same (by rw [zeroed]; omega)
      accepted_prefix := List.take_prefix _ _ }

/-- Spec lemma: the iteration returns, with the counts that were reported. -/
theorem hmStreamIterate_direct
    (stream : HmStream Source Dsp Sink)
    (noDsp : stream.dsp = none)
    (sameFormat : stream.src.outputType = stream.sink.inputType)
    (state : OpStates Source Dsp Sink)
    (tick : Tick) :
    ∃ next iteration,
      hmStreamIterate stream state tick = some (next, iteration) ∧
        iteration.srcBytes =
          (hmOpSourceBytesReadable stream.src state.src 0).value ∧
        iteration.destBytes =
          (hmOpSinkBytesWritable stream.sink state.sink 0).value ∧
        PassesThrough iteration := by
  have smaller (srcBytes destBytes : Nat) :
      (if srcBytes < destBytes then srcBytes else destBytes) =
        min srcBytes destBytes := by
    split <;> omega
  simp only [hmStreamIterate, noDsp, convertScratch, sameFormat, if_true,
    Option.bind_eq_bind, Option.bind_some]
  exact ⟨_, _, rfl, rfl, rfl,
    drainScratch_fillScratch _ _ (smaller _ _) _⟩

/-! ## Order and loss of bytes -/

/-- The bytes the source delivered in the course of some iterations. -/
def deliveredBytes (iterations : List Iteration) : List UInt8 :=
  iterations.flatMap (·.delivered)

/-- The bytes the sink accepted in the course of some iterations. -/
def acceptedBytes (iterations : List Iteration) : List UInt8 :=
  iterations.flatMap (·.accepted)

/-- The sink never accepts more bytes than the source delivered, and nothing
after an iteration in which it accepted fewer. -/
def KeepsPace : List Iteration → Prop
  | [] => True
  | iteration :: rest =>
      iteration.accepted.length ≤ iteration.delivered.length ∧
        (iteration.accepted.length < iteration.delivered.length →
          ∀ later ∈ rest, later.accepted = []) ∧
        KeepsPace rest

instance KeepsPace.decidable :
    (iterations : List Iteration) → Decidable (KeepsPace iterations)
  | [] => inferInstanceAs (Decidable True)
  | iteration :: rest =>
      have : Decidable (KeepsPace rest) := KeepsPace.decidable rest
      inferInstanceAs
        (Decidable (iteration.accepted.length ≤ iteration.delivered.length ∧
          (iteration.accepted.length < iteration.delivered.length →
            ∀ later ∈ rest, later.accepted = []) ∧ KeepsPace rest))

/-- Step lemma: what is accepted of a delivery is the beginning of it. -/
theorem PassesThrough.accepted_eq
    {iteration : Iteration}
    (passes : PassesThrough iteration)
    (pace : iteration.accepted.length ≤ iteration.delivered.length) :
    iteration.accepted =
      iteration.delivered.take iteration.accepted.length := by
  calc
    iteration.accepted =
        iteration.handed.take iteration.accepted.length :=
      List.prefix_iff_eq_take.mp passes.accepted_prefix
    _ = (iteration.handed.take iteration.delivered.length).take
          iteration.accepted.length := by
      rw [List.take_take, Nat.min_eq_left pace]
    _ = iteration.delivered.take iteration.accepted.length := by
      rw [passes.handed_front]

/-- Run lemma: if the sink keeps pace, it accepts a prefix of what was
delivered. -/
theorem KeepsPace.acceptedBytes_prefix
    {iterations : List Iteration}
    (pass : ∀ iteration ∈ iterations, PassesThrough iteration)
    (pace : KeepsPace iterations) :
    acceptedBytes iterations <+: deliveredBytes iterations := by
  induction iterations with
  | nil => exact List.prefix_refl []
  | cons iteration rest inductionHypothesis =>
      obtain ⟨passes, restPass⟩ := List.forall_mem_cons.mp pass
      obtain ⟨le, stops, restPace⟩ := pace
      have accepted := passes.accepted_eq le
      show iteration.accepted ++ acceptedBytes rest <+:
        iteration.delivered ++ deliveredBytes rest
      rcases Nat.lt_or_ge iteration.accepted.length
        iteration.delivered.length with short | whole
      · have nothing : acceptedBytes rest = [] :=
          List.flatMap_eq_nil_iff.mpr (stops short)
        rw [nothing, List.append_nil, accepted]
        exact (List.take_prefix _ _).trans (List.prefix_append _ _)
      · rw [List.take_of_length_le whole] at accepted
        rw [accepted]
        exact List.prefix_append_right_inj _ |>.mpr
          (inductionHypothesis restPass restPace)

theorem KeepsPace.take
    {iterations : List Iteration}
    (pace : KeepsPace iterations)
    (count : Nat) :
    KeepsPace (iterations.take count) := by
  induction iterations generalizing count with
  | nil => simpa using pace
  | cons iteration rest inductionHypothesis =>
      cases count with
      | zero => trivial
      | succ count =>
          obtain ⟨le, stops, restPace⟩ := pace
          exact ⟨le,
            fun short later member =>
              stops short later (List.mem_of_mem_take member),
            inductionHypothesis restPace count⟩

/-- In every run whose transfers keep pace, the bytes the sink accepted are a
prefix of the bytes the source delivered, after each of the iterations. -/
theorem hmStreamRun_acceptedBytes_prefix
    (stream : HmStream Source Dsp Sink)
    (noDsp : stream.dsp = none)
    (sameFormat : stream.src.outputType = stream.sink.inputType)
    (state : OpStates Source Dsp Sink)
    (msec : Nat)
    (ticks : List Tick) :
    ∃ final iterations,
      hmStreamRun stream state msec ticks = some (final, iterations) ∧
        (KeepsPace iterations → ∀ count,
          acceptedBytes (iterations.take count) <+:
            deliveredBytes (iterations.take count)) := by
  have runs :
      RunsWith (hmStreamIterate stream)
        (fun _ iteration => PassesThrough iteration) state
        (ticksWithin msec 0 ticks) :=
    runsWith_of_forall (fun before tick => by
      obtain ⟨next, iteration, stepped, _, _, passes⟩ :=
        hmStreamIterate_direct stream noDsp sameFormat before tick
      exact ⟨next, iteration, stepped, passes⟩) _ state
  obtain ⟨final, iterations, ran, pass⟩ := runs.returns
  refine ⟨final, iterations, ran, fun pace count => ?_⟩
  refine KeepsPace.acceptedBytes_prefix ?_ (pace.take count)
  intro iteration member
  obtain ⟨_, passes⟩ := pass iteration (List.mem_of_mem_take member)
  exact passes

/-- A device sink whose device always has the same room and takes all it is
given. -/
def steadySinkOp (room : Fin (2 ^ 64)) (inputType : HmFormatType) :
    HmSinkOp (List UInt8) where
  opFn src written := (Acceptance.all src, written ++ src)
  bytesWritableFn written _ := .of room 0 written
  inputType := inputType

/-- Two iterations that copy a file of three bytes to a device with room for two
bytes. -/
theorem hmStreamRun_acceptedBytes_prefix_file :
    ∃ final iterations,
      hmStreamRun
          { src := fileSourceOp (fun unread => Fin.ofNat _ unread.length) .s16le
            dsp := none
            sink := steadySinkOp 2 .s16le }
          ({ src := [1, 2, 3], dsp := (), sink := [] } :
            OpStates (List UInt8) Unit (List UInt8))
          10 [⟨5, fun _ _ => 0⟩, ⟨20, fun _ _ => 0⟩] =
          some (final, iterations) ∧
        KeepsPace iterations ∧
          ∀ count,
            acceptedBytes (iterations.take count) <+:
              deliveredBytes (iterations.take count) := by
  have pace : ∀ iterations ∈
      (hmStreamRun
        { src := fileSourceOp (fun unread => Fin.ofNat _ unread.length) .s16le
          dsp := none
          sink := steadySinkOp 2 .s16le }
        ({ src := [1, 2, 3], dsp := (), sink := [] } :
          OpStates (List UInt8) Unit (List UInt8))
        10 [⟨5, fun _ _ => 0⟩, ⟨20, fun _ _ => 0⟩]).map Prod.snd,
      KeepsPace iterations := by
    decide
  obtain ⟨final, iterations, ran, prefixes⟩ :=
    hmStreamRun_acceptedBytes_prefix
      { src := fileSourceOp (fun unread => Fin.ofNat _ unread.length) .s16le
        dsp := none
        sink := steadySinkOp 2 .s16le } rfl rfl
      ({ src := [1, 2, 3], dsp := (), sink := [] } :
        OpStates (List UInt8) Unit (List UInt8))
      10 [⟨5, fun _ _ => 0⟩, ⟨20, fun _ _ => 0⟩]
  rw [ran, Option.map_some] at pace
  have paced := pace iterations rfl
  exact ⟨final, iterations, ran, paced, prefixes paced⟩

/-- A source that reports two readable bytes and delivers one: the sink accepts
a zero behind it that the source never produced. -/
theorem hmStreamRun_inserts_zero :
    ¬∀ final iterations,
      hmStreamRun
          { src := fileSourceOp (fun _ => 2) .s16le
            dsp := none
            sink := steadySinkOp 2 .s16le }
          ({ src := [7], dsp := (), sink := [] } :
            OpStates (List UInt8) Unit (List UInt8))
          10 [⟨20, fun _ _ => 0⟩] =
          some (final, iterations) →
        acceptedBytes iterations <+: deliveredBytes iterations := by
  intro always
  exact absurd (always _ _ rfl) (by decide)

/-! ## File sinks -/

/-- A stream from some source to a file of the source's format. -/
def fileSinkStream (src : HmSourceOp Source) :
    HmStream Source Dsp (List UInt8) where
  src := src
  dsp := none
  sink := fileSinkOp src.outputType

/-- Step lemma: a file sink leaves the writable count at zero, so an iteration
passes all readable bytes only when there are none. -/
theorem hmStreamIterate_fileSink_iff
    (src : HmSourceOp Source)
    (state : OpStates Source Dsp (List UInt8))
    (tick : Tick) :
    (∃ next iteration,
        hmStreamIterate (fileSinkStream src) state tick =
            some (next, iteration) ∧
          iteration.handed.length = min iteration.srcBytes intMax) ↔
      (hmOpSourceBytesReadable src state.src 0).value = 0 := by
  obtain ⟨next, iteration, stepped, srcBytes, destBytes, passes⟩ :=
    hmStreamIterate_direct (fileSinkStream src) rfl rfl state tick
  have noRoom : iteration.destBytes = 0 := destBytes
  have nothing : iteration.handed.length = 0 := by
    rw [passes.handed_length, passes.sinkCount_eq, noRoom, Nat.min_zero,
      Nat.zero_mod]
  have readable :
      (hmOpSourceBytesReadable src state.src 0).value = iteration.srcBytes :=
    srcBytes.symm
  rw [readable]
  constructor
  · rintro ⟨_, other, otherStepped, allPassed⟩
    rw [stepped] at otherStepped
    cases otherStepped
    rw [nothing] at allPassed
    unfold intMax at allPassed
    omega
  · intro zero
    exact ⟨next, iteration, stepped, by rw [nothing, zero, Nat.zero_min]⟩

/-- A run into a file sink passes on everything the source reports exactly when
the source never reports anything. -/
theorem hmStreamRun_fileSink_iff
    (src : HmSourceOp Source)
    (state : OpStates Source Dsp (List UInt8))
    (msec : Nat)
    (ticks : List Tick) :
    RunsWith (hmStreamIterate (fileSinkStream src))
        (fun _ iteration =>
          iteration.handed.length = min iteration.srcBytes intMax)
        state (ticksWithin msec 0 ticks) ↔
      AlongRun (hmStreamIterate (fileSinkStream src))
        (fun before _ =>
          (hmOpSourceBytesReadable src before.src 0).value = 0)
        state (ticksWithin msec 0 ticks) :=
  runsWith_iff_alongRun (hmStreamIterate_fileSink_iff src) _ state

/-- A file of two bytes is not copied. -/
theorem hmStreamRun_fileSink_stalls :
    ¬RunsWith
      (hmStreamIterate
        (fileSinkStream
          (fileSourceOp (fun unread => Fin.ofNat _ unread.length) .s16le)))
      (fun _ iteration =>
        iteration.handed.length = min iteration.srcBytes intMax)
      ({ src := [1, 2], dsp := (), sink := [] } :
        OpStates (List UInt8) Unit (List UInt8))
      (ticksWithin 10 0 [⟨20, fun _ _ => 0⟩]) := by
  rintro ⟨next, iteration, stepped, allPassed, _⟩
  have reported :=
    (hmStreamIterate_fileSink_iff _ _ _).mp
      ⟨next, iteration, stepped, allPassed⟩
  exact absurd reported (by decide)

end Hiemal
