import Hiemal.Format.Convert
import Hiemal.Stream.Direct

/-!
# The byte count handed to a sink

The count is clamped to the sink's report once, before any conversion. Each
widening conversion on the way doubles it again, and a narrowing one sets it to
zero.
-/

namespace Hiemal

open Foundation

variable {Source Dsp Sink : Type}

/-- The pairs of formats a stream converts between, in order. -/
def conversionPath (stream : HmStream Source Dsp Sink) :
    List (HmFormatType × HmFormatType) :=
  match stream.dsp with
  | none => [(stream.src.outputType, stream.sink.inputType)]
  | some dsp =>
      [(stream.src.outputType, dsp.inputType),
        (dsp.outputType, stream.sink.inputType)]

/-- The byte count behind one conversion. -/
def convertedCount (nBytes : Nat) (pair : HmFormatType × HmFormatType) : Nat :=
  if pair.1 = pair.2 then nBytes
  else hmFormatConvertBytesAvailable pair.1 pair.2 nBytes

/-- The byte count behind all conversions of a path. -/
def pathCount
    (path : List (HmFormatType × HmFormatType))
    (nBytes : Nat) : Nat :=
  path.foldl convertedCount nBytes

theorem pathCount_cons
    (pair : HmFormatType × HmFormatType)
    (path : List (HmFormatType × HmFormatType))
    (nBytes : Nat) :
    pathCount (pair :: path) nBytes =
      pathCount path (convertedCount nBytes pair) := rfl

/-! ## The count of an iteration -/

@[simp] theorem growScratch_bytesAvailable
    (buffers : ScratchBuffers)
    (convertedBytes : Nat)
    (tmpFresh fresh : Nat → UInt8) :
    (growScratch buffers convertedBytes tmpFresh fresh).bytesAvailable =
      buffers.bytesAvailable := by
  unfold growScratch
  split <;> rfl

@[simp] theorem processScratch_bytesAvailable
    (buffers : ScratchBuffers)
    (output : List UInt8) :
    (processScratch buffers output).bytesAvailable =
      buffers.bytesAvailable := rfl

theorem convertScratch_bytesAvailable
    {buffers after : ScratchBuffers}
    {srcFormat destFormat : HmFormatType}
    {tmpFresh fresh : Nat → UInt8}
    (converted :
      convertScratch buffers srcFormat destFormat tmpFresh fresh =
        some after) :
    after.bytesAvailable =
      convertedCount buffers.bytesAvailable (srcFormat, destFormat) := by
  unfold convertScratch at converted
  unfold convertedCount
  split_ifs at converted ⊢ with same
  · cases converted
    rfl
  · obtain ⟨conversion, _, built⟩ := Option.bind_eq_some_iff.mp converted
    cases built
    rfl

theorem convertProcessed_bytesAvailable
    {buffers after : ScratchBuffers}
    {dspOutput sinkInput srcOutput dspInput : HmFormatType}
    {tmpFresh fresh : Nat → UInt8}
    (converted :
      convertProcessed buffers dspOutput sinkInput srcOutput dspInput tmpFresh
        fresh = some after) :
    after.bytesAvailable =
      convertedCount buffers.bytesAvailable (dspOutput, sinkInput) := by
  unfold convertProcessed at converted
  unfold convertedCount
  split_ifs at converted ⊢ with same
  · cases converted
    rfl
  · obtain ⟨conversion, _, built⟩ := Option.bind_eq_some_iff.mp converted
    cases built
    rfl

/-- Spec lemma: the sink's count is that of the whole path, cut to 32 bits. -/
theorem hmStreamIterate_sinkCount
    {stream : HmStream Source Dsp Sink}
    {state next : OpStates Source Dsp Sink}
    {tick : Tick}
    {iteration : Iteration}
    (stepped :
      hmStreamIterate stream state tick = some (next, iteration)) :
    iteration.sinkCount =
      pathCount (conversionPath stream)
        (min iteration.srcBytes iteration.destBytes) % 2 ^ 32 := by
  have smaller (srcBytes destBytes : Nat) :
      (if srcBytes < destBytes then srcBytes else destBytes) =
        min srcBytes destBytes := by
    split <;> omega
  unfold hmStreamIterate at stepped
  cases dsp : stream.dsp with
  | none =>
      simp only [dsp] at stepped
      obtain ⟨buffers, converted, drained⟩ :=
        Option.bind_eq_some_iff.mp stepped
      cases drained
      show buffers.bytesAvailable % 2 ^ 32 = _
      rw [convertScratch_bytesAvailable converted, ← smaller]
      simp only [conversionPath, dsp]
      rfl
  | some op =>
      simp only [dsp] at stepped
      obtain ⟨first, converted, rest⟩ := Option.bind_eq_some_iff.mp stepped
      obtain ⟨second, processed, drained⟩ := Option.bind_eq_some_iff.mp rest
      cases drained
      show second.bytesAvailable % 2 ^ 32 = _
      rw [convertProcessed_bytesAvailable processed,
        processScratch_bytesAvailable, convertScratch_bytesAvailable converted,
        ← smaller]
      simp only [conversionPath, dsp]
      rfl

/-! ## Counts along a path -/

/-- Number of widening conversions of a path. -/
def widenings (path : List (HmFormatType × HmFormatType)) : Nat :=
  path.count (.s16le, .f32le)

@[simp] theorem convertedCount_zero (pair : HmFormatType × HmFormatType) :
    convertedCount 0 pair = 0 := by
  obtain ⟨srcFormat, destFormat⟩ := pair
  cases srcFormat <;> cases destFormat <;> decide

@[simp] theorem pathCount_zero (path : List (HmFormatType × HmFormatType)) :
    pathCount path 0 = 0 := by
  induction path with
  | nil => rfl
  | cons pair path inductionHypothesis =>
      rw [pathCount_cons, convertedCount_zero]
      exact inductionHypothesis

/-- A narrowing conversion leaves nothing to hand over. -/
theorem pathCount_of_narrowing
    {path : List (HmFormatType × HmFormatType)}
    (narrows : (.f32le, .s16le) ∈ path)
    (nBytes : Nat) :
    pathCount path nBytes = 0 := by
  induction path generalizing nBytes with
  | nil => cases narrows
  | cons pair path inductionHypothesis =>
      rw [pathCount_cons]
      rcases List.mem_cons.mp narrows with rfl | later
      · simp only [convertedCount, reduceCtorEq, if_false,
          hmFormatConvertBytesAvailable_narrow]
        exact pathCount_zero path
      · exact inductionHypothesis later _

/-- The pairs on a path without narrowing widen the format or keep it. -/
theorem pair_cases
    {pair : HmFormatType × HmFormatType}
    (notNarrow : (.f32le, .s16le) ≠ pair) :
    pair = (.s16le, .f32le) ∨
      pair ≠ (.s16le, .f32le) ∧ ∀ nBytes, convertedCount nBytes pair = nBytes := by
  obtain ⟨srcFormat, destFormat⟩ := pair
  cases srcFormat <;> cases destFormat <;> simp_all [convertedCount]

theorem widenings_cons_widening
    (path : List (HmFormatType × HmFormatType)) :
    widenings ((.s16le, .f32le) :: path) = widenings path + 1 :=
  List.count_cons_self

theorem two_pow_widenings_cons
    (path : List (HmFormatType × HmFormatType))
    (nBytes : Nat) :
    2 ^ widenings ((.s16le, .f32le) :: path) * nBytes =
      2 ^ widenings path * (2 * nBytes) := by
  rw [widenings_cons_widening, Nat.pow_succ, Nat.mul_assoc]

theorem widenings_cons_of_ne
    {pair : HmFormatType × HmFormatType}
    (different : pair ≠ (.s16le, .f32le))
    (path : List (HmFormatType × HmFormatType)) :
    widenings (pair :: path) = widenings path :=
  List.count_cons_of_ne different

/-- Without a conversion the count is passed on. -/
theorem pathCount_of_widenings_zero
    {path : List (HmFormatType × HmFormatType)}
    (noNarrowing : (.f32le, .s16le) ∉ path)
    (noWidening : widenings path = 0)
    (nBytes : Nat) :
    pathCount path nBytes = nBytes := by
  induction path with
  | nil => rfl
  | cons pair path inductionHypothesis =>
      have notNarrow := List.ne_of_not_mem_cons noNarrowing
      have restNot := List.not_mem_of_not_mem_cons noNarrowing
      rcases pair_cases notNarrow with rfl | ⟨different, kept⟩
      · rw [widenings_cons_widening] at noWidening
        omega
      · rw [widenings_cons_of_ne different] at noWidening
        rw [pathCount_cons, kept]
        exact inductionHypothesis restNot noWidening

/-- The count behind one widening conversion, up to the 32 bits that reach the
sink: counts too large for the prediction are multiples of `2 ^ 32`. -/
theorem convertedCount_widening (nBytes : Nat) :
    convertedCount nBytes (.s16le, .f32le) =
        2 * roundToPrecision 24 nBytes ∨
      convertedCount nBytes (.s16le, .f32le) = 0 ∧
        2 ^ 32 ∣ roundToPrecision 24 nBytes := by
  simp only [convertedCount, reduceCtorEq, if_false,
    hmFormatConvertBytesAvailable_widen]
  split_ifs with small
  · exact Or.inl rfl
  · refine Or.inr ⟨rfl, ?_⟩
    exact (representable_roundToPrecision (by omega) nBytes).two_pow_dvd
      (by omega)

/-- A represented count is doubled by each widening conversion, up to the 32
bits that reach the sink. -/
theorem pathCount_of_representable
    {path : List (HmFormatType × HmFormatType)}
    (noNarrowing : (.f32le, .s16le) ∉ path)
    {nBytes : Nat}
    (representable : Representable 24 nBytes) :
    pathCount path nBytes % 2 ^ 32 =
      2 ^ widenings path * nBytes % 2 ^ 32 := by
  induction path generalizing nBytes with
  | nil => simp [pathCount, widenings]
  | cons pair path inductionHypothesis =>
      have notNarrow := List.ne_of_not_mem_cons noNarrowing
      have restNot := List.not_mem_of_not_mem_cons noNarrowing
      rw [pathCount_cons]
      rcases pair_cases notNarrow with rfl | ⟨different, kept⟩
      · have rounded : roundToPrecision 24 nBytes = nBytes :=
          (roundToPrecision_eq_self_iff (by omega) nBytes).mpr representable
        have count := convertedCount_widening nBytes
        rw [rounded] at count
        rw [two_pow_widenings_cons]
        rcases count with doubled | ⟨zero, multiple⟩
        · rw [doubled]
          exact inductionHypothesis restNot representable.two_mul
        · rw [zero, pathCount_zero]
          exact (Nat.mod_eq_zero_of_dvd
            ((multiple.mul_left 2).mul_left _)).symm
      · rw [kept, widenings_cons_of_ne different]
        exact inductionHypothesis restNot representable

/-- Any count is rounded before it is doubled. -/
theorem pathCount_of_widenings_pos
    {path : List (HmFormatType × HmFormatType)}
    (noNarrowing : (.f32le, .s16le) ∉ path)
    (widens : 0 < widenings path)
    (nBytes : Nat) :
    pathCount path nBytes % 2 ^ 32 =
      2 ^ widenings path * roundToPrecision 24 nBytes % 2 ^ 32 := by
  induction path with
  | nil => cases widens
  | cons pair path inductionHypothesis =>
      have notNarrow := List.ne_of_not_mem_cons noNarrowing
      have restNot := List.not_mem_of_not_mem_cons noNarrowing
      rw [pathCount_cons]
      rcases pair_cases notNarrow with rfl | ⟨different, kept⟩
      · rw [two_pow_widenings_cons]
        rcases convertedCount_widening nBytes with doubled | ⟨zero, multiple⟩
        · rw [doubled]
          exact pathCount_of_representable restNot
            (representable_roundToPrecision (by omega) nBytes).two_mul
        · rw [zero, pathCount_zero]
          exact (Nat.mod_eq_zero_of_dvd
            ((multiple.mul_left 2).mul_left _)).symm
      · rw [widenings_cons_of_ne different] at widens ⊢
        rw [kept]
        exact inductionHypothesis restNot widens

/-- The reported counts for which the sink is handed no more than it has room
for: a narrowing conversion is on the path, or no widening one, or the rounded
and doubled count, cut to 32 bits, is small enough. -/
def CountFits
    (path : List (HmFormatType × HmFormatType))
    (srcBytes destBytes : Nat) : Prop :=
  (.f32le, .s16le) ∈ path ∨ widenings path = 0 ∨
    2 ^ widenings path * roundToPrecision 24 (min srcBytes destBytes) %
        2 ^ 32 ≤
      destBytes

theorem pathCount_le_iff
    (path : List (HmFormatType × HmFormatType))
    (srcBytes destBytes : Nat) :
    pathCount path (min srcBytes destBytes) % 2 ^ 32 ≤ destBytes ↔
      CountFits path srcBytes destBytes := by
  unfold CountFits
  by_cases narrows : (.f32le, .s16le) ∈ path
  · simp [pathCount_of_narrowing narrows, narrows]
  · rcases Nat.eq_zero_or_pos (widenings path) with none | some
    · have truncated :
          min srcBytes destBytes % 2 ^ 32 ≤ min srcBytes destBytes :=
        Nat.mod_le _ _
      rw [pathCount_of_widenings_zero narrows none]
      simp only [narrows, none, true_or, or_true, iff_true]
      omega
    · rw [pathCount_of_widenings_pos narrows some]
      simp only [narrows, Nat.ne_of_gt some, false_or]

/-- In every run, an iteration hands the sink at most as many bytes as it
reported writable exactly when the reported counts fit the stream's
conversions. -/
theorem hmStreamRun_sinkCount_le_iff
    (stream : HmStream Source Dsp Sink)
    (state : OpStates Source Dsp Sink)
    (msec : Nat)
    (ticks : List Tick)
    (final : OpStates Source Dsp Sink)
    (iterations : List Iteration)
    (ran : hmStreamRun stream state msec ticks = some (final, iterations)) :
    ∀ iteration ∈ iterations,
      (iteration.sinkCount ≤ iteration.destBytes ↔
        CountFits (conversionPath stream) iteration.srcBytes
          iteration.destBytes) := by
  refine runSteps_forall_output ?_ ran
  intro before tick next iteration stepped
  rw [hmStreamIterate_sinkCount stepped]
  exact pathCount_le_iff (conversionPath stream) iteration.srcBytes
    iteration.destBytes

/-- A file of 16-bit samples, played on a device for float samples that always
reports the same room. -/
def widenedFile (room : Fin (2 ^ 64)) :
    HmStream (List UInt8) Unit (List UInt8) where
  src := fileSourceOp (fun unread => Fin.ofNat _ unread.length) .s16le
  dsp := none
  sink := steadySinkOp room .f32le

/-- Two bytes of 16-bit samples for a device with room for eight bytes of float
samples. -/
theorem hmStreamRun_sinkCount_le_iff_room :
    ∃ final iterations,
      hmStreamRun (widenedFile 8) { src := [0, 64], dsp := (), sink := [] } 10
          [⟨20, fun _ _ => 0⟩] = some (final, iterations) ∧
        iterations.map (·.sinkCount) = [4] ∧
        ∀ iteration ∈ iterations,
          (iteration.sinkCount ≤ iteration.destBytes ↔
            CountFits (conversionPath (widenedFile 8)) iteration.srcBytes
              iteration.destBytes) :=
  ⟨_, _, rfl, rfl,
    hmStreamRun_sinkCount_le_iff (widenedFile 8) ⟨[0, 64], (), []⟩ 10
      [⟨20, fun _ _ => 0⟩] _ _ rfl⟩

/-- A device with room for two bytes is handed the four bytes that two bytes of
16-bit samples become. -/
theorem hmStreamRun_overfills_sink :
    ¬∀ final iterations,
      hmStreamRun (widenedFile 2) { src := [0, 64], dsp := (), sink := [] } 10
          [⟨20, fun _ _ => 0⟩] = some (final, iterations) →
        ∀ iteration ∈ iterations,
          iteration.sinkCount ≤ iteration.destBytes := by
  intro always
  exact absurd (always _ _ rfl) (by decide)

end Hiemal
