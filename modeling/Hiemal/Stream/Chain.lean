import Hiemal.Stream.Counts

/-!
# Streams through a dsp op

What an iteration ought to hand the sink is the output of the dsp op on the
delivered bytes, converted in front of the dsp op and behind it. This module
says for which formats, counts and transfers it does, with all accesses inside
the scratch buffers.
-/

namespace Hiemal

open Foundation

variable {Source Dsp Sink : Type}

/-- The bytes that the conversion of a byte string writes, given enough room;
the string itself when the formats agree. -/
def convertBytes
    (srcFormat destFormat : HmFormatType)
    (bytes : List UInt8) : List UInt8 :=
  if srcFormat = destFormat then bytes
  else
    match
      hmFormatConvert bytes srcFormat destFormat
        (List.replicate (2 * bytes.length + 2) 0) bytes.length with
    | some conversion => conversion.dest.take conversion.nBytesWritten
    | none => []

@[simp] theorem convertBytes_same
    (format : HmFormatType)
    (bytes : List UInt8) :
    convertBytes format format bytes = bytes :=
  if_pos rfl

@[simp] theorem convertBytes_nil (srcFormat destFormat : HmFormatType) :
    convertBytes srcFormat destFormat [] = [] := by
  cases srcFormat <;> cases destFormat <;> rfl

@[simp] theorem convertBytes_narrow (bytes : List UInt8) :
    convertBytes .f32le .s16le bytes = [] := by
  simp [convertBytes, hmFormatConvert_narrow]

/-- Whole 16-bit samples are widened one by one. -/
theorem convertBytes_widen
    {bytes : List UInt8}
    (even : bytes.length % 2 = 0)
    (bounded : 2 * bytes.length + 4 ≤ 2 ^ 64) :
    convertBytes .s16le .f32le bytes =
      convertedSamples bytes .s16le .f32le (bytes.length / 2) := by
  obtain ⟨conversion, returns, written, front⟩ :=
    @hmFormatConvert_widen_samples bytes
      (List.replicate (2 * bytes.length + 2) 0) bytes.length even bounded (by
        rw [List.length_replicate]
        omega)
  rw [convertBytes, if_neg (by decide), returns]
  dsimp only
  rw [written, front]

theorem length_convertBytes_widen
    (bytes : List UInt8)
    (even : bytes.length % 2 = 0)
    (bounded : 2 * bytes.length + 4 ≤ 2 ^ 64) :
    (convertBytes .s16le .f32le bytes).length = 2 * bytes.length := by
  rw [convertBytes_widen even bounded,
    length_convertedSamples bytes .s16le .f32le (by decide)]
  simp only [hmBytesPerSample]
  omega

/-- Fewer samples are the front part of more samples. -/
theorem take_convertedSamples
    (src : List UInt8)
    {few many : Nat}
    (le : few ≤ many) :
    (convertedSamples src .s16le .f32le many).take
        (few * hmBytesPerSample .f32le) =
      convertedSamples src .s16le .f32le few := by
  induction many, le using Nat.le_induction with
  | base =>
      apply List.take_of_length_le
      rw [length_convertedSamples src .s16le .f32le (by decide)]
  | succ many le inductionHypothesis =>
      rw [convertedSamples_succ, List.take_append_of_le_length,
        inductionHypothesis]
      rw [length_convertedSamples src .s16le .f32le (by decide)]
      exact Nat.mul_le_mul_right _ le

/-- Widening between two blocks that hold the samples begun stays inside both, and
leaves the widened bytes of any whole samples at the front of the destination. -/
theorem hmFormatConvert_widen_front
    (src dest : List UInt8)
    {nBytes : Nat}
    (bounded : 2 * nBytes + 4 ≤ 2 ^ 64)
    (srcRoom : nBytes + nBytes % 2 ≤ src.length)
    (destRoom : 2 * (nBytes + nBytes % 2) ≤ dest.length) :
    ∃ conversion,
      hmFormatConvert src .s16le .f32le dest nBytes = some conversion ∧
        conversion.dest.length = dest.length ∧
        (∀ front ≤ nBytes, front % 2 = 0 →
          load conversion.dest 0 (2 * front) =
            convertBytes .s16le .f32le (load src 0 front)) ∧
        (∀ range ∈ conversion.reads, range.InBounds) ∧
        ∀ range ∈ conversion.writes, range.InBounds := by
  have srcSamples :
      (nBytes + 1) / 2 * hmBytesPerSample .s16le ≤ src.length := by
    simp only [hmBytesPerSample]
    omega
  have destSamples :
      (nBytes + 1) / 2 * hmBytesPerSample .f32le ≤ dest.length := by
    simp only [hmBytesPerSample]
    omega
  refine ⟨_, hmFormatConvert_widen src dest bounded, ?_, ?_, ?_, ?_⟩
  · exact length_storeSamples src .s16le .f32le dest _
  · intro front le even
    have frontLength : (load src 0 front).length = front :=
      length_load (by omega)
    have frontSamples : front / 2 * hmBytesPerSample .f32le = 2 * front := by
      simp only [hmBytesPerSample]
      omega
    have inside : front / 2 * hmBytesPerSample .s16le ≤ front := by
      simp only [hmBytesPerSample]
      omega
    have samplesLength := length_convertedSamples src .s16le .f32le (by decide)
      ((nBytes + 1) / 2)
    rw [storeSamples_eq src .s16le .f32le (by decide) destSamples,
      load_store_front (by omega) (by
        rw [samplesLength, ← frontSamples]
        exact Nat.mul_le_mul_right _ (by omega)),
      ← frontSamples, take_convertedSamples src (by omega),
      convertBytes_widen (by rw [frontLength]; exact even) (by omega),
      frontLength, convertedSamples_load src .s16le .f32le inside]
  · exact sampleAccesses_inBounds srcSamples
  · exact sampleAccesses_inBounds destSamples

/-- A conversion of no bytes returns, and touches nothing outside its blocks. -/
theorem hmFormatConvert_zero
    (src dest : List UInt8)
    (srcFormat destFormat : HmFormatType) :
    ∃ conversion,
      hmFormatConvert src srcFormat destFormat dest 0 = some conversion ∧
        (∀ range ∈ conversion.reads, range.InBounds) ∧
        ∀ range ∈ conversion.writes, range.InBounds := by
  cases srcFormat <;> cases destFormat
  · exact ⟨_, hmFormatConvert_same src dest .s16le 0,
      by simp [Access.InBounds], by simp [Access.InBounds]⟩
  · exact ⟨_, hmFormatConvert_widen src dest (by omega),
      by simp [sampleAccesses], by simp [sampleAccesses]⟩
  · exact ⟨_, hmFormatConvert_narrow src dest 0, by simp, by simp⟩
  · exact ⟨_, hmFormatConvert_same src dest .f32le 0,
      by simp [Access.InBounds], by simp [Access.InBounds]⟩

@[simp] theorem hmFormatConvertBytesAvailable_zero
    (srcFormat destFormat : HmFormatType) :
    hmFormatConvertBytesAvailable srcFormat destFormat 0 = 0 := by
  cases srcFormat <;> cases destFormat <;> decide

/-! ## Scratch buffers -/

/-- Both buffers have room for the available bytes, and all ranges touched so
far lie inside the buffers. -/
structure ScratchBuffers.Fit (buffers : ScratchBuffers) : Prop where
  bufRoom : buffers.bytesAvailable ≤ buffers.buf.length
  tmpRoom : buffers.bytesAvailable ≤ buffers.tmpBuf.length
  inBounds : ∀ range ∈ buffers.accesses, range.InBounds

/-- As many bytes in `buf` as the next op is run with. -/
structure Staged (bytes : List UInt8) (buffers : ScratchBuffers) : Prop where
  fit : buffers.Fit
  count : buffers.bytesAvailable % 2 ^ 32 = bytes.length
  front : load buffers.buf 0 bytes.length = bytes

/-- When the next op is run with no bytes, none are staged. -/
theorem staged_nil
    {buffers : ScratchBuffers}
    (fit : buffers.Fit)
    (nothing : buffers.bytesAvailable % 2 ^ 32 = 0) :
    Staged [] buffers where
  fit := fit
  count := nothing
  front := rfl

/-- With no bytes available, any blocks fit. -/
theorem fit_of_nothing
    {buffers : ScratchBuffers}
    (nothing : buffers.bytesAvailable = 0)
    (inBounds : ∀ range ∈ buffers.accesses, range.InBounds) :
    buffers.Fit where
  bufRoom := by omega
  tmpRoom := by omega
  inBounds := inBounds

theorem frontAccess_inBounds
    {buf : List UInt8}
    {nBytes : Nat}
    (fits : nBytes ≤ buf.length) :
    (frontAccess buf nBytes).InBounds := by
  simpa [Access.InBounds, frontAccess] using fits

/-- However much the source delivers, the buffers fit. -/
theorem fillScratch_fit
    (delivered : List UInt8)
    (bytesAvailable : Nat) :
    (fillScratch delivered bytesAvailable).Fit where
  bufRoom := by
    show _ ≤ (store _ _ _).length
    rw [length_store, List.length_replicate]
    exact Nat.le_refl _
  tmpRoom := by
    show _ ≤ (List.replicate _ _).length
    rw [List.length_replicate]
    exact Nat.le_refl _
  inBounds := by
    intro range member
    rw [List.mem_singleton.mp member]
    exact frontAccess_inBounds (by
      rw [List.length_replicate]
      exact Nat.mod_le _ _)

@[simp] theorem fillScratch_bytesAvailable
    (delivered : List UInt8)
    (bytesAvailable : Nat) :
    (fillScratch delivered bytesAvailable).bytesAvailable = bytesAvailable := rfl

/-- The delivered bytes lie at the front of `buf`. -/
theorem fillScratch_front
    {delivered : List UInt8}
    {bytesAvailable : Nat}
    (le : delivered.length ≤ bytesAvailable) :
    load (fillScratch delivered bytesAvailable).buf 0 delivered.length =
      delivered :=
  load_store_same (by
    rw [List.length_replicate]
    omega)

/-- Running the dsp op keeps the buffers fitting. -/
theorem processScratch_fit
    {buffers : ScratchBuffers}
    (fit : buffers.Fit)
    (output : List UInt8) :
    (processScratch buffers output).Fit where
  bufRoom := fit.bufRoom
  tmpRoom := by
    show _ ≤ (store _ _ _).length
    rw [length_store]
    exact fit.tmpRoom
  inBounds := by
    have truncated :
        buffers.bytesAvailable % 2 ^ 32 ≤ buffers.bytesAvailable :=
      Nat.mod_le _ _
    intro range member
    simp only [processScratch, List.mem_append, List.mem_cons,
      List.not_mem_nil, or_false] at member
    rcases member with old | rfl | rfl
    · exact fit.inBounds range old
    · exact frontAccess_inBounds (Nat.le_trans truncated fit.bufRoom)
    · exact frontAccess_inBounds (Nat.le_trans truncated fit.tmpRoom)

/-- The output of the dsp op lies at the front of `tmp_buf`. -/
theorem processScratch_front
    {buffers : ScratchBuffers}
    {output : List UInt8}
    (fit : buffers.Fit)
    (le : output.length ≤ buffers.bytesAvailable) :
    load (processScratch buffers output).tmpBuf 0 output.length = output :=
  load_store_same (by
    have := fit.tmpRoom
    omega)

section Grow

variable (buffers : ScratchBuffers) (convertedBytes : Nat)
variable (tmpFresh fresh : Nat → UInt8)

@[simp] theorem growScratch_accesses :
    (growScratch buffers convertedBytes tmpFresh fresh).accesses =
      buffers.accesses := by
  unfold growScratch
  split <;> rfl

@[simp] theorem growScratch_zero :
    growScratch buffers 0 tmpFresh fresh = buffers := by
  simp [growScratch]

/-- What growing the scratch buffers for some converted bytes leaves behind. -/
structure Grown (grown : ScratchBuffers) : Prop where
  bufRoom : max buffers.bytesAvailable convertedBytes ≤ grown.buf.length
  tmpRoom : max buffers.bytesAvailable convertedBytes ≤ grown.tmpBuf.length
  bufFront :
    load grown.buf 0 buffers.bytesAvailable =
      load buffers.buf 0 buffers.bytesAvailable
  tmpFront :
    load grown.tmpBuf 0 buffers.bytesAvailable =
      load buffers.tmpBuf 0 buffers.bytesAvailable

/-- Growing makes room for the converted bytes and keeps the old ones. -/
theorem growScratch_grown
    (fit : buffers.Fit) :
    Grown buffers convertedBytes
      (growScratch buffers convertedBytes tmpFresh fresh) := by
  have bufRoom := fit.bufRoom
  have tmpRoom := fit.tmpRoom
  unfold growScratch
  split_ifs with larger
  · exact
      { bufRoom := by
          rw [length_resize]
          omega
        tmpRoom := by
          rw [length_resize]
          omega
        bufFront := take_resize bufRoom (by omega)
        tmpFront := take_resize tmpRoom (by omega) }
  · exact
      { bufRoom := by omega
        tmpRoom := by omega
        bufFront := rfl
        tmpFront := rfl }

end Grow

/-- The byte counts that can be widened in place: the samples begun are no more
than the rounded count, which can be doubled. -/
def WidensInside (nBytes : Nat) : Prop :=
  nBytes + nBytes % 2 ≤ roundToPrecision 24 nBytes ∧
    2 * roundToPrecision 24 nBytes < 2 ^ 64

instance (nBytes : Nat) : Decidable (WidensInside nBytes) :=
  inferInstanceAs (Decidable (_ ∧ _))

theorem WidensInside.available {nBytes : Nat} (inside : WidensInside nBytes) :
    hmFormatConvertBytesAvailable .s16le .f32le nBytes =
      2 * roundToPrecision 24 nBytes := by
  rw [hmFormatConvertBytesAvailable_widen, if_pos inside.2]

/-- The doubled count of a widening can be widened again, unless it is too large to
be doubled. -/
theorem WidensInside.again
    {nBytes : Nat}
    (bounded : 2 * (2 * roundToPrecision 24 nBytes) < 2 ^ 64) :
    WidensInside (2 * roundToPrecision 24 nBytes) := by
  have rounded : roundToPrecision 24 (2 * roundToPrecision 24 nBytes) =
      2 * roundToPrecision 24 nBytes :=
    (roundToPrecision_eq_self_iff (by omega) _).mpr
      (representable_roundToPrecision (by omega) nBytes).two_mul
  unfold WidensInside
  rw [rounded]
  omega

/-! ## The conversion behind the source -/

section First

variable {buffers : ScratchBuffers}
variable (tmpFresh fresh : Nat → UInt8)

/-- Widening in place stays inside the buffers, and leaves any whole samples at the
front of `buf` widened. -/
theorem convertScratch_widen
    (fit : buffers.Fit)
    (inside : WidensInside buffers.bytesAvailable) :
    ∃ after,
      convertScratch buffers .s16le .f32le tmpFresh fresh = some after ∧
        after.Fit ∧
        ∀ bytes, bytes.length ≤ buffers.bytesAvailable →
          bytes.length % 2 = 0 → load buffers.buf 0 bytes.length = bytes →
            load after.buf 0 (2 * bytes.length) =
              convertBytes .s16le .f32le bytes := by
  have available := inside.available
  obtain ⟨samples, doubled⟩ := inside
  generalize roundToPrecision 24 buffers.bytesAvailable = rounded
    at available samples doubled
  have grown := growScratch_grown buffers (2 * rounded) tmpFresh fresh fit
  have bufRoom := grown.bufRoom
  have tmpRoom := grown.tmpRoom
  obtain ⟨conversion, returns, destLength, widened, reads, writes⟩ :=
    @hmFormatConvert_widen_front
      (growScratch buffers (2 * rounded) tmpFresh fresh).buf
      (growScratch buffers (2 * rounded) tmpFresh fresh).tmpBuf
      buffers.bytesAvailable (by omega) (by omega) (by omega)
  simp only [convertScratch, reduceCtorEq, if_false, available,
    growScratch_bytesAvailable, returns, Option.bind_eq_bind, Option.bind_some]
  refine ⟨_, rfl, ?_, ?_⟩
  · exact
      { bufRoom := by
          show 2 * rounded ≤ (store _ _ _).length
          rw [length_store]
          omega
        tmpRoom := by
          show 2 * rounded ≤ conversion.dest.length
          omega
        inBounds := by
          intro range member
          simp only [growScratch_accesses, List.append_assoc, List.mem_append,
            List.mem_cons, List.not_mem_nil, or_false] at member
          rcases member with old | read | write | rfl | rfl
          · exact fit.inBounds range old
          · exact reads range read
          · exact writes range write
          · exact frontAccess_inBounds (by omega)
          · exact frontAccess_inBounds (by omega) }
  · intro bytes le even front
    have convertedLength : (load conversion.dest 0 (2 * rounded)).length =
        2 * rounded :=
      length_load (by omega)
    have kept : load (growScratch buffers (2 * rounded) tmpFresh fresh).buf 0
        bytes.length = bytes := by
      rw [← take_load le, grown.bufFront, take_load le, front]
    show load (store _ 0 (load conversion.dest 0 (2 * rounded))) 0 _ = _
    rw [load_store_front (by omega) (by omega), take_load (by omega),
      widened bytes.length le even, kept]

/-- A narrowing conversion leaves no bytes available. -/
theorem convertScratch_narrow
    (fit : buffers.Fit) :
    ∃ after,
      convertScratch buffers .f32le .s16le tmpFresh fresh = some after ∧
        after.Fit := by
  simp only [convertScratch, reduceCtorEq, if_false,
    hmFormatConvertBytesAvailable_narrow, growScratch_zero,
    hmFormatConvert_narrow, Option.bind_eq_bind, Option.bind_some]
  refine ⟨_, rfl, fit_of_nothing rfl ?_⟩
  intro range member
  simp only [List.append_nil, List.mem_append, List.mem_cons, List.not_mem_nil,
    or_false] at member
  rcases member with old | rfl | rfl
  · exact fit.inBounds range old
  · exact frontAccess_inBounds (Nat.zero_le _)
  · exact frontAccess_inBounds (Nat.zero_le _)

end First

/-! ## The conversion behind the dsp op -/

section Second

variable {buffers : ScratchBuffers}
variable (tmpFresh fresh : Nat → UInt8)

/-- Without a conversion the dsp output is copied back. -/
theorem convertProcessed_same
    (fit : buffers.Fit)
    (dspOutput srcOutput dspInput : HmFormatType) :
    ∃ after,
      convertProcessed buffers dspOutput dspOutput srcOutput dspInput tmpFresh
          fresh =
        some after ∧
        after.Fit ∧
        ∀ bytes, bytes.length ≤ buffers.bytesAvailable →
          load buffers.tmpBuf 0 bytes.length = bytes →
            load after.buf 0 bytes.length = bytes := by
  have bufRoom := fit.bufRoom
  have copiedLength := @length_load _ buffers.tmpBuf 0 buffers.bytesAvailable
    (by
      have := fit.tmpRoom
      omega)
  refine ⟨_, if_pos rfl, ?_, ?_⟩
  · exact
      { bufRoom := by
          show _ ≤ (store _ _ _).length
          rw [length_store]
          exact bufRoom
        tmpRoom := fit.tmpRoom
        inBounds := by
          intro range member
          simp only [List.mem_append, List.mem_cons, List.not_mem_nil,
            or_false] at member
          rcases member with old | rfl | rfl
          · exact fit.inBounds range old
          · exact frontAccess_inBounds fit.tmpRoom
          · exact frontAccess_inBounds bufRoom }
  · intro bytes le front
    show load (store _ 0 (load buffers.tmpBuf 0 buffers.bytesAvailable)) 0 _ = _
    rw [load_store_front (by omega) (by omega), take_load le, front]

/-- Widening behind the dsp op is done right when the source is widened too,
because the formats that are passed by mistake are then the same. -/
theorem convertProcessed_widen
    (fit : buffers.Fit)
    (inside : WidensInside buffers.bytesAvailable) :
    ∃ after,
      convertProcessed buffers .s16le .f32le .s16le .f32le tmpFresh fresh =
          some after ∧
        after.Fit ∧
        ∀ bytes, bytes.length ≤ buffers.bytesAvailable →
          bytes.length % 2 = 0 → load buffers.tmpBuf 0 bytes.length = bytes →
            load after.buf 0 (2 * bytes.length) =
              convertBytes .s16le .f32le bytes := by
  have available := inside.available
  obtain ⟨samples, doubled⟩ := inside
  generalize roundToPrecision 24 buffers.bytesAvailable = rounded
    at available samples doubled
  have grown := growScratch_grown buffers (2 * rounded) tmpFresh fresh fit
  have bufRoom := grown.bufRoom
  have tmpRoom := grown.tmpRoom
  obtain ⟨conversion, returns, destLength, widened, reads, writes⟩ :=
    @hmFormatConvert_widen_front
      (growScratch buffers (2 * rounded) tmpFresh fresh).tmpBuf
      (growScratch buffers (2 * rounded) tmpFresh fresh).buf
      buffers.bytesAvailable (by omega) (by omega) (by omega)
  simp only [convertProcessed, reduceCtorEq, if_false, available,
    growScratch_bytesAvailable, returns, Option.bind_eq_bind, Option.bind_some]
  refine ⟨_, rfl, ?_, ?_⟩
  · exact
      { bufRoom := by
          show 2 * rounded ≤ conversion.dest.length
          omega
        tmpRoom := by
          show 2 * rounded ≤
            (growScratch buffers (2 * rounded) tmpFresh fresh).tmpBuf.length
          omega
        inBounds := by
          intro range member
          simp only [growScratch_accesses, List.append_assoc, List.mem_append]
            at member
          rcases member with old | read | write
          · exact fit.inBounds range old
          · exact reads range read
          · exact writes range write }
  · intro bytes le even front
    have kept : load (growScratch buffers (2 * rounded) tmpFresh fresh).tmpBuf 0
        bytes.length = bytes := by
      rw [← take_load le, grown.tmpFront, take_load le, front]
    show load conversion.dest 0 _ = _
    rw [widened bytes.length le even, kept]

/-- When the source is not converted, the formats passed by mistake make the dsp
output be copied, which stays inside the buffers. -/
theorem convertProcessed_copy
    (fit : buffers.Fit)
    {dspOutput sinkInput : HmFormatType}
    (different : dspOutput ≠ sinkInput)
    (format : HmFormatType) :
    ∃ after,
      convertProcessed buffers dspOutput sinkInput format format tmpFresh
          fresh = some after ∧
        after.Fit := by
  generalize counted :
    hmFormatConvertBytesAvailable dspOutput sinkInput buffers.bytesAvailable =
      convertedBytes
  have grown := growScratch_grown buffers convertedBytes tmpFresh fresh fit
  have bufRoom := grown.bufRoom
  have tmpRoom := grown.tmpRoom
  simp only [convertProcessed, if_neg different, counted,
    growScratch_bytesAvailable, hmFormatConvert_same, Option.bind_eq_bind,
    Option.bind_some]
  refine ⟨_, rfl, ?_⟩
  exact
    { bufRoom := by
        show convertedBytes ≤ (store _ _ _).length
        rw [length_store]
        omega
      tmpRoom := by
        show convertedBytes ≤
          (growScratch buffers convertedBytes tmpFresh fresh).tmpBuf.length
        omega
      inBounds := by
        intro range member
        simp only [growScratch_accesses, List.append_assoc, List.mem_append,
          List.mem_cons, List.not_mem_nil, or_false] at member
        rcases member with old | rfl | rfl
        · exact fit.inBounds range old
        · exact @frontAccess_inBounds _ buffers.bytesAvailable (by omega)
        · exact @frontAccess_inBounds _ buffers.bytesAvailable (by omega) }

/-- With no bytes available, none are converted. -/
theorem convertProcessed_zero
    (fit : buffers.Fit)
    (nothing : buffers.bytesAvailable = 0)
    {dspOutput sinkInput : HmFormatType}
    (different : dspOutput ≠ sinkInput)
    (srcOutput dspInput : HmFormatType) :
    ∃ after,
      convertProcessed buffers dspOutput sinkInput srcOutput dspInput tmpFresh
          fresh =
        some after ∧
        after.Fit := by
  obtain ⟨conversion, returns, reads, writes⟩ :=
    hmFormatConvert_zero buffers.tmpBuf buffers.buf srcOutput dspInput
  simp only [convertProcessed, if_neg different, nothing,
    hmFormatConvertBytesAvailable_zero, growScratch_zero, returns,
    Option.bind_eq_bind, Option.bind_some]
  refine ⟨_, rfl, fit_of_nothing rfl ?_⟩
  intro range member
  simp only [List.append_assoc, List.mem_append] at member
  rcases member with old | read | write
  · exact fit.inBounds range old
  · exact reads range read
  · exact writes range write

end Second

/-! ## Iterations -/

/-- Draining staged bytes hands over just these. -/
theorem drainScratch_staged
    {buffers : ScratchBuffers}
    {bytes : List UInt8}
    (staged : Staged bytes buffers)
    (sink : HmSinkOp Sink)
    (state : OpStates Source Dsp Sink)
    (srcBytes destBytes : Nat)
    (delivered : List UInt8) :
    let iteration :=
      (drainScratch sink state srcBytes destBytes delivered buffers).2
    iteration.handed = bytes ∧ iteration.sinkCount = bytes.length ∧
      ∀ range ∈ iteration.accesses, range.InBounds := by
  refine ⟨?_, staged.count, ?_⟩
  · show load buffers.buf 0 (buffers.bytesAvailable % 2 ^ 32) = bytes
    rw [staged.count, staged.front]
  · intro range member
    simp only [drainScratch, List.mem_append, List.mem_singleton] at member
    rcases member with old | rfl
    · exact staged.fit.inBounds range old
    · exact frontAccess_inBounds
        (Nat.le_trans (Nat.mod_le _ _) staged.fit.bufRoom)

/-- A stream with a dsp op. -/
def dspStream
    (src : HmSourceOp Source)
    (dsp : HmDspOp UInt8 1 Dsp)
    (sink : HmSinkOp Sink) : HmStream Source Dsp Sink where
  src := src
  dsp := some dsp
  sink := sink

section Iteration

variable (src : HmSourceOp Source) (dsp : HmDspOp UInt8 1 Dsp)
variable (sink : HmSinkOp Sink)

/-- The number of bytes an iteration requests from its source: the smaller one
of the two reported counts. -/
def requestedBytes (state : OpStates Source Dsp Sink) : Nat :=
  if (hmOpSourceBytesReadable src state.src 0).value <
      (hmOpSinkBytesWritable sink state.sink 0).value then
    (hmOpSourceBytesReadable src state.src 0).value
  else (hmOpSinkBytesWritable sink state.sink 0).value

/-- The bytes the source delivers in an iteration. -/
def deliveredIn (state : OpStates Source Dsp Sink) : List UInt8 :=
  (hmSourceOpRun src (hmOpSourceBytesReadable src state.src 0).state
    (requestedBytes src sink state)).1.bytes

/-- The output of the dsp op on the delivered and converted bytes. -/
def processedFrom (state : OpStates Source Dsp Sink) (delivered : List UInt8) :
    List UInt8 :=
  (dsp.opFn (convertBytes src.outputType dsp.inputType delivered)
    state.dsp).1.cells

/-- The bytes due to the sink: the delivered ones, converted, processed and
converted again. -/
def dueFrom (state : OpStates Source Dsp Sink) (delivered : List UInt8) :
    List UInt8 :=
  convertBytes dsp.outputType sink.inputType
    (processedFrom src dsp state delivered)

/-- The iteration hands the sink the bytes due to it, and stays inside the scratch
buffers. -/
structure HandsProcessed
    (before : OpStates Source Dsp Sink)
    (iteration : Iteration) : Prop where
  handed_eq : iteration.handed = dueFrom src dsp sink before iteration.delivered
  sinkCount_eq : iteration.sinkCount = iteration.handed.length
  inBounds : ∀ range ∈ iteration.accesses, range.InBounds

/-- The byte count behind the conversion in front of the dsp op. -/
def stagedCount (state : OpStates Source Dsp Sink) : Nat :=
  convertedCount (requestedBytes src sink state)
    (src.outputType, dsp.inputType)

/-- The byte count behind both conversions. -/
def handedCount (state : OpStates Source Dsp Sink) : Nat :=
  convertedCount (stagedCount src dsp sink state)
    (dsp.outputType, sink.inputType)

/-- The states from which an iteration stays inside the scratch buffers. Only a
source that is widened can leave them: by a count that is rounded down, or is odd
and not rounded up by enough, by a second widening of a count too large to be
doubled, and by narrowing the dsp output, which is then widened by mistake. -/
structure StaysInside (state : OpStates Source Dsp Sink) : Prop where
  widenedSource :
    src.outputType = .s16le → dsp.inputType = .f32le →
      WidensInside (requestedBytes src sink state)
  widenedTwice :
    src.outputType = .s16le → dsp.inputType = .f32le →
      dsp.outputType = .s16le → sink.inputType = .f32le →
        2 * stagedCount src dsp sink state < 2 ^ 64
  narrowedSink :
    src.outputType = .s16le → dsp.inputType = .f32le →
      dsp.outputType = .f32le → sink.inputType = .s16le →
        requestedBytes src sink state = 0

/-- The states from which an iteration hands over what it should. -/
inductive ChainHandled (state : OpStates Source Dsp Sink) : Prop
  /-- The sink is run with no bytes, and none are due to it. -/
  | idle
      (inside : StaysInside src dsp sink state)
      (count : handedCount src dsp sink state % 2 ^ 32 = 0)
      (due :
        dueFrom src dsp sink state (deliveredIn src sink state) = [])
  /-- Both ops are run with as many bytes as are due to them, only whole samples are
  converted, and the formats passed by mistake are the right ones if any are used. -/
  | passes
      (inside : StaysInside src dsp sink state)
      (formats :
        dsp.outputType = sink.inputType ∨
          dsp.outputType = src.outputType ∧ sink.inputType = dsp.inputType)
      (wholeSource :
        src.outputType = dsp.inputType ∨
          (deliveredIn src sink state).length % 2 = 0)
      (wholeOutput :
        dsp.outputType = sink.inputType ∨
          (processedFrom src dsp state
            (deliveredIn src sink state)).length % 2 = 0)
      (staged :
        (convertBytes src.outputType dsp.inputType
          (deliveredIn src sink state)).length =
            stagedCount src dsp sink state % 2 ^ 32)
      (handed :
        (dueFrom src dsp sink state (deliveredIn src sink state)).length =
          handedCount src dsp sink state % 2 ^ 32)

variable {src : HmSourceOp Source} {dsp : HmDspOp UInt8 1 Dsp}
variable {sink : HmSinkOp Sink} {state : OpStates Source Dsp Sink} {tick : Tick}

/-- The source never delivers more than is requested. -/
theorem deliveredIn_length_le :
    (deliveredIn src sink state).length ≤
      requestedBytes src sink state % 2 ^ 32 :=
  (hmSourceOpRun src (hmOpSourceBytesReadable src state.src 0).state
    (requestedBytes src sink state)).1.bounded

/-- The dsp op outputs no more than is staged for it. -/
theorem processedFrom_length_le (delivered : List UInt8) :
    (processedFrom src dsp state delivered).length ≤
      (convertBytes src.outputType dsp.inputType delivered).length :=
  (dsp.opFn (convertBytes src.outputType dsp.inputType delivered)
    state.dsp).1.bounded

/-- The stages of an iteration, in the words of this section. -/
theorem hmStreamIterate_dspStream :
    hmStreamIterate (dspStream src dsp sink) state tick =
      (convertScratch
        (fillScratch (deliveredIn src sink state)
          (requestedBytes src sink state))
        src.outputType dsp.inputType (tick.fresh 0)
        (tick.fresh 1)).bind fun first =>
        (convertProcessed
          (processScratch first
            (hmDspOpRun dsp state.dsp first.buf first.bytesAvailable).1.cells)
          dsp.outputType sink.inputType src.outputType dsp.inputType
          (tick.fresh 2) (tick.fresh 3)).bind fun second =>
          some
            (drainScratch sink
              { src :=
                  (hmSourceOpRun src
                    (hmOpSourceBytesReadable src state.src 0).state
                    (requestedBytes src sink state)).2
                dsp :=
                  (hmDspOpRun dsp state.dsp first.buf first.bytesAvailable).2
                sink := (hmOpSinkBytesWritable sink state.sink 0).state }
              (hmOpSourceBytesReadable src state.src 0).value
              (hmOpSinkBytesWritable sink state.sink 0).value
              (deliveredIn src sink state) second) := rfl

/-- A dsp op that is handed staged bytes outputs what it makes of them. -/
theorem hmDspOpRun_staged
    {buffers : ScratchBuffers}
    {bytes : List UInt8}
    (staged : Staged bytes buffers)
    (dspState : Dsp) :
    (hmDspOpRun dsp dspState buffers.buf buffers.bytesAvailable).1.cells =
      (dsp.opFn bytes dspState).1.cells := by
  have handed : handedCells 1 buffers.buf buffers.bytesAvailable = bytes := by
    rw [handedCells, Nat.div_one, staged.count, staged.front]
  rw [hmDspOpRun, handed]

/-- The conversion in front of the dsp op. -/
theorem convertScratch_stays
    (inside : StaysInside src dsp sink state)
    (tmpFresh fresh : Nat → UInt8) :
    ∃ first,
      convertScratch
            (fillScratch (deliveredIn src sink state)
              (requestedBytes src sink state))
            src.outputType dsp.inputType tmpFresh fresh = some first ∧
        first.Fit ∧
        (src.outputType = dsp.inputType ∨
            (deliveredIn src sink state).length % 2 = 0 →
          load first.buf 0
              (convertBytes src.outputType dsp.inputType
                (deliveredIn src sink state)).length =
            convertBytes src.outputType dsp.inputType
              (deliveredIn src sink state)) := by
  have fit := fillScratch_fit (deliveredIn src sink state)
    (requestedBytes src sink state)
  have le : (deliveredIn src sink state).length ≤ requestedBytes src sink state :=
    Nat.le_trans deliveredIn_length_le (Nat.mod_le _ _)
  have front := fillScratch_front le
  have widens := inside.widenedSource
  generalize src.outputType = srcOutput at widens ⊢
  generalize dsp.inputType = dspInput at widens ⊢
  generalize deliveredIn src sink state = delivered at le front fit ⊢
  by_cases same : srcOutput = dspInput
  · subst same
    refine ⟨_, if_pos rfl, fit, ?_⟩
    intro _
    rw [convertBytes_same]
    exact front
  · cases srcOutput <;> cases dspInput
    · exact absurd rfl same
    · have bounded := (widens rfl rfl).2
      have samples := (widens rfl rfl).1
      obtain ⟨first, converted, firstFit, widened⟩ :=
        convertScratch_widen tmpFresh fresh fit (widens rfl rfl)
      refine ⟨first, converted, firstFit, ?_⟩
      intro whole
      have even := whole.resolve_left same
      rw [length_convertBytes_widen _ even (by omega)]
      exact widened delivered le even front
    · obtain ⟨first, converted, firstFit⟩ :=
        convertScratch_narrow tmpFresh fresh fit
      refine ⟨first, converted, firstFit, ?_⟩
      intro _
      rw [convertBytes_narrow]
      rfl
    · exact absurd rfl same

/-- The conversion behind the dsp op, with the formats it is called with by
mistake. -/
theorem convertProcessed_stays
    (inside : StaysInside src dsp sink state)
    {first : ScratchBuffers}
    (fit : first.Fit)
    (count : first.bytesAvailable = stagedCount src dsp sink state)
    (output : List UInt8)
    (tmpFresh fresh : Nat → UInt8) :
    ∃ second,
      convertProcessed (processScratch first output) dsp.outputType
            sink.inputType src.outputType dsp.inputType tmpFresh fresh =
          some second ∧
        second.Fit ∧
        (dsp.outputType = sink.inputType ∨
            dsp.outputType = src.outputType ∧ sink.inputType = dsp.inputType →
          dsp.outputType = sink.inputType ∨ output.length % 2 = 0 →
            output.length ≤ first.bytesAvailable →
              load second.buf 0
                  (convertBytes dsp.outputType sink.inputType output).length =
                convertBytes dsp.outputType sink.inputType output) := by
  have processedFit := processScratch_fit fit output
  have front (le : output.length ≤ first.bytesAvailable) :=
    processScratch_front fit le
  unfold stagedCount at count
  have widens := inside.widenedSource
  have again := inside.widenedTwice
  have narrows := inside.narrowedSink
  unfold stagedCount at again
  generalize src.outputType = srcOutput at count widens again narrows ⊢
  generalize dsp.inputType = dspInput at count widens again narrows ⊢
  generalize dsp.outputType = dspOutput at again narrows ⊢
  generalize sink.inputType = sinkInput at again narrows ⊢
  by_cases sameOutput : dspOutput = sinkInput
  · subst sameOutput
    obtain ⟨second, converted, secondFit, copied⟩ :=
      convertProcessed_same tmpFresh fresh processedFit dspOutput srcOutput
        dspInput
    refine ⟨second, converted, secondFit, ?_⟩
    intro _ _ le
    rw [convertBytes_same]
    exact copied output le (front le)
  · by_cases sameSource : srcOutput = dspInput
    · subst sameSource
      obtain ⟨second, converted, secondFit⟩ :=
        convertProcessed_copy tmpFresh fresh processedFit sameOutput srcOutput
      refine ⟨second, converted, secondFit, ?_⟩
      rintro (same | ⟨rfl, rfl⟩) _ _
      · exact absurd same sameOutput
      · exact absurd rfl sameOutput
    · cases srcOutput <;> cases dspInput
      · exact absurd rfl sameSource
      · have source := widens rfl rfl
        have doubled : convertedCount (requestedBytes src sink state)
            (.s16le, .f32le) =
              2 * roundToPrecision 24 (requestedBytes src sink state) :=
          source.available
        cases dspOutput <;> cases sinkInput
        · exact absurd rfl sameOutput
        · have bounded := again rfl rfl rfl rfl
          rw [doubled] at bounded count
          obtain ⟨second, converted, secondFit, widened⟩ :=
            convertProcessed_widen tmpFresh fresh processedFit (by
              rw [processScratch_bytesAvailable, count]
              exact WidensInside.again bounded)
          refine ⟨second, converted, secondFit, ?_⟩
          intro _ whole le
          have even := whole.resolve_left sameOutput
          rw [length_convertBytes_widen _ even (by omega)]
          exact widened output le even (front le)
        · have nothing : first.bytesAvailable = 0 := by
            rw [count, narrows rfl rfl rfl rfl, convertedCount_zero]
          obtain ⟨second, converted, secondFit⟩ :=
            convertProcessed_zero tmpFresh fresh processedFit nothing sameOutput
              .s16le .f32le
          refine ⟨second, converted, secondFit, ?_⟩
          intro _ _ _
          rw [convertBytes_narrow]
          rfl
        · exact absurd rfl sameOutput
      · have nothing : first.bytesAvailable = 0 := by
          rw [count]
          exact hmFormatConvertBytesAvailable_narrow _
        obtain ⟨second, converted, secondFit⟩ :=
          convertProcessed_zero tmpFresh fresh processedFit nothing sameOutput
            .f32le .s16le
        refine ⟨second, converted, secondFit, ?_⟩
        intro _ _ le
        have none : output = [] :=
          List.eq_nil_of_length_eq_zero (by omega)
        rw [none, convertBytes_nil]
        rfl
      · exact absurd rfl sameSource

/-- An iteration whose second conversion stages the bytes due to the sink. -/
theorem hmStreamIterate_of_stages
    {first second : ScratchBuffers}
    (converted :
      convertScratch
          (fillScratch (deliveredIn src sink state)
            (requestedBytes src sink state))
          src.outputType dsp.inputType (tick.fresh 0) (tick.fresh 1) =
        some first)
    (reconverted :
      convertProcessed
          (processScratch first
            (hmDspOpRun dsp state.dsp first.buf
              first.bytesAvailable).1.cells)
          dsp.outputType sink.inputType src.outputType dsp.inputType
          (tick.fresh 2) (tick.fresh 3) =
        some second)
    (staged :
      Staged (dueFrom src dsp sink state (deliveredIn src sink state)) second) :
    ∃ next iteration,
      hmStreamIterate (dspStream src dsp sink) state tick =
          some (next, iteration) ∧
        HandsProcessed src dsp sink state iteration := by
  rw [hmStreamIterate_dspStream, converted, Option.bind_some, reconverted,
    Option.bind_some]
  refine ⟨_, _, rfl, ?_⟩
  obtain ⟨handed, count, inBounds⟩ :=
    drainScratch_staged staged sink
      { src :=
          (hmSourceOpRun src (hmOpSourceBytesReadable src state.src 0).state
            (requestedBytes src sink state)).2
        dsp := (hmDspOpRun dsp state.dsp first.buf first.bytesAvailable).2
        sink := (hmOpSinkBytesWritable sink state.sink 0).state }
      (hmOpSourceBytesReadable src state.src 0).value
      (hmOpSinkBytesWritable sink state.sink 0).value
      (deliveredIn src sink state)
  exact
    { handed_eq := handed
      sinkCount_eq := count.trans (congrArg List.length handed).symm
      inBounds := inBounds }

/-- Step lemma: every handled state hands over what it should. -/
theorem hmStreamIterate_handled
    (handled : ChainHandled src dsp sink state) :
    ∃ next iteration,
      hmStreamIterate (dspStream src dsp sink) state tick =
          some (next, iteration) ∧
        HandsProcessed src dsp sink state iteration := by
  have inside : StaysInside src dsp sink state := by
    cases handled with
    | idle inside => exact inside
    | passes inside => exact inside
  obtain ⟨first, converted, firstFit, firstFront⟩ :=
    convertScratch_stays inside (tick.fresh 0) (tick.fresh 1)
  have firstCount : first.bytesAvailable = stagedCount src dsp sink state :=
    (convertScratch_bytesAvailable converted).trans (by
      rw [fillScratch_bytesAvailable, stagedCount])
  obtain ⟨second, reconverted, secondFit, secondFront⟩ :=
    convertProcessed_stays inside firstFit firstCount
      (hmDspOpRun dsp state.dsp first.buf first.bytesAvailable).1.cells
      (tick.fresh 2) (tick.fresh 3)
  have secondCount : second.bytesAvailable = handedCount src dsp sink state := by
    rw [convertProcessed_bytesAvailable reconverted,
      processScratch_bytesAvailable, firstCount]
    rfl
  apply hmStreamIterate_of_stages converted reconverted
  cases handled with
  | idle _ count due =>
      rw [due]
      exact staged_nil secondFit (by rw [secondCount, count])
  | passes _ formats wholeSource wholeOutput staged handed =>
      have firstStaged : Staged
          (convertBytes src.outputType dsp.inputType
            (deliveredIn src sink state)) first :=
        { fit := firstFit
          count := by rw [firstCount, staged]
          front := firstFront wholeSource }
      have output :
          (hmDspOpRun dsp state.dsp first.buf first.bytesAvailable).1.cells =
            processedFrom src dsp state (deliveredIn src sink state) :=
        hmDspOpRun_staged firstStaged state.dsp
      have short := @processedFrom_length_le _ _ _ src dsp state
        (deliveredIn src sink state)
      have truncated : stagedCount src dsp sink state % 2 ^ 32 ≤
          stagedCount src dsp sink state :=
        Nat.mod_le _ _
      rw [output] at secondFront
      exact
        { fit := secondFit
          count := by rw [secondCount, handed]
          front := secondFront formats wholeOutput (by omega) }

end Iteration

/-- In every run that passes through handled states only, each iteration hands
the sink the delivered bytes, converted, processed and converted again, and
stays inside the scratch buffers. -/
theorem hmStreamRun_handsProcessed
    (src : HmSourceOp Source)
    (dsp : HmDspOp UInt8 1 Dsp)
    (sink : HmSinkOp Sink)
    (state : OpStates Source Dsp Sink)
    (msec : Nat)
    (ticks : List Tick)
    (handled :
      AlongRun (hmStreamIterate (dspStream src dsp sink))
        (fun before _ => ChainHandled src dsp sink before) state
        (ticksWithin msec 0 ticks)) :
    RunsWith (hmStreamIterate (dspStream src dsp sink))
      (HandsProcessed src dsp sink) state (ticksWithin msec 0 ticks) :=
  handled.runsWith fun _ _ => hmStreamIterate_handled

/-- A dsp op that copies its input. -/
def copyDspOp (inputType outputType : HmFormatType) :
    HmDspOp UInt8 1 Unit where
  opFn src state := (DspOutput.copy src, state)
  inputType := inputType
  outputType := outputType

/-- Two 16-bit samples of a file of three, widened in front of the dsp op and
behind it. -/
theorem hmStreamRun_handsProcessed_widened :
    RunsWith
      (hmStreamIterate
        (dspStream
          (fileSourceOp (fun unread => Fin.ofNat _ unread.length) .s16le)
          (copyDspOp .f32le .s16le) (steadySinkOp 4 .f32le)))
      (HandsProcessed
        (fileSourceOp (fun unread => Fin.ofNat _ unread.length) .s16le)
        (copyDspOp .f32le .s16le) (steadySinkOp 4 .f32le))
      { src := [0, 64, 255, 127, 0, 128], dsp := (), sink := [] }
      (ticksWithin 10 0 [⟨20, fun _ _ => 0⟩]) :=
  hmStreamRun_handsProcessed _ _ _ _ 10 [⟨20, fun _ _ => 0⟩]
    ⟨.passes
      { widenedSource := fun _ _ => by decide
        widenedTwice := fun _ _ _ _ => by decide
        narrowedSink := fun _ _ output _ => absurd output (by decide) }
      (.inr ⟨rfl, rfl⟩) (.inr rfl) (.inr (by decide)) (by decide) (by decide),
      fun _ _ _ => trivial⟩

/-- Behind a dsp op that outputs 16-bit samples for a float sink, the samples
are not converted, and cells that were never written are handed over. -/
theorem hmStreamRun_misconverts :
    ¬RunsWith
      (hmStreamIterate
        (dspStream
          (fileSourceOp (fun unread => Fin.ofNat _ unread.length) .s16le)
          (copyDspOp .s16le .s16le) (steadySinkOp 2 .f32le)))
      (HandsProcessed
        (fileSourceOp (fun unread => Fin.ofNat _ unread.length) .s16le)
        (copyDspOp .s16le .s16le) (steadySinkOp 2 .f32le))
      { src := [0, 64], dsp := (), sink := [] }
      (ticksWithin 10 0 [⟨20, fun _ _ => 9⟩]) := by
  rintro ⟨next, iteration, stepped, hands, _⟩
  have outcome :
      (hmStreamIterate
        (dspStream
          (fileSourceOp (fun unread => Fin.ofNat _ unread.length) .s16le)
          (copyDspOp .s16le .s16le) (steadySinkOp 2 .f32le))
        { src := [0, 64], dsp := (), sink := [] } ⟨20, fun _ _ => 9⟩).map
          (fun result => (result.2.delivered, result.2.handed)) =
        some ([0, 64], [0, 64, 9, 9]) := rfl
  rw [stepped, Option.map_some, Option.some.injEq, Prod.mk.injEq] at outcome
  have handed := hands.handed_eq
  rw [outcome.1, outcome.2] at handed
  exact absurd handed (by decide)

end Hiemal
