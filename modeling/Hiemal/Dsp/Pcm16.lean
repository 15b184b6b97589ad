import Hiemal.Buffer.Room
import Hiemal.Foundation.Interchange

/-!
# Converting samples from buffer to buffer

Translation of `pcm16_to_double_impl` and `double_to_pcm16_impl` of `core/dsp.c`. Both
loop over the samples they are asked for, reading one from the source and writing its
conversion to the destination, and both ignore how many bytes either transfer moves.
A sample that the source does not have is converted from what the local variable
holds, and what the destination has no room for is lost.

The two buffers are different objects. `double_t` is the 64-bit format, stored
little-endian.
-/

namespace Hiemal

open Foundation

/-- A conversion of samples between two sizes. -/
structure SampleCodec where
  inBytes : Nat
  outBytes : Nat
  convert : List UInt8 → List UInt8
  inPositive : 0 < inBytes
  outPositive : 0 < outBytes
  length_convert : ∀ sample, (convert sample).length = outBytes

/-- `((float)pcm_sample) / 0x8000`. The conversions and the division are exact. -/
def pcm16ToDouble (pcmSample : Nat) : Binary64 :=
  Interchange.ofScaled false pcmSample 15

/-- `(uint16_t)(float_sample * 0x8000)`, the product without its fraction. C leaves
the conversion undefined for what is outside of the range of `uint16_t`; `outside` is
what it gives there. -/
def doubleToPcm16 (outside : Binary64 → UInt16) (floatSample : Binary64) : Nat :=
  match floatSample.value with
  | some value =>
      let product := value * 0x8000
      let whole := product.num.tdiv product.den
      if 0 ≤ whole ∧ whole < 2 ^ 16 then whole.toNat
      else (outside floatSample).toNat
  | none => (outside floatSample).toNat

/-- The bytes of a `uint16_t`. -/
def bytesU16le (sample : Nat) : List UInt8 :=
  toLittleEndian 2 sample

/-- The `uint16_t` in memory. -/
def loadU16le (bytes : List UInt8) : Nat :=
  ofLittleEndian bytes

/-- The bytes of a `double_t`. -/
def bytesDouble (sample : Binary64) : List UInt8 :=
  toLittleEndian 8 sample.toBits

/-- The `double_t` in memory. -/
def loadDouble (bytes : List UInt8) : Binary64 :=
  Interchange.ofBits (ofLittleEndian bytes)

/-- The samples of `pcm16_to_double_impl`. -/
def pcm16ToDoubleCodec : SampleCodec where
  inBytes := 2
  outBytes := 8
  convert bytes := bytesDouble (pcm16ToDouble (loadU16le bytes))
  inPositive := by decide
  outPositive := by decide
  length_convert _ := length_toLittleEndian 8 _

/-- The samples of `double_to_pcm16_impl`. -/
def doubleToPcm16Codec (outside : Binary64 → UInt16) : SampleCodec where
  inBytes := 8
  outBytes := 2
  convert bytes := bytesU16le (doubleToPcm16 outside (loadDouble bytes))
  inPositive := by decide
  outPositive := by decide
  length_convert _ := length_toLittleEndian 2 _

/-- The loop over the samples: the buffers afterwards. `sample` is the memory of the
local variable that a sample is read to. -/
def sampleLoop (codec : SampleCodec) :
    (nSamples : Nat) → (sample : List UInt8) → (src dest : Buffer) →
      Option (Buffer × Buffer)
  | 0, _, src, dest => some (src, dest)
  | nSamples + 1, sample, src, dest => do
      let read ← bufferRead src (some sample) codec.inBytes
      let sample := read.dest.getD sample
      let written ← bufferWrite dest (codec.convert sample) codec.outBytes
      sampleLoop codec nSamples sample read.buf written.buf

/-- The outcome of an implementation: its buffers and the C return value, which is
indeterminate where the function ends without returning one. -/
structure ImplCall where
  inputs : List Buffer
  outputs : List Buffer
  rc : Option Int

/-- What the two implementations have in common. `fresh` are the cells of the local
variable, which is not initialised. -/
def sampleImpl
    (codec : SampleCodec)
    (nBytes : Nat)
    (inputs outputs : List Buffer)
    (fresh : Nat → UInt8) : Option ImplCall :=
  match inputs, outputs with
  | [src], [dest] =>
      (sampleLoop codec (nBytes / codec.inBytes)
        (resize [] codec.inBytes fresh) src dest).map fun (src, dest) =>
          { inputs := [src], outputs := [dest], rc := none }
  | _, _ => some { inputs := inputs, outputs := outputs, rc := some 0x102 }

/-- `pcm16_to_double_impl`. -/
def pcm16ToDoubleImpl :
    (nBytes : Nat) → (inputs outputs : List Buffer) → (fresh : Nat → UInt8) →
      Option ImplCall :=
  sampleImpl pcm16ToDoubleCodec

/-- `double_to_pcm16_impl`. -/
def doubleToPcm16Impl (outside : Binary64 → UInt16) :
    (nBytes : Nat) → (inputs outputs : List Buffer) → (fresh : Nat → UInt8) →
      Option ImplCall :=
  sampleImpl (doubleToPcm16Codec outside)

/-! ## The samples that are converted -/

namespace SampleCodec

variable (codec : SampleCodec)

/-- The local variable in the rounds of the loop, over a source that holds the given
bytes. -/
def samplesRead :
    (nSamples : Nat) → (sample items : List UInt8) → List (List UInt8)
  | 0, _, _ => []
  | nSamples + 1, sample, items =>
      let sample := store sample 0 (items.take codec.inBytes)
      sample ::
        samplesRead nSamples sample (items.drop codec.inBytes)

@[simp] theorem length_samplesRead
    (nSamples : Nat)
    (sample items : List UInt8) :
    (codec.samplesRead nSamples sample items).length = nSamples := by
  induction nSamples generalizing sample items with
  | zero => rfl
  | succ nSamples inductionHypothesis =>
      rw [samplesRead, List.length_cons, inductionHypothesis]

theorem length_flatMap_convert (samples : List (List UInt8)) :
    (samples.flatMap codec.convert).length =
      samples.length * codec.outBytes :=
  length_flatMap_of_length_eq codec.length_convert samples

/-- As long as the source has whole samples, they are what is read. -/
theorem samplesRead_add
    {whole : Nat}
    {sample items : List UInt8}
    (length : sample.length = codec.inBytes)
    (enough : whole * codec.inBytes ≤ items.length)
    (more : Nat) :
    ∃ behind,
      codec.samplesRead (whole + more) sample items =
        pieces codec.inBytes whole items ++ behind := by
  induction whole generalizing sample items with
  | zero => exact ⟨_, rfl⟩
  | succ whole inductionHypothesis =>
      rw [Nat.succ_mul] at enough
      have front : (items.take codec.inBytes).length = codec.inBytes :=
        List.length_take_of_le (by omega)
      have read :
          store sample 0 (items.take codec.inBytes) =
            items.take codec.inBytes :=
        store_of_length_eq (front.trans length.symm)
      obtain ⟨behind, rest⟩ :=
        @inductionHypothesis (items.take codec.inBytes)
          (items.drop codec.inBytes) front
          (by rw [List.length_drop]; omega)
      refine ⟨behind, ?_⟩
      rw [Nat.succ_add, samplesRead, read, rest, Nat.add_comm whole 1,
        pieces_add, Nat.one_mul,
        List.append_assoc]
      simp [pieces, load]

end SampleCodec

/-! ## The loop -/

section Loop

variable {codec : SampleCodec} {srcCapacity destCapacity room : Nat}
variable {src dest : Buffer} {items written : List UInt8}

/-- The source holds `items`, and the destination `written` and has room for some
bytes more; both are between two calls. -/
structure SamplesFlow
    (srcCapacity destCapacity : Nat)
    (src dest : Buffer)
    (items written : List UInt8)
    (room : Nat) : Prop where
  srcHolds : BufferHolds srcCapacity src items
  srcFree : src.m.locked = false
  destOffers : BufferOffers destCapacity dest written room
  destFree : dest.m.locked = false

/-- What is appended by a round and by those after it. -/
theorem take_append_round
    (codec : SampleCodec)
    (sample later : List UInt8)
    (room : Nat) :
    (codec.convert sample).take (min codec.outBytes room) ++
        later.take (room - codec.outBytes) =
      (codec.convert sample ++ later).take room := by
  have length := codec.length_convert sample
  have front :
      (codec.convert sample).take (min codec.outBytes room) =
        (codec.convert sample).take room := by
    rw [List.take_eq_take_iff]
    omega
  rw [front, List.take_append, length]

/-- The loop takes what there is of the samples asked for, and appends what there is
room for of the conversions of what it read. -/
theorem SamplesFlow.sampleLoop
    (flow : SamplesFlow srcCapacity destCapacity src dest items written room)
    (srcBound : srcCapacity < 2 ^ 32)
    (destBound : destCapacity < 2 ^ 32)
    (nSamples : Nat)
    {sample : List UInt8}
    (length : sample.length = codec.inBytes) :
    ∃ srcAfter destAfter,
      Hiemal.sampleLoop codec nSamples sample src dest =
          some (srcAfter, destAfter) ∧
        SamplesFlow srcCapacity destCapacity srcAfter destAfter
          (items.drop (nSamples * codec.inBytes))
          (written ++
            ((codec.samplesRead nSamples sample items).flatMap
              codec.convert).take room)
          (room - nSamples * codec.outBytes) := by
  induction nSamples generalizing src dest items written room sample with
  | zero =>
      refine ⟨src, dest, rfl, ?_⟩
      rw [Nat.zero_mul, List.drop_zero, SampleCodec.samplesRead,
        List.flatMap_nil, List.take_nil, List.append_nil, Nat.zero_mul,
        Nat.sub_zero]
      exact flow
  | succ nSamples inductionHypothesis =>
      obtain ⟨read, readReturns, readMoves⟩ :=
        flow.srcHolds.bufferRead_block srcBound flow.srcFree length
      obtain ⟨next, nextEq⟩ :
          ∃ next, store sample 0 (items.take codec.inBytes) = next :=
        ⟨_, rfl⟩
      have nextLength : next.length = codec.inBytes := by
        rw [← nextEq, length_store, length]
      have nextSample : read.dest.getD sample = next := by
        rw [readMoves.dest_eq, nextEq, Option.getD_some]
      obtain ⟨write, writeReturns, writeMoves⟩ :=
        flow.destOffers.bufferWrite destBound flow.destFree
          (Nat.le_of_eq (codec.length_convert next).symm)
      obtain ⟨srcAfter, destAfter, ran, flowAfter⟩ :=
        inductionHypothesis
          { srcHolds := readMoves.after
            srcFree := readMoves.free
            destOffers := writeMoves.after
            destFree := writeMoves.free } nextLength
      refine ⟨srcAfter, destAfter, ?_, ?_⟩
      · rw [Hiemal.sampleLoop, readReturns]
        simp only [Option.bind_eq_bind, Option.bind_some, nextSample,
          writeReturns, ran]
      · rw [List.drop_drop, List.append_assoc, take_append_round,
          Nat.sub_sub] at flowAfter
        rw [Nat.succ_mul, Nat.succ_mul, SampleCodec.samplesRead, nextEq,
          List.flatMap_cons, Nat.add_comm _ codec.inBytes,
          Nat.add_comm _ codec.outBytes]
        exact flowAfter

end Loop

end Hiemal
