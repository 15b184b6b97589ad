import Hiemal.Dsp.Conservation
import Hiemal.Format.RoundTrip

/-!
# Two decoders of 16-bit samples

`pcm16_to_double_impl` takes a sample for a `uint16_t`, `hm_format_convert` for an
`int16_t`, and both divide it by `0x8000`. The numbers they make of it are equal for
half of the samples.
-/

namespace Hiemal

open Foundation

/-- The rational numbers that the doubles in memory stand for. -/
def doubleValues (bytes : List UInt8) : List (Option ℚ) :=
  (pieces 8 (bytes.length / 8) bytes).map fun sample =>
    (loadDouble sample).value

/-- The rational numbers that the floats in memory stand for. -/
def floatValues (bytes : List UInt8) : List (Option ℚ) :=
  (pieces 4 (bytes.length / 4) bytes).map fun sample =>
    (loadF32le sample).toInterchange.value

/-- Decoding `bytes` from the one buffer to the other appends doubles of the given
values. -/
def DecodesToDoubles
    (destCapacity : Nat)
    (src dest : Buffer)
    (bytes written : List UInt8)
    (fresh : Nat → UInt8)
    (values : List (Option ℚ)) : Prop :=
  ∃ call destAfter doubles,
    pcm16ToDoubleImpl bytes.length [src] [dest] fresh = some call ∧
      call.outputs = [destAfter] ∧
        BufferHolds destCapacity destAfter (written ++ doubles) ∧
          doubleValues doubles = values

/-- Decoding `bytes` to a block leaves floats of the given values at its front. -/
def DecodesToFloats
    (bytes dest : List UInt8)
    (values : List (Option ℚ)) : Prop :=
  ∃ conversion,
    hmFormatConvert bytes .s16le .f32le dest bytes.length = some conversion ∧
      floatValues (conversion.dest.take conversion.nBytesWritten) = values

/-! ## Values of single samples -/

/-- A sample decoded as a `uint16_t`. -/
theorem value_pcm16ToDouble {sample : Nat} (bound : sample < 2 ^ 16) :
    (pcm16ToDouble sample).value = some ((sample : ℚ) / 2 ^ 15) := by
  have stands :=
    @Interchange.value_ofScaled 11 52 sample 15 false
      (Nat.lt_of_lt_of_le bound (Nat.pow_le_pow_right (by decide) (by decide)))
      (by decide) (by decide)
  exact stands

/-- A sample decoded as an `int16_t`. -/
theorem value_formatConvertS16leF32le
    {sample : Int}
    (lower : -2 ^ 15 ≤ sample)
    (upper : sample < 2 ^ 15) :
    (formatConvertS16leF32le sample).toInterchange.value =
      some ((sample : ℚ) / 2 ^ 15) := by
  have stands :=
    @Interchange.value_ofScaled 8 23 sample.natAbs 15 (sample < 0)
      (by omega) (by decide) (by decide)
  rw [formatConvertS16leF32le, Binary32.toInterchange_ofScaled, stands]
  congr 1
  by_cases negative : sample < 0
  · have cast : ((sample.natAbs : Int) : ℚ) = ((-sample : Int) : ℚ) := by
      congr 1
      omega
    rw [Int.cast_natCast, Int.cast_neg] at cast
    rw [if_pos (decide_eq_true negative), cast, neg_div, neg_neg]
  · have cast : ((sample.natAbs : Int) : ℚ) = (sample : ℚ) := by
      congr 1
      omega
    rw [Int.cast_natCast] at cast
    rw [if_neg (by simpa using negative), cast]

/-- The two numbers made of a sample are equal exactly if its leading bit is not
set. -/
theorem value_eq_value_iff {sample : Nat} (bound : sample < 2 ^ 16) :
    (pcm16ToDouble sample).value =
        (formatConvertS16leF32le (toSigned 16 sample)).toInterchange.value ↔
      sample < 2 ^ 15 := by
  have lower : -2 ^ 15 ≤ toSigned 16 sample := Int.le_bmod (by decide)
  have upper : toSigned 16 sample < 2 ^ 15 := toSigned_lt 15 sample
  rw [value_pcm16ToDouble bound, value_formatConvertS16leF32le lower upper,
    Option.some.injEq, div_left_inj' (by positivity)]
  have same :
      (sample : ℚ) = (toSigned 16 sample : ℚ) ↔
        toSigned 16 sample = (sample : Int) := by
    rw [← Int.cast_natCast, Int.cast_inj]
    exact eq_comm
  rw [same, toSigned_eq_natCast_iff 15 bound]
  exact and_iff_right rfl

/-! ## Values of byte strings -/

/-- The number that two bytes stand for. -/
theorem loadU16le_lt
    {sample bytes : List UInt8}
    {count : Nat}
    (member : sample ∈ pieces 2 count bytes) :
    loadU16le sample < 2 ^ 16 := by
  have bound := ofLittleEndian_lt sample
  have length := length_le_of_mem_pieces member
  exact Nat.lt_of_lt_of_le bound
    (Nat.pow_le_pow_right (by decide : 0 < 256) length)

@[simp] theorem loadDouble_bytesDouble (sample : Binary64) :
    loadDouble (bytesDouble sample) = sample := by
  have width : 2 ^ (1 + 11 + 52) = 256 ^ 8 := by norm_num
  have bound := sample.toBits_lt
  rw [width] at bound
  rw [loadDouble, bytesDouble, ofLittleEndian_toLittleEndian bound,
    Interchange.ofBits_toBits]

theorem pcm16ToDoubleCodec_convert (sample : List UInt8) :
    pcm16ToDoubleCodec.convert sample =
      bytesDouble (pcm16ToDouble (loadU16le sample)) := rfl

theorem doubleValues_flatMap (samples : List (List UInt8)) :
    doubleValues (samples.flatMap pcm16ToDoubleCodec.convert) =
      samples.map fun sample => (pcm16ToDouble (loadU16le sample)).value := by
  have read :=
    pieces_flatMap (by decide : 0 < 8) pcm16ToDoubleCodec.length_convert
      samples
  rw [doubleValues, read, List.map_map]
  apply List.map_congr_left
  intro sample _
  rw [Function.comp_apply, pcm16ToDoubleCodec_convert, loadDouble_bytesDouble]

theorem floatValues_flatMap (samples : List (List UInt8)) :
    floatValues (samples.flatMap (convertSample .s16le .f32le)) =
      samples.map fun sample =>
        (formatConvertS16leF32le (loadS16le sample)).toInterchange.value := by
  have read :=
    pieces_flatMap (by decide : 0 < 4)
      (@length_convertSample .s16le .f32le (by decide)) samples
  rw [floatValues, read, List.map_map]
  apply List.map_congr_left
  intro sample _
  rw [Function.comp_apply, convertSample, loadF32le_bytesF32le]

/-! ## Decoding -/

section Decoding

variable {srcCapacity destCapacity room : Nat}
variable {src dest : Buffer} {bytes later written block : List UInt8}

/-- With enough data and room, the decoder through buffers appends the doubles of
all samples. -/
theorem decodesToDoubles_iff
    (even : bytes.length % 2 = 0)
    (flow :
      SamplesFlow srcCapacity destCapacity src dest (bytes ++ later) written
        room)
    (srcBound : srcCapacity < 2 ^ 32)
    (destBound : destCapacity < 2 ^ 32)
    (enough : 4 * bytes.length ≤ room)
    (fresh : Nat → UInt8)
    (values : List (Option ℚ)) :
    DecodesToDoubles destCapacity src dest bytes written fresh values ↔
      (pieces 2 (bytes.length / 2) bytes).map
          (fun sample => (pcm16ToDouble (loadU16le sample)).value) =
        values := by
  have length :
      (resize [] pcm16ToDoubleCodec.inBytes fresh).length =
        pcm16ToDoubleCodec.inBytes :=
    length_resize _ _ _
  obtain ⟨srcAfter, destAfter, ran, after⟩ :=
    flow.sampleLoop srcBound destBound (bytes.length / 2) length
  have data :
      bytes.length / 2 * pcm16ToDoubleCodec.inBytes ≤
        (bytes ++ later).length := by
    rw [List.length_append]
    show bytes.length / 2 * 2 ≤ _
    omega
  have space :
      bytes.length / 2 * pcm16ToDoubleCodec.outBytes =
        min (bytes.length / 2 * pcm16ToDoubleCodec.outBytes) room := by
    show bytes.length / 2 * 8 = min (bytes.length / 2 * 8) room
    omega
  have appended := after.destOffers.holds
  rw [take_flatMap_samplesRead pcm16ToDoubleCodec length (Nat.le_refl _) data
    space] at appended
  have front :
      pieces pcm16ToDoubleCodec.inBytes (bytes.length / 2) (bytes ++ later) =
        pieces 2 (bytes.length / 2) bytes := by
    show pieces 2 _ _ = _
    rw [← @pieces_take _ 2 (bytes.length / 2) bytes.length (by omega),
      List.take_left]
  rw [front] at appended
  have returns :
      pcm16ToDoubleImpl bytes.length [src] [dest] fresh =
        some { inputs := [srcAfter], outputs := [destAfter], rc := none } :=
    congrArg (Option.map _) ran
  rw [← doubleValues_flatMap]
  constructor
  · rintro ⟨call, destEnd, doubles, same, outputs, holds, rfl⟩
    rw [returns] at same
    obtain rfl := Option.some.inj same
    obtain rfl := List.singleton_inj.mp outputs
    have equal := appended.unique holds destBound after.destFree
    rw [List.append_cancel_left equal]
  · rintro rfl
    exact ⟨_, destAfter, _, returns, rfl, appended, rfl⟩

/-- With enough room, the decoder between blocks leaves the floats of all
samples. -/
theorem decodesToFloats_iff
    (even : bytes.length % 2 = 0)
    (bounded : bytes.length < 2 ^ 32)
    (enough : 2 * bytes.length ≤ block.length)
    (values : List (Option ℚ)) :
    DecodesToFloats bytes block values ↔
      (pieces 2 (bytes.length / 2) bytes).map
          (fun sample =>
            (formatConvertS16leF32le (loadS16le sample)).toInterchange.value) =
        values := by
  obtain ⟨conversion, returns, written, front⟩ :=
    @hmFormatConvert_widen_samples bytes block bytes.length even (by omega)
      enough
  have samples :
      convertedSamples bytes .s16le .f32le (bytes.length / 2) =
        (pieces 2 (bytes.length / 2) bytes).flatMap
          (convertSample .s16le .f32le) := by
    rw [convertedSamples, pieces, List.flatMap_map]
    rfl
  rw [samples] at front
  rw [← floatValues_flatMap, ← front, DecodesToFloats, returns, ← written]
  constructor
  · rintro ⟨_, same, values⟩
    obtain rfl := Option.some.inj same
    exact values
  · intro values
    exact ⟨conversion, rfl, values⟩

/-- The numbers that the two decoders make of the samples of a byte string are equal
exactly if no sample has its leading bit set. -/
theorem values_eq_values_iff (bytes : List UInt8) (count : Nat) :
    ((pieces 2 count bytes).map fun sample =>
        (pcm16ToDouble (loadU16le sample)).value) =
      (pieces 2 count bytes).map (fun sample =>
        (formatConvertS16leF32le (loadS16le sample)).toInterchange.value) ↔
      ∀ sample ∈ pieces 2 count bytes, loadU16le sample < 2 ^ 15 := by
  rw [List.map_inj_left]
  apply forall₂_congr
  intro sample member
  exact value_eq_value_iff (loadU16le_lt member)

/-- The two decoders agree on a byte string exactly if no sample in it has its
leading bit set. -/
theorem decodersAgree_iff
    (even : bytes.length % 2 = 0)
    (bounded : bytes.length < 2 ^ 32)
    (flow :
      SamplesFlow srcCapacity destCapacity src dest (bytes ++ later) written
        room)
    (srcBound : srcCapacity < 2 ^ 32)
    (destBound : destCapacity < 2 ^ 32)
    (enoughRoom : 4 * bytes.length ≤ room)
    (enoughBlock : 2 * bytes.length ≤ block.length)
    (fresh : Nat → UInt8) :
    (∃ values,
      DecodesToDoubles destCapacity src dest bytes written fresh values ∧
        DecodesToFloats bytes block values) ↔
      ∀ sample ∈ pieces 2 (bytes.length / 2) bytes,
        loadU16le sample < 2 ^ 15 := by
  rw [← values_eq_values_iff]
  constructor
  · rintro ⟨values, doubles, floats⟩
    have doubleList :=
      (decodesToDoubles_iff even flow srcBound destBound enoughRoom fresh
        values).mp doubles
    have floatList :=
      (decodesToFloats_iff even bounded enoughBlock values).mp floats
    exact doubleList.trans floatList.symm
  · intro same
    refine ⟨_, (decodesToDoubles_iff even flow srcBound destBound enoughRoom
      fresh _).mpr rfl, ?_⟩
    exact (decodesToFloats_iff even bounded enoughBlock _).mpr same.symm

end Decoding

/-- Two samples without leading bit. -/
theorem decodersAgree_iff_two :
    ∃ values,
      DecodesToDoubles 16
          { bufferInitExt 4 .ring [0, 64, 255, 127] with state := .full }
          (bufferInit 16 .ring) [0, 64, 255, 127] [] (fun _ => 0) values ∧
        DecodesToFloats [0, 64, 255, 127] (List.replicate 8 0) values := by
  have flow :
      SamplesFlow 4 16
        { bufferInitExt 4 .ring [0, 64, 255, 127] with state := .full }
        (bufferInit 16 .ring) ([0, 64, 255, 127] ++ []) [] 16 :=
    samplesFlow_full rfl (by decide)
  exact (decodersAgree_iff (by decide) (by decide) flow (by decide)
    (by decide) (by decide) (by decide) fun _ => 0).mpr (by decide)

/-- The sample `0x8000` is one to the one decoder and minus one to the other. -/
theorem not_decodersAgree_leading_bit :
    ¬∃ values,
      DecodesToDoubles 8
          { bufferInitExt 2 .ring [0, 128] with state := .full }
          (bufferInit 8 .ring) [0, 128] [] (fun _ => 0) values ∧
        DecodesToFloats [0, 128] (List.replicate 4 0) values := by
  rintro ⟨values, doubles, floats⟩
  have flow :
      SamplesFlow 2 8
        { bufferInitExt 2 .ring [0, 128] with state := .full }
        (bufferInit 8 .ring) ([0, 128] ++ []) [] 8 :=
    samplesFlow_full rfl (by decide)
  have doubleList :=
    (decodesToDoubles_iff (by decide) flow (by decide) (by decide)
      (by decide) (fun _ => 0) values).mp doubles
  have floatList :=
    (decodesToFloats_iff (by decide) (by decide) (by decide) values).mp floats
  have small :=
    (values_eq_values_iff _ _).mp (doubleList.trans floatList.symm)
  exact absurd small (by decide)

end Hiemal
