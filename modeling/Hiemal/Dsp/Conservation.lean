import Hiemal.Dsp.Pcm16

/-!
# Conservation of samples

A call of `pcm16_to_double_impl` or `double_to_pcm16_impl` asks for a number of
samples. If the source has fewer, the last one is converted over again, and if the
destination has less room, the last conversions are lost, so that what leaves the one
buffer is what enters the other only if the two fit each other.
-/

namespace Hiemal

open Foundation

/-- A number of whole samples are removed from the source, and their conversions, in
order, are all that is appended to the destination. -/
def ConservesSamples
    (codec : SampleCodec)
    (srcCapacity destCapacity : Nat)
    (items written : List UInt8)
    (call : ImplCall) : Prop :=
  ∃ k src dest,
    call.inputs = [src] ∧ call.outputs = [dest] ∧
      k * codec.inBytes ≤ items.length ∧
        BufferHolds srcCapacity src (items.drop (k * codec.inBytes)) ∧
          BufferHolds destCapacity dest
            (written ++ (pieces codec.inBytes k items).flatMap codec.convert)

/-- The source has the samples asked for and the destination has room for them, or
the source has fewer, and these are whole, and the destination has room for exactly
them. -/
def SampleCodec.Balanced
    (codec : SampleCodec)
    (nBytes held room : Nat) : Prop :=
  let nSamples := nBytes / codec.inBytes
  nSamples * codec.inBytes ≤ held ∧ nSamples * codec.outBytes ≤ room ∨
    held < nSamples * codec.inBytes ∧ codec.inBytes ∣ held ∧
      room = held / codec.inBytes * codec.outBytes

instance SampleCodec.decidableBalanced
    (codec : SampleCodec)
    (nBytes held room : Nat) :
    Decidable (codec.Balanced nBytes held room) :=
  inferInstanceAs (Decidable (_ ∨ _))

/-- A balanced call moves as many samples on one side as on the other. -/
theorem SampleCodec.balanced_iff
    (codec : SampleCodec)
    (nBytes held room : Nat) :
    codec.Balanced nBytes held room ↔
      ∃ k,
        k * codec.inBytes = min (nBytes / codec.inBytes * codec.inBytes) held ∧
          k * codec.outBytes =
            min (nBytes / codec.inBytes * codec.outBytes) room := by
  generalize nSamplesEq : nBytes / codec.inBytes = nSamples
  simp only [Balanced, nSamplesEq]
  constructor
  · rintro (⟨data, space⟩ | ⟨short, ⟨k, rfl⟩, rfl⟩)
    · exact ⟨nSamples, (Nat.min_eq_left data).symm,
        (Nat.min_eq_left space).symm⟩
    · have fewer : k ≤ nSamples := by
        rw [Nat.mul_comm, Nat.mul_lt_mul_right codec.inPositive] at short
        exact Nat.le_of_lt short
      refine ⟨k, ?_, ?_⟩
      · rw [Nat.min_eq_right (Nat.le_of_lt short), Nat.mul_comm]
      · rw [Nat.mul_div_cancel_left _ codec.inPositive,
          Nat.min_eq_right (Nat.mul_le_mul_right _ fewer)]
  · rintro ⟨k, removed, appended⟩
    by_cases data : nSamples * codec.inBytes ≤ held
    · rw [Nat.min_eq_left data,
        Nat.mul_left_inj (Nat.ne_of_gt codec.inPositive)] at removed
      subst removed
      exact Or.inl ⟨data, by omega⟩
    · have short := Nat.lt_of_not_le data
      rw [Nat.min_eq_right (Nat.le_of_lt short)] at removed
      subst removed
      rw [Nat.mul_lt_mul_right codec.inPositive] at short
      have more := Nat.mul_lt_mul_of_pos_right short codec.outPositive
      refine Or.inr ⟨Nat.lt_of_not_le data, Nat.dvd_mul_left _ _, ?_⟩
      rw [Nat.mul_div_cancel _ codec.inPositive]
      omega

section Conservation

variable {srcCapacity destCapacity room : Nat}
variable {src dest : Buffer} {items written : List UInt8}

/-- Of the conversions of the samples read, the destination gets those of whole
samples alone if it has room for exactly them, or if they are all. -/
theorem take_flatMap_samplesRead
    (codec : SampleCodec)
    {k nSamples : Nat}
    {sample : List UInt8}
    (length : sample.length = codec.inBytes)
    (fewer : k ≤ nSamples)
    (enough : k * codec.inBytes ≤ items.length)
    (appended :
      k * codec.outBytes = min (nSamples * codec.outBytes) room) :
    ((codec.samplesRead nSamples sample items).flatMap codec.convert).take
        room =
      (pieces codec.inBytes k items).flatMap codec.convert := by
  obtain ⟨more, rfl⟩ := Nat.exists_eq_add_of_le fewer
  obtain ⟨behind, split⟩ := codec.samplesRead_add length enough more
  have total := codec.length_samplesRead (k + more) sample items
  have front :
      ((pieces codec.inBytes k items).flatMap codec.convert).length =
        k * codec.outBytes := by
    rw [codec.length_flatMap_convert, length_pieces]
  rw [split, List.length_append, length_pieces] at total
  have rest : (behind.flatMap codec.convert).length =
      more * codec.outBytes := by
    rw [codec.length_flatMap_convert]
    congr 1
    omega
  rw [split, List.flatMap_append]
  rw [Nat.add_mul] at appended
  by_cases exactly : room = k * codec.outBytes
  · rw [exactly, ← front, List.take_left]
  · have none : behind.flatMap codec.convert = [] := by
      apply List.length_eq_zero_iff.mp
      omega
    rw [none, List.append_nil, List.take_of_length_le]
    omega

/-- An implementation conserves samples exactly if its call is balanced. -/
theorem sampleImpl_conservesSamples_iff
    (codec : SampleCodec)
    (flow : SamplesFlow srcCapacity destCapacity src dest items written room)
    (srcBound : srcCapacity < 2 ^ 32)
    (destBound : destCapacity < 2 ^ 32)
    (nBytes : Nat)
    (fresh : Nat → UInt8) :
    (∃ call,
      sampleImpl codec nBytes [src] [dest] fresh = some call ∧
        ConservesSamples codec srcCapacity destCapacity items written call) ↔
      codec.Balanced nBytes items.length room := by
  have length :
      (resize [] codec.inBytes fresh).length = codec.inBytes :=
    length_resize _ _ _
  obtain ⟨srcAfter, destAfter, ran, after⟩ :=
    flow.sampleLoop srcBound destBound (nBytes / codec.inBytes) length
  have returns :
      sampleImpl codec nBytes [src] [dest] fresh =
        some { inputs := [srcAfter], outputs := [destAfter], rc := none } := by
    rw [sampleImpl, ran, Option.map_some]
  rw [codec.balanced_iff, returns]
  constructor
  · rintro ⟨call, same, k, srcEnd, destEnd, inputs, outputs, enough,
      srcEndHolds, destEndHolds⟩
    obtain rfl := Option.some.inj same
    obtain rfl := List.singleton_inj.mp inputs
    obtain rfl := List.singleton_inj.mp outputs
    have left := congrArg List.length
      (after.srcHolds.unique srcEndHolds srcBound after.srcFree)
    have grown := congrArg List.length
      (after.destOffers.holds.unique destEndHolds destBound after.destFree)
    rw [List.length_drop, List.length_drop] at left
    rw [List.length_append, List.length_append, List.length_take,
      codec.length_flatMap_convert, codec.length_flatMap_convert,
      codec.length_samplesRead, length_pieces] at grown
    exact ⟨k, by omega, by omega⟩
  · rintro ⟨k, removed, appended⟩
    have fewer : k ≤ nBytes / codec.inBytes :=
      Nat.le_of_mul_le_mul_right
        (removed.le.trans (Nat.min_le_left _ _)) codec.inPositive
    have enough : k * codec.inBytes ≤ items.length :=
      removed.le.trans (Nat.min_le_right _ _)
    refine ⟨_, rfl, k, srcAfter, destAfter, rfl, rfl, enough, ?_, ?_⟩
    · have left :
          items.drop (k * codec.inBytes) =
            items.drop (nBytes / codec.inBytes * codec.inBytes) := by
        apply List.drop_eq_drop_iff.mpr
        omega
      rw [left]
      exact after.srcHolds
    · rw [← take_flatMap_samplesRead codec length fewer enough appended]
      exact after.destOffers.holds

/-- Both implementations conserve samples exactly if their calls are balanced. -/
theorem pcm16Impls_conserveSamples_iff
    (flow : SamplesFlow srcCapacity destCapacity src dest items written room)
    (srcBound : srcCapacity < 2 ^ 32)
    (destBound : destCapacity < 2 ^ 32)
    (outside : Binary64 → UInt16)
    (nBytes : Nat)
    (fresh : Nat → UInt8) :
    ((∃ call,
      pcm16ToDoubleImpl nBytes [src] [dest] fresh = some call ∧
        ConservesSamples pcm16ToDoubleCodec srcCapacity destCapacity items
          written call) ↔
        pcm16ToDoubleCodec.Balanced nBytes items.length room) ∧
      ((∃ call,
        doubleToPcm16Impl outside nBytes [src] [dest] fresh = some call ∧
          ConservesSamples (doubleToPcm16Codec outside) srcCapacity destCapacity
            items written call) ↔
        (doubleToPcm16Codec outside).Balanced nBytes items.length room) :=
  ⟨sampleImpl_conservesSamples_iff pcm16ToDoubleCodec flow srcBound destBound
      nBytes fresh,
    sampleImpl_conservesSamples_iff (doubleToPcm16Codec outside) flow srcBound
      destBound nBytes fresh⟩

end Conservation

/-- A full source and an empty destination. -/
theorem samplesFlow_full
    {srcCapacity destCapacity : Nat}
    {items : List UInt8}
    (length : items.length = srcCapacity)
    (destBound : destCapacity < 2 ^ 32) :
    SamplesFlow srcCapacity destCapacity
      { bufferInitExt srcCapacity .ring items with state := .full }
      (bufferInit destCapacity .ring) items [] destCapacity where
  srcHolds := bufferHolds_full length
  srcFree := rfl
  destOffers := bufferOffers_bufferInit destBound .ring
  destFree := rfl

/-- Two samples in each direction, with room for both conversions and one byte more:
`0x4000` and `0x8000`, and the doubles `1/2` and `1`. -/
theorem pcm16Impls_conserveSamples_iff_two :
    (∃ call,
      pcm16ToDoubleImpl 5
          [{ bufferInitExt 4 .ring [0, 64, 0, 128] with state := .full }]
          [bufferInit 17 .ring] (fun _ => 0) = some call ∧
        ConservesSamples pcm16ToDoubleCodec 4 17 [0, 64, 0, 128] [] call) ∧
      ∃ call,
        doubleToPcm16Impl (fun _ => 0) 16
            [{ bufferInitExt 16 .ring
                [0, 0, 0, 0, 0, 0, 224, 63, 0, 0, 0, 0, 0, 0, 240, 63] with
              state := .full }]
            [bufferInit 5 .ring] (fun _ => 0) = some call ∧
          ConservesSamples (doubleToPcm16Codec fun _ => 0) 16 5
            [0, 0, 0, 0, 0, 0, 224, 63, 0, 0, 0, 0, 0, 0, 240, 63] [] call :=
  ⟨(pcm16Impls_conserveSamples_iff (samplesFlow_full rfl (by decide))
      (by decide) (by decide) (fun _ => 0) 5 fun _ => 0).1.mpr (by decide),
    (pcm16Impls_conserveSamples_iff (samplesFlow_full rfl (by decide))
      (by decide) (by decide) (fun _ => 0) 16 fun _ => 0).2.mpr (by decide)⟩

/-- Of two samples asked for the source has one, which is converted twice; and there
is room for one byte of a sample, which is written alone. -/
theorem not_conservesSamples_short :
    (¬∃ call,
      pcm16ToDoubleImpl 4
          [{ bufferInitExt 2 .ring [0, 64] with state := .full }]
          [bufferInit 16 .ring] (fun _ => 0) = some call ∧
        ConservesSamples pcm16ToDoubleCodec 2 16 [0, 64] [] call) ∧
      ¬∃ call,
        doubleToPcm16Impl (fun _ => 0) 8
            [{ bufferInitExt 8 .ring [0, 0, 0, 0, 0, 0, 224, 63] with
              state := .full }]
            [bufferInit 1 .ring] (fun _ => 0) = some call ∧
          ConservesSamples (doubleToPcm16Codec fun _ => 0) 8 1
            [0, 0, 0, 0, 0, 0, 224, 63] [] call := by
  constructor
  · intro conserved
    have balanced :=
      (sampleImpl_conservesSamples_iff pcm16ToDoubleCodec
        (samplesFlow_full rfl (by decide)) (by decide) (by decide) 4 _).mp
        conserved
    exact absurd balanced (by decide)
  · intro conserved
    have balanced :=
      (sampleImpl_conservesSamples_iff (doubleToPcm16Codec fun _ => 0)
        (samplesFlow_full rfl (by decide)) (by decide) (by decide) 8 _).mp
        conserved
    exact absurd balanced (by decide)

end Hiemal
