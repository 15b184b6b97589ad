import Hiemal.Format.Convert

/-!
# Converting samples to float and back

The two sample conversions are inverse to each other on 16-bit samples, in
memory as well as in value. The conversion of whole byte strings is not: on the
way back it writes nothing.
-/

namespace Hiemal

open Foundation

/-- Every 16-bit sample is recovered from its float. -/
theorem formatConvertF32leS16le_formatConvertS16leF32le
    {sample : Int}
    (lower : -2 ^ 15 ≤ sample)
    (upper : sample < 2 ^ 15) :
    formatConvertF32leS16le (formatConvertS16leF32le sample) = sample := by
  have short : sample.natAbs < 2 ^ 24 := by omega
  have signed :
      (if decide (sample < 0) = true then -(sample.natAbs : Int)
        else sample.natAbs) =
        sample := by
    by_cases negative : sample < 0
    · simp only [negative, decide_true, if_true]
      omega
    · simp only [negative, decide_false, Bool.false_eq_true, if_false]
      omega
  rw [formatConvertF32leS16le, formatConvertS16leF32le,
    Binary32.truncScaled_ofScaled _ short (by omega), signed,
    Option.getD_some]
  exact toSigned_eq_self 15 lower upper

theorem loadS16le_bytesS16le
    {sample : Int}
    (lower : -2 ^ 15 ≤ sample)
    (upper : sample < 2 ^ 15) :
    loadS16le (bytesS16le sample) = sample := by
  rw [loadS16le, bytesS16le,
    ofLittleEndian_toLittleEndian (toUnsigned_lt 16 sample)]
  exact toSigned_toUnsigned 15 lower upper

@[simp] theorem loadF32le_bytesF32le (sample : Binary32) :
    loadF32le (bytesF32le sample) = sample := by
  rw [loadF32le, bytesF32le,
    ofLittleEndian_toLittleEndian sample.toBits_lt, Binary32.ofBits_toBits]

/-- In memory, too, one sample survives both conversions. -/
theorem convertSample_convertSample (sample : BitVec 16) :
    convertSample .f32le .s16le
        (convertSample .s16le .f32le (bytesS16le sample.toInt)) =
      bytesS16le sample.toInt := by
  have lower : -2 ^ 15 ≤ sample.toInt := sample.le_toInt
  have upper : sample.toInt < 2 ^ 15 := sample.toInt_lt
  rw [convertSample, convertSample, loadF32le_bytesF32le,
    loadS16le_bytesS16le lower upper,
    formatConvertF32leS16le_formatConvertS16leF32le lower upper]

/-- The bytes of a list of 16-bit samples. -/
def sampleBytes (samples : List (BitVec 16)) : List UInt8 :=
  samples.flatMap fun sample => bytesS16le sample.toInt

theorem length_sampleBytes (samples : List (BitVec 16)) :
    (sampleBytes samples).length = 2 * samples.length := by
  simp [sampleBytes, Nat.mul_comm]

/-- Converting the samples to float in the block `floats`, and the result back
in the block `bytes`, returns the original byte count and leaves the original
bytes. -/
def RoundTrips
    (samples : List (BitVec 16))
    (floats bytes : List UInt8) : Prop :=
  ∃ widened narrowed,
    hmFormatConvert (sampleBytes samples) .s16le .f32le floats
        (sampleBytes samples).length =
      some widened ∧
    hmFormatConvert widened.dest .f32le .s16le bytes widened.nBytesWritten =
      some narrowed ∧
    narrowed.nBytesWritten = (sampleBytes samples).length ∧
    narrowed.dest.take narrowed.nBytesWritten = sampleBytes samples

/-- Only the empty list of samples survives the conversion to float and back. -/
theorem roundTrips_iff
    (samples : List (BitVec 16))
    (floats bytes : List UInt8) :
    RoundTrips samples floats bytes ↔ samples = [] := by
  constructor
  · rintro ⟨widened, narrowed, _, returns, count, _⟩
    rw [hmFormatConvert_narrow] at returns
    cases returns
    rw [length_sampleBytes] at count
    change 0 = 2 * samples.length at count
    exact List.eq_nil_of_length_eq_zero (by omega)
  · rintro rfl
    exact ⟨_, _, hmFormatConvert_widen _ _ (by simp [sampleBytes]),
      hmFormatConvert_narrow _ _ _, rfl, rfl⟩

/-- The sample 1 is lost. -/
theorem not_roundTrips_one :
    ¬RoundTrips [1] (List.replicate 4 0) (List.replicate 2 0) := by
  rintro ⟨widened, narrowed, _, returns, count, _⟩
  rw [hmFormatConvert_narrow] at returns
  cases returns
  exact absurd count (by decide)

end Hiemal
