import Hiemal.Format.Defs
import Mathlib.Algebra.BigOperators.Group.List.Basic

/-!
# Lengths of format conversions

The conversion loop in closed form, the number of bytes it writes and reads, and
the byte counts for which that number is the predicted one.
-/

namespace Hiemal

open Foundation

@[simp] theorem length_bytesS16le (sample : Int) :
    (bytesS16le sample).length = 2 :=
  length_toLittleEndian 2 _

@[simp] theorem length_bytesF32le (sample : Binary32) :
    (bytesF32le sample).length = 4 :=
  length_toLittleEndian 4 _

theorem length_convertSample
    {srcFormat destFormat : HmFormatType}
    (different : srcFormat ≠ destFormat)
    (bytes : List UInt8) :
    (convertSample srcFormat destFormat bytes).length =
      hmBytesPerSample destFormat := by
  cases srcFormat <;> cases destFormat <;>
    simp_all [convertSample, hmBytesPerSample]

section Loop

variable (src : List UInt8) (srcFormat destFormat : HmFormatType)

/-- The bytes of the first `count` samples after conversion. -/
def convertedSamples (count : Nat) : List UInt8 :=
  (List.range count).flatMap fun index =>
    convertSample srcFormat destFormat
      (load src (index * hmBytesPerSample srcFormat)
        (hmBytesPerSample srcFormat))

/-- The destination block after `count` rounds of the loop. -/
def storeSamples (dest : List UInt8) : (count : Nat) → List UInt8
  | 0 => dest
  | count + 1 =>
      store (storeSamples dest count) (count * hmBytesPerSample destFormat)
        (convertSample srcFormat destFormat
          (load src (count * hmBytesPerSample srcFormat)
            (hmBytesPerSample srcFormat)))

/-- The ranges of the first `count` samples of a block. -/
def sampleAccesses
    (blockSize : Nat)
    (format : HmFormatType)
    (count : Nat) : List Access :=
  (List.range count).map fun index =>
    { blockSize
      start := index * hmBytesPerSample format
      length := hmBytesPerSample format }

/-- The state of the loop after `count` rounds. -/
def convertState (dest : List UInt8) (count : Nat) : ConvertState where
  dest := storeSamples src srcFormat destFormat dest count
  nBytesWritten := count * hmBytesPerSample destFormat
  destPtr := count * hmBytesPerSample destFormat
  srcPtr := count * hmBytesPerSample srcFormat
  reads := sampleAccesses src.length srcFormat count
  writes := sampleAccesses dest.length destFormat count

@[simp] theorem length_storeSamples
    (dest : List UInt8)
    (count : Nat) :
    (storeSamples src srcFormat destFormat dest count).length =
      dest.length := by
  induction count with
  | zero => rfl
  | succ count inductionHypothesis =>
      rw [storeSamples, length_store, inductionHypothesis]

theorem sum_sampleAccesses
    (blockSize : Nat)
    (format : HmFormatType)
    (count : Nat) :
    ((sampleAccesses blockSize format count).map (·.length)).sum =
      count * hmBytesPerSample format := by
  simp [sampleAccesses, Function.comp_def]

/-- The ranges of the first samples end with the last of them. -/
theorem sampleAccesses_end_le
    {blockSize count : Nat}
    {format : HmFormatType} :
    ∀ range ∈ sampleAccesses blockSize format count,
      range.start + range.length ≤ count * hmBytesPerSample format := by
  intro range member
  obtain ⟨index, inside, rfl⟩ := List.mem_map.mp member
  have below : index < count := List.mem_range.mp inside
  calc
    index * hmBytesPerSample format + hmBytesPerSample format =
        (index + 1) * hmBytesPerSample format :=
      (Nat.succ_mul _ _).symm
    _ ≤ count * hmBytesPerSample format := Nat.mul_le_mul_right _ below

theorem sampleAccesses_inBounds
    {blockSize count : Nat}
    {format : HmFormatType}
    (fits : count * hmBytesPerSample format ≤ blockSize) :
    ∀ range ∈ sampleAccesses blockSize format count, range.InBounds := by
  intro range member
  have inside := sampleAccesses_end_le range member
  obtain ⟨index, _, rfl⟩ := List.mem_map.mp member
  exact Nat.le_trans inside fits

theorem sampleAccesses_succ
    (blockSize : Nat)
    (format : HmFormatType)
    (count : Nat) :
    sampleAccesses blockSize format (count + 1) =
      sampleAccesses blockSize format count ++
        [{ blockSize
           start := count * hmBytesPerSample format
           length := hmBytesPerSample format }] := by
  simp [sampleAccesses, List.range_succ]

/-- One round advances the closed form, as long as the count does not wrap. -/
theorem convertStep_convertState
    {dest : List UInt8}
    {count : Nat}
    (bounded : (count + 1) * hmBytesPerSample destFormat < 2 ^ 64) :
    convertStep src srcFormat destFormat
        (convertState src srcFormat destFormat dest count) =
      convertState src srcFormat destFormat dest (count + 1) := by
  have advanced (format : HmFormatType) :
      count * hmBytesPerSample format + hmBytesPerSample format =
        (count + 1) * hmBytesPerSample format :=
    (Nat.succ_mul count (hmBytesPerSample format)).symm
  simp only [convertStep, convertState, storeSamples, sampleAccesses_succ,
    advanced, Nat.mod_eq_of_lt bounded, length_storeSamples]

/-- Number of rounds until `bytesToWrite` bytes are written. -/
def rounds (bytesToWrite : Nat) : Nat :=
  (bytesToWrite + hmBytesPerSample destFormat - 1) /
    hmBytesPerSample destFormat

/-- The loop continues exactly before the last round. -/
theorem lt_rounds_iff
    (bytesToWrite count : Nat) :
    count < rounds destFormat bytesToWrite ↔
      count * hmBytesPerSample destFormat < bytesToWrite := by
  cases destFormat <;> simp only [rounds, hmBytesPerSample] <;> omega

theorem convertLoop_eq
    (dest : List UInt8)
    (bytesToWrite : Nat)
    (bounded : bytesToWrite + hmBytesPerSample destFormat ≤ 2 ^ 64)
    (fuel : Nat)
    (count : Nat)
    (started : count ≤ rounds destFormat bytesToWrite)
    (enough : rounds destFormat bytesToWrite < count + fuel) :
    convertLoop src srcFormat destFormat bytesToWrite fuel
        (convertState src srcFormat destFormat dest count) =
      some (convertState src srcFormat destFormat dest
        (rounds destFormat bytesToWrite)) := by
  induction fuel generalizing count with
  | zero => omega
  | succ fuel inductionHypothesis =>
      have continues := lt_rounds_iff destFormat bytesToWrite count
      rw [convertLoop]
      by_cases more : count < rounds destFormat bytesToWrite
      · have below : count * hmBytesPerSample destFormat < bytesToWrite :=
          continues.mp more
        rw [if_pos (by exact below), convertStep_convertState]
        · exact inductionHypothesis (count + 1) more (by omega)
        · rw [Nat.succ_mul]
          omega
      · have done : count = rounds destFormat bytesToWrite := by omega
        rw [if_neg (by exact fun below => more (continues.mpr below)), done]

/-- A loop that ends has written enough, without wrapping around. -/
theorem convertLoop_some
    {bytesToWrite fuel : Nat}
    {state final : ConvertState}
    (bounded : state.nBytesWritten < 2 ^ 64)
    (returns :
      convertLoop src srcFormat destFormat bytesToWrite fuel state =
        some final) :
    bytesToWrite ≤ final.nBytesWritten ∧ final.nBytesWritten < 2 ^ 64 := by
  induction fuel generalizing state with
  | zero => cases returns
  | succ fuel inductionHypothesis =>
      rw [convertLoop] at returns
      split_ifs at returns with more
      · exact inductionHypothesis (Nat.mod_lt _ (by omega)) returns
      · cases returns
        exact ⟨Nat.le_of_not_lt more, bounded⟩

theorem convertedSamples_succ (count : Nat) :
    convertedSamples src srcFormat destFormat (count + 1) =
      convertedSamples src srcFormat destFormat count ++
        convertSample srcFormat destFormat
          (load src (count * hmBytesPerSample srcFormat)
            (hmBytesPerSample srcFormat)) := by
  simp [convertedSamples, List.range_succ]

theorem length_convertedSamples
    (different : srcFormat ≠ destFormat)
    (count : Nat) :
    (convertedSamples src srcFormat destFormat count).length =
      count * hmBytesPerSample destFormat := by
  rw [convertedSamples, length_flatMap_of_length_eq fun index =>
    length_convertSample different _, List.length_range]

/-- Only the part of the source block that holds the samples matters. -/
theorem convertedSamples_load
    {length count : Nat}
    (inside : count * hmBytesPerSample srcFormat ≤ length) :
    convertedSamples (load src 0 length) srcFormat destFormat count =
      convertedSamples src srcFormat destFormat count := by
  induction count with
  | zero => simp [convertedSamples]
  | succ count inductionHypothesis =>
      rw [Nat.succ_mul] at inside
      rw [convertedSamples_succ, convertedSamples_succ,
        inductionHypothesis (by omega), load_load inside, Nat.zero_add]

/-- The samples stored one by one are the converted samples stored at once. -/
theorem storeSamples_eq
    (different : srcFormat ≠ destFormat)
    {dest : List UInt8}
    {count : Nat}
    (fits : count * hmBytesPerSample destFormat ≤ dest.length) :
    storeSamples src srcFormat destFormat dest count =
      store dest 0 (convertedSamples src srcFormat destFormat count) := by
  induction count with
  | zero => simp [storeSamples, convertedSamples]
  | succ count inductionHypothesis =>
      rw [Nat.succ_mul] at fits
      have length := length_convertedSamples src srcFormat destFormat different
        count
      rw [storeSamples, inductionHypothesis (by omega), convertedSamples_succ,
        store_append (by rw [length, length_convertSample different]; omega),
        length, Nat.zero_add]

end Loop

/-! ## Outcomes by direction -/

/-- Widening writes four bytes for each sample begun. -/
theorem hmFormatConvert_widen
    (src dest : List UInt8)
    {nBytes : Nat}
    (bounded : 2 * nBytes + 4 ≤ 2 ^ 64) :
    hmFormatConvert src .s16le .f32le dest nBytes =
      some
        { dest := storeSamples src .s16le .f32le dest ((nBytes + 1) / 2)
          nBytesWritten := (nBytes + 1) / 2 * 4
          reads := sampleAccesses src.length .s16le ((nBytes + 1) / 2)
          writes := sampleAccesses dest.length .f32le ((nBytes + 1) / 2) } := by
  have ratio :
      nBytes * (hmBytesPerSample .f32le / hmBytesPerSample .s16le) % 2 ^ 64 =
        2 * nBytes := by
    simp only [hmBytesPerSample]
    omega
  have count : rounds .f32le (2 * nBytes) = (nBytes + 1) / 2 := by
    simp only [rounds, hmBytesPerSample]
    omega
  have ran := convertLoop_eq src .s16le .f32le dest (2 * nBytes)
    (by simpa [hmBytesPerSample] using bounded) (2 * nBytes + 1) 0
    (Nat.zero_le _) (by omega)
  simp only [hmFormatConvert, ratio, reduceCtorEq, if_false]
  rw [count] at ran
  show (convertLoop src .s16le .f32le (2 * nBytes) (2 * nBytes + 1)
      (convertState src .s16le .f32le dest 0)).map _ = _
  rw [ran]
  rfl

/-- Widening whole samples leaves the converted samples at the front of a block that
has room for them. -/
theorem hmFormatConvert_widen_samples
    {src dest : List UInt8}
    {nBytes : Nat}
    (even : nBytes % 2 = 0)
    (bounded : 2 * nBytes + 4 ≤ 2 ^ 64)
    (room : 2 * nBytes ≤ dest.length) :
    ∃ conversion,
      hmFormatConvert src .s16le .f32le dest nBytes = some conversion ∧
        conversion.nBytesWritten = 2 * nBytes ∧
          conversion.dest.take (2 * nBytes) =
            convertedSamples src .s16le .f32le (nBytes / 2) := by
  have count : (nBytes + 1) / 2 = nBytes / 2 := by omega
  have length :
      (convertedSamples src .s16le .f32le (nBytes / 2)).length =
        2 * nBytes := by
    rw [length_convertedSamples src .s16le .f32le (by decide)]
    simp only [hmBytesPerSample]
    omega
  refine ⟨_, hmFormatConvert_widen src dest bounded, ?_, ?_⟩
  · dsimp only
    omega
  · rw [count, ← load_zero, ← length]
    dsimp only
    rw [storeSamples_eq src .s16le .f32le (by decide) (by
      simp only [hmBytesPerSample]
      omega)]
    apply load_store_same
    omega

/-- Narrowing writes nothing: the ratio of the sample sizes is truncated to
zero. -/
theorem hmFormatConvert_narrow
    (src dest : List UInt8)
    (nBytes : Nat) :
    hmFormatConvert src .f32le .s16le dest nBytes =
      some { dest, nBytesWritten := 0, reads := [], writes := [] } := by
  simp [hmFormatConvert, hmBytesPerSample, convertLoop]

theorem hmFormatConvert_same
    (src dest : List UInt8)
    (format : HmFormatType)
    (nBytes : Nat) :
    hmFormatConvert src format format dest nBytes =
      some
        { dest := store dest 0 (load src 0 nBytes)
          nBytesWritten := nBytes
          reads := [{ blockSize := src.length, start := 0, length := nBytes }]
          writes :=
            [{ blockSize := dest.length, start := 0, length := nBytes }] } := by
  simp [hmFormatConvert]

/-! ## Predicted counts -/

theorem hmFormatConvertBytesAvailable_same
    (format : HmFormatType)
    (nBytes : Nat) :
    hmFormatConvertBytesAvailable format format nBytes =
      if roundToPrecision 24 nBytes < 2 ^ 64 then roundToPrecision 24 nBytes
      else 0 := by
  have rate : hmBytesPerSample format / hmBytesPerSample format = 1 := by
    cases format <;> rfl
  have exactProduct :
      roundToPrecision 24 (roundToPrecision 24 nBytes) =
        roundToPrecision 24 nBytes :=
    (roundToPrecision_eq_self_iff (by omega) _).mpr
      (representable_roundToPrecision (by omega) nBytes)
  simp only [hmFormatConvertBytesAvailable, rate, Nat.mul_one, exactProduct]

theorem hmFormatConvertBytesAvailable_widen (nBytes : Nat) :
    hmFormatConvertBytesAvailable .s16le .f32le nBytes =
      if 2 * roundToPrecision 24 nBytes < 2 ^ 64 then
        2 * roundToPrecision 24 nBytes
      else 0 := by
  have exactProduct :
      roundToPrecision 24 (2 * roundToPrecision 24 nBytes) =
        2 * roundToPrecision 24 nBytes :=
    (roundToPrecision_eq_self_iff (by omega) _).mpr
      (representable_roundToPrecision (by omega) nBytes).two_mul
  simp only [hmFormatConvertBytesAvailable, hmBytesPerSample,
    Nat.reduceDiv, Nat.mul_comm _ 2, exactProduct]

/-- Represented counts are predicted exactly. -/
theorem hmFormatConvertBytesAvailable_widen_of_representable
    {nBytes : Nat}
    (representable : Representable 24 nBytes)
    (bounded : nBytes < 2 ^ 63) :
    hmFormatConvertBytesAvailable .s16le .f32le nBytes = 2 * nBytes := by
  rw [hmFormatConvertBytesAvailable_widen,
    (roundToPrecision_eq_self_iff (by omega) nBytes).mpr representable,
    if_pos (by omega)]

@[simp] theorem hmFormatConvertBytesAvailable_narrow (nBytes : Nat) :
    hmFormatConvertBytesAvailable .f32le .s16le nBytes = 0 := by
  simp [hmFormatConvertBytesAvailable, hmBytesPerSample, roundToPrecision,
    divNearestEven]

/-- The conversion of `n_bytes` bytes keeps to the predicted length: it returns
and writes exactly that many bytes, this is the length of the whole samples in
the destination format, and no more than `n_bytes` source bytes are read. -/
structure KeepsPrediction
    (srcFormat destFormat : HmFormatType)
    (nBytes : Nat)
    (conversion : FormatConversion) : Prop where
  returned :
    conversion.nBytesWritten =
      hmFormatConvertBytesAvailable srcFormat destFormat nBytes
  written :
    (conversion.writes.map (·.length)).sum =
      hmFormatConvertBytesAvailable srcFormat destFormat nBytes
  writesInside :
    ∀ range ∈ conversion.writes,
      range.start + range.length ≤
        hmFormatConvertBytesAvailable srcFormat destFormat nBytes
  wholeSamples :
    srcFormat ≠ destFormat →
      hmFormatConvertBytesAvailable srcFormat destFormat nBytes =
        nBytes / hmBytesPerSample srcFormat * hmBytesPerSample destFormat
  readsInside :
    ∀ range ∈ conversion.reads, range.start + range.length ≤ nBytes

/-- The byte counts for which a conversion keeps to its prediction: those that
single precision represents, an even number of bytes when widening, and less
than one sample when narrowing. -/
def Predictable
    (srcFormat destFormat : HmFormatType)
    (nBytes : Nat) : Prop :=
  match srcFormat, destFormat with
  | .s16le, .s16le | .f32le, .f32le => Representable 24 nBytes
  | .s16le, .f32le =>
      nBytes % 2 = 0 ∧ Representable 24 nBytes ∧ nBytes < 2 ^ 63
  | .f32le, .s16le => nBytes < 4

section Prediction

variable (src dest : List UInt8) {nBytes : Nat}

theorem keepsPrediction_same_iff
    (format : HmFormatType)
    (bounded : nBytes < 2 ^ 64) :
    (∃ conversion,
        hmFormatConvert src format format dest nBytes = some conversion ∧
          KeepsPrediction format format nBytes conversion) ↔
      Representable 24 nBytes := by
  rw [← roundToPrecision_eq_self_iff (by omega), hmFormatConvert_same]
  constructor
  · rintro ⟨_, returns, keeps⟩
    cases returns
    have returned := keeps.returned
    rw [hmFormatConvertBytesAvailable_same] at returned
    split_ifs at returned with representable
    · exact returned.symm
    · -- zero is never rounded
      subst returned
      exact absurd (by decide) representable
  · intro exactCount
    have available :
        hmFormatConvertBytesAvailable format format nBytes = nBytes := by
      rw [hmFormatConvertBytesAvailable_same, exactCount, if_pos bounded]
    refine ⟨_, rfl, ?_⟩
    exact
      { returned := available.symm
        written := by simp [available]
        writesInside := by simp [available]
        wholeSamples := fun different => absurd rfl different
        readsInside := by simp }

theorem keepsPrediction_narrow_iff :
    (∃ conversion,
        hmFormatConvert src .f32le .s16le dest nBytes = some conversion ∧
          KeepsPrediction .f32le .s16le nBytes conversion) ↔
      nBytes < 4 := by
  rw [hmFormatConvert_narrow]
  constructor
  · rintro ⟨_, _, keeps⟩
    have wholeSamples := keeps.wholeSamples (by decide)
    simp only [hmFormatConvertBytesAvailable_narrow, hmBytesPerSample]
      at wholeSamples
    omega
  · intro small
    refine ⟨_, rfl, ?_⟩
    exact
      { returned := by simp
        written := by simp
        writesInside := by simp
        wholeSamples := fun _ => by
          simp only [hmFormatConvertBytesAvailable_narrow, hmBytesPerSample]
          omega
        readsInside := by simp }

/-- Widening an even number of bytes. -/
theorem keepsPrediction_widen
    (even : nBytes % 2 = 0)
    (representable : Representable 24 nBytes)
    (bounded : nBytes < 2 ^ 63) :
    ∃ conversion,
      hmFormatConvert src .s16le .f32le dest nBytes = some conversion ∧
        KeepsPrediction .s16le .f32le nBytes conversion := by
  have available :=
    hmFormatConvertBytesAvailable_widen_of_representable representable bounded
  have half : (nBytes + 1) / 2 = nBytes / 2 := by omega
  refine ⟨_, hmFormatConvert_widen src dest (by omega), ?_⟩
  rw [half]
  have writes := @sampleAccesses_end_le dest.length (nBytes / 2) .f32le
  have reads := @sampleAccesses_end_le src.length (nBytes / 2) .s16le
  exact
    { returned := by
        rw [available]
        show nBytes / 2 * 4 = 2 * nBytes
        omega
      written := by
        rw [available, sum_sampleAccesses]
        simp only [hmBytesPerSample]
        omega
      writesInside := by
        intro range member
        have := writes range member
        rw [available]
        simp only [hmBytesPerSample] at this
        omega
      wholeSamples := fun _ => by
        rw [available]
        simp only [hmBytesPerSample]
        omega
      readsInside := by
        intro range member
        have := reads range member
        simp only [hmBytesPerSample] at this
        omega }

/-- A widening conversion that returns has written at least twice the source
count, reduced modulo `2 ^ 64`. -/
theorem hmFormatConvert_widen_some
    {conversion : FormatConversion}
    (returns :
      hmFormatConvert src .s16le .f32le dest nBytes = some conversion) :
    nBytes * 2 % 2 ^ 64 ≤ conversion.nBytesWritten ∧
      conversion.nBytesWritten < 2 ^ 64 := by
  simp only [hmFormatConvert, reduceCtorEq, if_false, hmBytesPerSample,
    Nat.reduceDiv] at returns
  obtain ⟨final, ran, rfl⟩ := Option.map_eq_some_iff.mp returns
  exact convertLoop_some src .s16le .f32le (by simp) ran

theorem keepsPrediction_widen_iff (bounded : nBytes < 2 ^ 64) :
    (∃ conversion,
        hmFormatConvert src .s16le .f32le dest nBytes = some conversion ∧
          KeepsPrediction .s16le .f32le nBytes conversion) ↔
      nBytes % 2 = 0 ∧ Representable 24 nBytes ∧ nBytes < 2 ^ 63 := by
  constructor
  · rintro ⟨conversion, returns, keeps⟩
    obtain ⟨enough, below⟩ := hmFormatConvert_widen_some src dest returns
    have returned := keeps.returned
    have wholeSamples := keeps.wholeSamples (by decide)
    simp only [hmBytesPerSample] at wholeSamples
    have even : nBytes % 2 = 0 := by omega
    have small : nBytes < 2 ^ 63 := by omega
    refine ⟨even, ?_, small⟩
    rw [← roundToPrecision_eq_self_iff (by omega)]
    rw [hmFormatConvertBytesAvailable_widen] at wholeSamples
    split_ifs at wholeSamples with representable
    · omega
    · have zero : nBytes = 0 := by omega
      subst zero
      exact absurd (by decide) representable
  · rintro ⟨even, representable, small⟩
    exact keepsPrediction_widen src dest even representable small

end Prediction

/-- A conversion keeps to its predicted length exactly for the predictable byte
counts. -/
theorem hmFormatConvert_keepsPrediction_iff
    (src dest : List UInt8)
    (srcFormat destFormat : HmFormatType)
    (nBytes : Nat)
    (bounded : nBytes < 2 ^ 64) :
    (∃ conversion,
        hmFormatConvert src srcFormat destFormat dest nBytes =
            some conversion ∧
          KeepsPrediction srcFormat destFormat nBytes conversion) ↔
      Predictable srcFormat destFormat nBytes := by
  cases srcFormat <;> cases destFormat
  · exact keepsPrediction_same_iff src dest .s16le bounded
  · exact keepsPrediction_widen_iff src dest bounded
  · exact keepsPrediction_narrow_iff src dest
  · exact keepsPrediction_same_iff src dest .f32le bounded

/-- Widening three samples. -/
theorem hmFormatConvert_keepsPrediction_iff_six :
    (∃ conversion,
        hmFormatConvert [0, 64, 0, 128, 255, 127] .s16le .f32le
            (List.replicate 12 0) 6 =
            some conversion ∧
          KeepsPrediction .s16le .f32le 6 conversion) ↔
      Predictable .s16le .f32le 6 :=
  hmFormatConvert_keepsPrediction_iff [0, 64, 0, 128, 255, 127]
    (List.replicate 12 0) .s16le .f32le 6 (by omega)

/-- One float sample is predicted and converted to no bytes at all, and three
bytes of 16-bit samples are converted to more bytes than predicted. -/
theorem hmFormatConvert_misses_prediction :
    (¬∃ conversion,
        hmFormatConvert [0, 0, 0, 63] .f32le .s16le [0, 0] 4 =
            some conversion ∧
          KeepsPrediction .f32le .s16le 4 conversion) ∧
      ¬∃ conversion,
        hmFormatConvert [0, 64, 0] .s16le .f32le (List.replicate 6 0) 3 =
            some conversion ∧
          KeepsPrediction .s16le .f32le 3 conversion := by
  constructor
  · rw [keepsPrediction_narrow_iff]
    omega
  · rw [keepsPrediction_widen_iff _ _ (by omega)]
    omega

end Hiemal
