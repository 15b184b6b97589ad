import Hiemal.Buffer.Lock
import Hiemal.Common.Unpacking
import Hiemal.Foundation.Truncation
import Mathlib.Data.Rat.Floor
import Mathlib.Tactic.Ring

/-!
# The sine source

Translation of `src_sin_impl` of `core/dsp.c`, with rational numbers for doubles.
The sine and the bytes of a double are parameters, and so is what `malloc` returns.
The arguments of the sine are part of the outcome of a call.

The index of the next sample is kept in an `unsigned int` of the caller, which a
call advances by the step times the number of samples. A call is `none` where it is
undefined: it reads through a pointer that was not set, or converts a double whose
whole part is no `unsigned int`.
-/

namespace Hiemal

open Foundation

/-- The address of a number of the caller. -/
abbrev CellAddress := Nat

/-- The numbers of the caller. -/
structure SinMemory where
  double : CellAddress → ℚ
  unsigned : CellAddress → UInt32

/-- What the pointers of `src_sin_impl` point to. -/
inductive SinPointer
  /-- `&_a`. -/
  | a
  /-- `&_ph`. -/
  | ph
  /-- A pointer of the caller's table. -/
  | caller (address : CellAddress)
  /-- No value was assigned yet. -/
  | indeterminate
  deriving DecidableEq

/-- The double behind a pointer. -/
def SinMemory.readDouble (memory : SinMemory) : SinPointer → Option ℚ
  | .a => some 1
  | .ph => some 0
  | .caller address => some (memory.double address)
  | .indeterminate => none

/-- The store of a number. -/
def SinMemory.setUnsigned
    (memory : SinMemory)
    (address : CellAddress)
    (value : UInt32) : SinMemory :=
  { memory with unsigned := Function.update memory.unsigned address value }

/-- The outcome of a call. -/
structure SinCall where
  memory : SinMemory
  buf : Buffer
  /-- What the sine was evaluated at, in order. -/
  arguments : List ℚ
  /-- The C return value. -/
  rc : Int

/-- The conversion of a double to an `unsigned int`. -/
def doubleToUnsigned (value : ℚ) : Option UInt32 :=
  (truncateUnsigned 32 value).map UInt32.ofNat

/-- `(*dt_freq)*(i + *arg) + (*ph)`, in the rounds of the loop. -/
def sinArguments (dtFreq ph : ℚ) (arg : UInt32) (nSamples : Nat) : List ℚ :=
  (List.range nSamples).map fun i =>
    dtFreq * ((UInt32.ofNat i + arg).toNat : ℚ) + ph

/-- `"(a;ph;)arg;dt_freq;"`. -/
def sinFormat : List Char :=
  "(a;ph;)arg;dt_freq;".toList

/-- The pointers `a`, `ph`, `arg` and `dt_freq`, before the table is unpacked. -/
def sinPointers : ArgAddress → SinPointer
  | 0 => .a
  | 1 => .ph
  | _ => .indeterminate

/-- `src_sin_impl`. -/
def srcSinImpl
    (sin : ℚ → ℚ)
    (encode : ℚ → List UInt8)
    (kwargs : Kwargs CellAddress)
    (nBytes : Nat)
    (allocated : List UInt8)
    (memory : SinMemory)
    (buf : Buffer) : Option SinCall := do
  let (pointers, _) ←
    kwargsUnpack (kwargs.map .caller) (sinFormat.length + 1) sinFormat
      [0, 1, 2, 3] sinPointers
  let a ← memory.readDouble (pointers 0)
  let ph ← memory.readDouble (pointers 1)
  let .caller arg := pointers 2 | none
  let dtFreq ← memory.readDouble (pointers 3)
  let nSamples := nBytes / 8
  let arguments := sinArguments dtFreq ph (memory.unsigned arg) nSamples
  let newSamples :=
    store allocated 0 (arguments.flatMap fun argument => encode (a * sin argument))
  let written ← bufferWrite buf newSamples nBytes
  let next ←
    doubleToUnsigned ((memory.unsigned arg).toNat + dtFreq * nSamples)
  return {
    memory := memory.setUnsigned arg next
    buf := written.buf
    arguments := arguments
    rc := toSigned 32 nBytes }

/-- Two calls in a row, for whole samples: all arguments of the sine, and the memory
at the end. -/
def srcSinTwice
    (sin : ℚ → ℚ)
    (encode : ℚ → List UInt8)
    (kwargs : Kwargs CellAddress)
    (n1 n2 : Nat)
    (allocated1 allocated2 : List UInt8)
    (memory : SinMemory)
    (buf : Buffer) : Option (List ℚ × SinMemory) := do
  let first ← srcSinImpl sin encode kwargs (8 * n1) allocated1 memory buf
  let second ←
    srcSinImpl sin encode kwargs (8 * n2) allocated2 first.memory first.buf
  return (first.arguments ++ second.arguments, second.memory)

/-! ## Stores, conversions and arguments -/

section Stores

variable (memory : SinMemory) (address : CellAddress) (value : UInt32)

@[simp] theorem setUnsigned_double :
    (memory.setUnsigned address value).double = memory.double :=
  rfl

@[simp] theorem setUnsigned_unsigned :
    (memory.setUnsigned address value).unsigned address = value :=
  Function.update_self ..

@[simp] theorem setUnsigned_setUnsigned (other : UInt32) :
    (memory.setUnsigned address value).setUnsigned address other =
      memory.setUnsigned address other := by
  simp [SinMemory.setUnsigned]

end Stores

theorem doubleToUnsigned_eq_some_iff
    {value : ℚ}
    {n : UInt32} :
    doubleToUnsigned value = some n ↔ TruncatesTo value n.toNat := by
  rw [doubleToUnsigned, Option.map_eq_some_iff]
  constructor
  · rintro ⟨count, converts, rfl⟩
    obtain ⟨bounded, truncates⟩ := truncateUnsigned_eq_some_iff.mp converts
    rw [UInt32.toNat_ofNat_of_lt' bounded]
    exact truncates
  · intro truncates
    exact ⟨n.toNat, truncateUnsigned_eq_some_iff.mpr ⟨n.toNat_lt, truncates⟩,
      UInt32.ofNat_toNat⟩

/-- An index that does not move is converted to itself. -/
theorem doubleToUnsigned_toNat (n : UInt32) :
    doubleToUnsigned (n.toNat : ℚ) = some n :=
  doubleToUnsigned_eq_some_iff.mpr (truncatesTo_natCast _)

@[simp] theorem sinArguments_zero (dtFreq ph : ℚ) (arg : UInt32) :
    sinArguments dtFreq ph arg 0 = [] :=
  rfl

/-- The arguments of a long call go on at the index that the first samples reach. -/
theorem sinArguments_add
    (dtFreq ph : ℚ)
    (arg : UInt32)
    (n1 n2 : Nat) :
    sinArguments dtFreq ph arg (n1 + n2) =
      sinArguments dtFreq ph arg n1 ++
        sinArguments dtFreq ph (UInt32.ofNat n1 + arg) n2 := by
  simp only [sinArguments, List.range_add, List.map_append, List.map_map]
  congr 1
  apply List.map_congr_left
  intro i _
  rw [Function.comp_apply, UInt32.ofNat_add, UInt32.add_comm (UInt32.ofNat n1),
    UInt32.add_assoc]

/-- Two indices give the same arguments exactly if there is no sample, no step, or
no difference. -/
theorem sinArguments_eq_iff
    {dtFreq ph : ℚ}
    {arg other : UInt32}
    {nSamples : Nat} :
    sinArguments dtFreq ph arg nSamples = sinArguments dtFreq ph other nSamples ↔
      nSamples = 0 ∨ dtFreq = 0 ∨ arg = other := by
  constructor
  · intro same
    cases nSamples with
    | zero => exact Or.inl rfl
    | succ count =>
        right
        have first := congrArg List.head? same
        simp only [sinArguments, List.range_succ_eq_map, List.map_cons,
          List.head?_cons, Option.some_inj, add_left_inj, mul_eq_mul_left_iff,
          Nat.cast_inj] at first
        rw [UInt32.toNat_inj, UInt32.add_right_inj] at first
        exact first.symm
  · rintro (none | still | equal)
    · rw [none, sinArguments_zero, sinArguments_zero]
    · simp only [sinArguments, still, zero_mul]
    · rw [equal]

/-! ## One call -/

/-- `*a`, after the table is unpacked. -/
def SinMemory.amplitude (memory : SinMemory) (kwargs : Kwargs CellAddress) : ℚ :=
  ((kwargs.lookup "a".toList).map memory.double).getD 1

/-- `*ph`, after the table is unpacked. -/
def SinMemory.phase (memory : SinMemory) (kwargs : Kwargs CellAddress) : ℚ :=
  ((kwargs.lookup "ph".toList).map memory.double).getD 0

section Call

variable {sin : ℚ → ℚ} {encode : ℚ → List UInt8} {kwargs : Kwargs CellAddress}
  {arg dtFreq : CellAddress} {memory : SinMemory} {buf : Buffer}

@[simp] theorem phase_setUnsigned
    (address : CellAddress)
    (value : UInt32) :
    (memory.setUnsigned address value).phase kwargs = memory.phase kwargs :=
  rfl

/-- The pointer of an optional argument is set, or left at its default. -/
theorem kwargsUnpack_sin
    (argGiven : kwargs.lookup "arg".toList = some arg)
    (dtFreqGiven : kwargs.lookup "dt_freq".toList = some dtFreq) :
    ∃ pointers,
      kwargsUnpack (kwargs.map .caller) (sinFormat.length + 1) sinFormat
          [0, 1, 2, 3] sinPointers = some (pointers, 0) ∧
        pointers 0 = ((kwargs.lookup "a".toList).map .caller).getD .a ∧
        pointers 1 = ((kwargs.lookup "ph".toList).map .caller).getD .ph ∧
        pointers 2 = .caller arg ∧ pointers 3 = .caller dtFreq := by
  have keys :
      formatKeys sinFormat =
        [⟨"a".toList, true⟩, ⟨"ph".toList, true⟩, ⟨"arg".toList, false⟩,
          ⟨"dt_freq".toList, false⟩] := by
    decide
  have identifier : ∃ char ∈ sinFormat, isvarchar char :=
    ⟨'a', by decide, by decide⟩
  have given {name : List Char} {address : CellAddress}
      (found : kwargs.lookup name = some address) :
      ¬(kwargs.map SinPointer.caller).missing ⟨name, false⟩ := by
    rw [Kwargs.missing_iff, ← Kwargs.lookup_eq_none_iff, Kwargs.lookup_map, found]
    simp
  have optional (name : List Char) :
      ¬(kwargs.map SinPointer.caller).missing ⟨name, true⟩ := by
    simp [Kwargs.missing]
  have unpacked :=
    @kwargsUnpack_eq _ (kwargs.map SinPointer.caller) _ identifier _
      (Nat.lt_succ_self _) [0, 1, 2, 3] sinPointers
  rw [keys, unpackKeys_cons (by decide) (by decide), if_neg (optional _),
    unpackKeys_cons (by decide) (by decide), if_neg (optional _),
    unpackKeys_cons (by decide) (by decide), if_neg (given argGiven),
    unpackKeys_cons (by decide) (by decide), if_neg (given dtFreqGiven),
    unpackKeys] at unpacked
  refine ⟨_, unpacked, ?_⟩
  simp only [Kwargs.serve, Kwargs.lookup_map, argGiven, dtFreqGiven]
  simp [sinPointers]

/-- A call on a buffer whose mutex is free is undefined only through the conversion
of the next index. -/
theorem exists_srcSinImpl
    (argGiven : kwargs.lookup "arg".toList = some arg)
    (dtFreqGiven : kwargs.lookup "dt_freq".toList = some dtFreq)
    (free : buf.m.locked = false)
    (n : Nat)
    (allocated : List UInt8) :
    ∃ written : Buffer, written.m.locked = false ∧
      srcSinImpl sin encode kwargs (8 * n) allocated memory buf =
        (doubleToUnsigned
            ((memory.unsigned arg).toNat + memory.double dtFreq * n)).map
          fun next =>
            { memory := memory.setUnsigned arg next
              buf := written
              arguments :=
                sinArguments (memory.double dtFreq) (memory.phase kwargs)
                  (memory.unsigned arg) n
              rc := toSigned 32 (8 * n : Nat) } := by
  obtain ⟨pointers, unpacked, atA, atPh, atArg, atDtFreq⟩ :=
    kwargsUnpack_sin argGiven dtFreqGiven
  have readA : memory.readDouble (pointers 0) = some (memory.amplitude kwargs) := by
    rw [atA, SinMemory.amplitude]
    cases kwargs.lookup "a".toList <;> rfl
  have readPh : memory.readDouble (pointers 1) = some (memory.phase kwargs) := by
    rw [atPh, SinMemory.phase]
    cases kwargs.lookup "ph".toList <;> rfl
  have readDtFreq :
      memory.readDouble (pointers 3) = some (memory.double dtFreq) := by
    rw [atDtFreq]
    rfl
  have whole : 8 * n / 8 = n := Nat.mul_div_cancel_left n (by decide)
  obtain ⟨call, written, releases⟩ :=
    BufferIo.call_releases free
      (.write
        (store allocated 0
          ((sinArguments (memory.double dtFreq) (memory.phase kwargs)
            (memory.unsigned arg) n).flatMap fun argument =>
              encode (memory.amplitude kwargs * sin argument))) (8 * n))
  rw [BufferIo.call] at written
  refine ⟨call.buf, releases.locksOnce.free, ?_⟩
  simp only [srcSinImpl, unpacked, Option.bind_eq_bind, Option.bind_some, readA,
    readPh, atArg, readDtFreq, whole, written]
  cases doubleToUnsigned
    ((memory.unsigned arg).toNat + memory.double dtFreq * n) <;> rfl

end Call

/-! ## Two calls and one -/

section Continuity

variable {sin : ℚ → ℚ} {encode : ℚ → List UInt8} {kwargs : Kwargs CellAddress}
  {arg dtFreq : CellAddress} {memory : SinMemory} {buf : Buffer}
  {n1 n2 : Nat} {allocated1 allocated2 allocated : List UInt8}

/-- Two calls evaluate the sine at the same arguments as one call for as many
samples, and leave the same memory, with the index of the next sample in it. -/
def PhaseContinuous
    (sin : ℚ → ℚ)
    (encode : ℚ → List UInt8)
    (kwargs : Kwargs CellAddress)
    (n1 n2 : Nat)
    (allocated1 allocated2 allocated : List UInt8)
    (memory : SinMemory)
    (buf : Buffer) : Prop :=
  ∃ call,
    srcSinImpl sin encode kwargs (8 * (n1 + n2)) allocated memory buf =
        some call ∧
      srcSinTwice sin encode kwargs n1 n2 allocated1 allocated2 memory buf =
        some (call.arguments, call.memory)

/-- The long call ends at an index; and the second call has no samples, or there is
no step, or `arg + dt_freq * n1` truncates to the index at which the arguments of
the long call go on and the second call ends from there where the long one does. -/
def IndexContinues (dtFreq : ℚ) (arg n1 n2 : ℕ) : Prop :=
  ∃ last < 2 ^ 32, TruncatesTo (arg + dtFreq * (n1 + n2)) last ∧
    (n2 = 0 ∨ dtFreq = 0 ∨
      TruncatesTo (arg + dtFreq * n1) ((arg + n1) % 2 ^ 32) ∧
        TruncatesTo (((arg + n1) % 2 ^ 32 : ℕ) + dtFreq * n2) last)

/-- The second call begins at the index that the first one leaves. -/
theorem srcSinTwice_eq
    (argGiven : kwargs.lookup "arg".toList = some arg)
    (dtFreqGiven : kwargs.lookup "dt_freq".toList = some dtFreq)
    (free : buf.m.locked = false) :
    srcSinTwice sin encode kwargs n1 n2 allocated1 allocated2 memory buf =
      (doubleToUnsigned
          ((memory.unsigned arg).toNat + memory.double dtFreq * n1)).bind
        fun middle =>
          (doubleToUnsigned (middle.toNat + memory.double dtFreq * n2)).map
            fun last =>
              (sinArguments (memory.double dtFreq) (memory.phase kwargs)
                  (memory.unsigned arg) n1 ++
                sinArguments (memory.double dtFreq) (memory.phase kwargs) middle
                  n2,
                memory.setUnsigned arg last) := by
  obtain ⟨_, freeAfter, first⟩ :=
    @exists_srcSinImpl sin encode _ _ _ memory _ argGiven dtFreqGiven free n1
      allocated1
  rw [srcSinTwice, first]
  cases doubleToUnsigned
    ((memory.unsigned arg).toNat + memory.double dtFreq * n1) with
  | none => rfl
  | some middle =>
      obtain ⟨_, _, second⟩ :=
        @exists_srcSinImpl sin encode _ _ _ (memory.setUnsigned arg middle) _
          argGiven dtFreqGiven freeAfter n2 allocated2
      simp only [setUnsigned_unsigned, setUnsigned_double,
        setUnsigned_setUnsigned, phase_setUnsigned] at second
      simp only [Option.map_some, Option.bind_eq_bind, Option.bind_some, second]
      cases doubleToUnsigned (middle.toNat + memory.double dtFreq * n2) <;> rfl

/-- Two calls agree with one exactly if the conversions are defined, the second call
begins where the arguments go on, and the last index is the same. -/
theorem phaseContinuous_iff_indices
    (argGiven : kwargs.lookup "arg".toList = some arg)
    (dtFreqGiven : kwargs.lookup "dt_freq".toList = some dtFreq)
    (free : buf.m.locked = false) :
    PhaseContinuous sin encode kwargs n1 n2 allocated1 allocated2 allocated memory
        buf ↔
      ∃ middle last,
        doubleToUnsigned
            ((memory.unsigned arg).toNat + memory.double dtFreq * n1) =
          some middle ∧
        doubleToUnsigned (middle.toNat + memory.double dtFreq * n2) = some last ∧
        doubleToUnsigned
            ((memory.unsigned arg).toNat +
              memory.double dtFreq * (n1 + n2 : ℕ)) =
          some last ∧
        (n2 = 0 ∨ memory.double dtFreq = 0 ∨
          middle = UInt32.ofNat n1 + memory.unsigned arg) := by
  obtain ⟨_, _, once⟩ :=
    @exists_srcSinImpl sin encode _ _ _ memory _ argGiven dtFreqGiven free
      (n1 + n2) allocated
  rw [PhaseContinuous, once, srcSinTwice_eq argGiven dtFreqGiven free]
  constructor
  · rintro ⟨call, single, twice⟩
    obtain ⟨last, atLast, rfl⟩ := Option.map_eq_some_iff.mp single
    obtain ⟨middle, atMiddle, second⟩ := Option.bind_eq_some_iff.mp twice
    obtain ⟨other, atOther, outcome⟩ := Option.map_eq_some_iff.mp second
    obtain ⟨arguments, memories⟩ := Prod.mk.inj outcome
    have same : other = last := by
      simpa using congrFun (congrArg SinMemory.unsigned memories) arg
    rw [sinArguments_add, List.append_cancel_left_eq, sinArguments_eq_iff]
      at arguments
    rw [same] at atOther
    exact ⟨middle, last, atMiddle, atOther, atLast, arguments⟩
  · rintro ⟨middle, last, atMiddle, atOther, atLast, continues⟩
    rw [atLast, atMiddle, Option.bind_some, atOther, Option.map_some,
      Option.map_some, sinArguments_eq_iff.mpr continues, ← sinArguments_add]
    exact ⟨_, rfl, rfl⟩

/-- The index at which the arguments of a long call go on. -/
theorem toNat_ofNat_add (n : Nat) (index : UInt32) :
    (UInt32.ofNat n + index).toNat = (index.toNat + n) % 2 ^ 32 := by
  rw [UInt32.toNat_add, UInt32.toNat_ofNat', Nat.mod_add_mod, Nat.add_comm]

/-- Two calls in a row continue each other exactly if the index does. -/
theorem srcSin_phaseContinuous_iff
    (argGiven : kwargs.lookup "arg".toList = some arg)
    (dtFreqGiven : kwargs.lookup "dt_freq".toList = some dtFreq)
    (free : buf.m.locked = false) :
    PhaseContinuous sin encode kwargs n1 n2 allocated1 allocated2 allocated memory
        buf ↔
      IndexContinues (memory.double dtFreq) (memory.unsigned arg).toNat n1 n2 := by
  rw [phaseContinuous_iff_indices argGiven dtFreqGiven free]
  constructor
  · rintro ⟨middle, last, atMiddle, atOther, atLast, continues⟩
    rw [doubleToUnsigned_eq_some_iff] at atMiddle atOther atLast
    rw [Nat.cast_add] at atLast
    refine ⟨last.toNat, last.toNat_lt, atLast, ?_⟩
    obtain none | still | rfl := continues
    · exact Or.inl none
    · exact Or.inr (Or.inl still)
    · rw [toNat_ofNat_add] at atMiddle atOther
      exact Or.inr (Or.inr ⟨atMiddle, atOther⟩)
  · rintro ⟨last, bounded, atLast, continues⟩
    have toNat_last : (UInt32.ofNat last).toNat = last :=
      UInt32.toNat_ofNat_of_lt' bounded
    have isLast : doubleToUnsigned
        ((memory.unsigned arg).toNat + memory.double dtFreq * (n1 + n2 : ℕ)) =
          some (UInt32.ofNat last) := by
      rw [doubleToUnsigned_eq_some_iff, toNat_last, Nat.cast_add]
      exact atLast
    obtain none | still | ⟨atMiddle, atOther⟩ := continues
    · refine ⟨UInt32.ofNat last, UInt32.ofNat last, ?_, ?_, isLast, Or.inl none⟩
      · rw [none, Nat.add_zero] at isLast
        exact isLast
      · rw [none, Nat.cast_zero, mul_zero, add_zero, doubleToUnsigned_toNat]
    · simp only [still, zero_mul, add_zero, doubleToUnsigned_toNat] at isLast ⊢
      exact ⟨_, _, rfl, rfl, rfl, Or.inr (Or.inl trivial)⟩
    · refine ⟨UInt32.ofNat n1 + memory.unsigned arg, UInt32.ofNat last, ?_, ?_,
        isLast, Or.inr (Or.inr rfl)⟩
      · rw [doubleToUnsigned_eq_some_iff, toNat_ofNat_add]
        exact atMiddle
      · rw [doubleToUnsigned_eq_some_iff, toNat_ofNat_add, toNat_last]
        exact atOther

/-- With a step of one every index continues, up to the largest one. -/
theorem indexContinues_one
    {arg : ℕ}
    (bounded : arg + (n1 + n2) < 2 ^ 32) :
    IndexContinues 1 arg n1 n2 := by
  have whole (n : ℕ) : TruncatesTo (n : ℚ) n := truncatesTo_natCast n
  refine ⟨arg + n1 + n2, by omega, ?_, Or.inr (Or.inr ?_)⟩
  · rw [one_mul, ← add_assoc]
    exact_mod_cast whole (arg + n1 + n2)
  · rw [Nat.mod_eq_of_lt (by omega), one_mul, one_mul]
    exact ⟨by exact_mod_cast whole (arg + n1),
      by exact_mod_cast whole (arg + n1 + n2)⟩

/-- With a step between zero and one none does, once there are samples in both
calls. -/
theorem not_indexContinues_fraction
    {dtFreq : ℚ}
    (positive : 0 < dtFreq)
    (fraction : dtFreq < 1)
    {arg : ℕ}
    (first : 0 < n1)
    (second : 0 < n2)
    (bounded : arg + n1 < 2 ^ 32) :
    ¬IndexContinues dtFreq arg n1 n2 := by
  rintro ⟨last, _, _, none | still | ⟨middle, _⟩⟩
  · omega
  · exact ne_of_gt positive still
  · rw [Nat.mod_eq_of_lt bounded] at middle
    have slower : dtFreq * n1 < n1 :=
      mul_lt_of_lt_one_left (by exact_mod_cast first) fraction
    obtain ⟨reached | ⟨zero, _⟩, _⟩ := middle
    · push_cast at reached
      linarith
    · omega

end Continuity

/-- A table with the arguments `arg` and `dt_freq`. -/
def stepKwargs : Kwargs CellAddress where
  argc := 2
  argNames := ["arg".toList, "dt_freq".toList]
  args := [0, 1]
  length_argNames := rfl
  length_args := rfl

/-- A memory with the given step, at the first index. -/
def stepMemory (step : ℚ) : SinMemory where
  double _ := step
  unsigned _ := 0

theorem srcSin_phaseContinuous_iff_one :
    PhaseContinuous id (fun _ => List.replicate 8 0) stepKwargs 3 2
      (List.replicate 24 0) (List.replicate 16 0) (List.replicate 40 0)
      (stepMemory 1) (bufferInit 40 .ring) :=
  (@srcSin_phaseContinuous_iff _ _ stepKwargs 0 1 _ _ _ _ _ _ _ rfl rfl rfl).mpr
    (indexContinues_one (by decide))

/-- A tenth of a step, as in the test of the source: five samples leave the index
where it was. -/
theorem not_srcSin_phaseContinuous_tenth :
    ¬PhaseContinuous id (fun _ => List.replicate 8 0) stepKwargs 5 5
      (List.replicate 40 0) (List.replicate 40 0) (List.replicate 80 0)
      (stepMemory (1 / 10)) (bufferInit 80 .ring) := by
  intro continuous
  rw [@phaseContinuous_iff_indices _ _ stepKwargs 0 1 _ _ _ _ _ _ _ rfl rfl rfl]
    at continuous
  obtain ⟨middle, last, atMiddle, _, _, none | still | same⟩ := continuous
  · cases none
  · exact absurd still (by norm_num [stepMemory])
  · rw [same, doubleToUnsigned_eq_some_iff, toNat_ofNat_add] at atMiddle
    have five : TruncatesTo (10⁻¹ * 5 : ℚ) 5 := by
      simpa [stepMemory] using atMiddle
    obtain ⟨reached | ⟨zero, _⟩, _⟩ := five
    · norm_num at reached
    · cases zero

end Hiemal
