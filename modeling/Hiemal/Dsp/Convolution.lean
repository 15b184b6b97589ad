import Hiemal.Dsp.Filter

/-!
# The FIR filter computes a convolution

A call of the op fills its output with the convolution of the coefficients and the
signal, whatever the length of the signal. The number of bytes that it returns is an
`int`.
-/

namespace Hiemal

open Foundation

variable {R : Type} [CommRing R]

/-- What a call of `DSP_OP(fir_filter)` leaves in `dest`, and what it returns. -/
structure FirFilterRun (R : Type) where
  dest : List R
  rc : Int

/-- `DSP_OP(fir_filter)`, on the memory of its arguments. -/
def firFilterDspImpl (b src dest : List R) (nBytes : Nat) : FirFilterRun R :=
  let nSamples := nBytes % 2 ^ 32 / 8
  { dest :=
      store dest 0
        (firLoop b (List.replicate b.length 0) (load src 0 nSamples))
    rc := toSigned 32 ((8 * nSamples : Nat) : Int) }

/-- What is stored is the output of the op. -/
theorem firFilterDspImpl_dest
    (b src dest : List R)
    (nBytes : Nat)
    (inputType outputType : HmFormatType) :
    (firFilterDspImpl b src dest nBytes).dest =
      store dest 0
        (hmDspOpRun (firFilterDspOp b inputType outputType) () src
          nBytes).1.cells :=
  rfl

section Call

variable {b x dest : List R} {nBytes : Nat}

/-- All coefficients of a short filter take part. -/
theorem take_effectiveOrder
    {α : Type}
    {b : List α}
    (order : 1 ≤ b.length)
    (bounded : b.length < 2 ^ 29) :
    b.take (effectiveOrder b.length) = b := by
  rw [effectiveOrder, Nat.mod_eq_of_lt bounded, Nat.max_eq_right order,
    List.take_length]

/-- A call with the byte count of a whole signal, and less than a sample more,
filters the signal. -/
theorem firFilterDspImpl_dest_eq
    (order : 1 ≤ b.length)
    (bounded : b.length < 2 ^ 29)
    (unsigned : nBytes < 2 ^ 32)
    (whole : nBytes / 8 = x.length) :
    (firFilterDspImpl b x dest nBytes).dest =
      store dest 0 (filterFrom b [] x) := by
  rw [firFilterDspImpl_dest b x dest nBytes .f32le .f32le,
    hmDspOpRun_firFilter_whole order .f32le .f32le unsigned whole,
    take_effectiveOrder order bounded]

/-- The output is the convolution. -/
theorem firFilterDspImpl_convolves
    (order : 1 ≤ b.length)
    (bounded : b.length < 2 ^ 29)
    (unsigned : nBytes < 2 ^ 32)
    (whole : nBytes / 8 = x.length)
    (room : x.length ≤ dest.length)
    {index : Nat}
    (inside : index < x.length) :
    (firFilterDspImpl b x dest nBytes).dest.getD index 0 =
      convolution b x index := by
  rw [firFilterDspImpl_dest_eq order bounded unsigned whole,
    ← getD_filterFrom_nil b x inside, List.getD_eq_getElem?_getD,
    List.getD_eq_getElem?_getD, getElem?_store (by simpa using room)]
  simp [inside]

/-- The number of bytes is returned exactly if an `int` holds it. -/
theorem firFilterDspImpl_rc_iff
    (unsigned : nBytes < 2 ^ 32)
    (whole : nBytes / 8 = x.length) :
    (firFilterDspImpl b x dest nBytes).rc = 8 * x.length ↔
      x.length < 2 ^ 28 := by
  have returned :=
    @toSigned_eq_natCast_iff 31 (8 * x.length) (8 * x.length) (by omega)
  simp only [firFilterDspImpl]
  rw [Nat.mod_eq_of_lt unsigned, whole]
  push_cast at returned ⊢
  rw [returned]
  omega

/-- A call of the op computes the convolution, and returns the number of bytes
exactly for the signals of less than `2 ^ 28` samples. -/
theorem firFilter_convolves_iff_fits
    (order : 1 ≤ b.length)
    (bounded : b.length < 2 ^ 29)
    (unsigned : nBytes < 2 ^ 32)
    (whole : nBytes / 8 = x.length)
    (room : x.length ≤ dest.length) :
    ((∀ index < x.length,
        (firFilterDspImpl b x dest nBytes).dest.getD index 0 =
          convolution b x index) ∧
      (firFilterDspImpl b x dest nBytes).rc = 8 * x.length) ↔
      x.length < 2 ^ 28 := by
  rw [firFilterDspImpl_rc_iff unsigned whole]
  apply and_iff_right
  intro index inside
  exact firFilterDspImpl_convolves order bounded unsigned whole room inside

end Call

/-- Six samples, with four bytes of another one behind them. -/
theorem firFilter_convolves_iff_fits_six :
    (firFilterDspImpl [(1 : ℤ), 3, 15] [1, 2, 3, 4, 5, 6] [0, 0, 0, 0, 0, 0]
        52).dest.getD 3 0 =
      convolution [(1 : ℤ), 3, 15] [1, 2, 3, 4, 5, 6] 3 ∧
      (firFilterDspImpl [(1 : ℤ), 3, 15] [1, 2, 3, 4, 5, 6] [0, 0, 0, 0, 0, 0]
        52).rc = 8 * 6 := by
  have convolves :=
    (@firFilter_convolves_iff_fits ℤ _ [1, 3, 15] [1, 2, 3, 4, 5, 6]
      [0, 0, 0, 0, 0, 0] 52 (by decide) (by decide) (by decide) rfl
      (by decide)).mpr (by decide)
  exact ⟨convolves.1 3 (by decide), convolves.2⟩

/-- The number of bytes of `2 ^ 28` samples is no `int`. -/
theorem not_firFilter_convolves_long :
    ¬∀ (b x dest : List ℤ) (nBytes : Nat),
      1 ≤ b.length → b.length < 2 ^ 29 → nBytes < 2 ^ 32 →
        nBytes / 8 = x.length → x.length ≤ dest.length →
          (∀ index < x.length,
            (firFilterDspImpl b x dest nBytes).dest.getD index 0 =
              convolution b x index) ∧
            (firFilterDspImpl b x dest nBytes).rc = 8 * x.length := by
  intro convolves
  have signal : (List.replicate (2 ^ 28) (0 : ℤ)).length = 2 ^ 28 :=
    List.length_replicate
  have whole : 2 ^ 31 / 8 = (List.replicate (2 ^ 28) (0 : ℤ)).length := by
    rw [signal]
    norm_num
  have returned :=
    (convolves [1] (List.replicate (2 ^ 28) 0) (List.replicate (2 ^ 28) 0)
      (2 ^ 31) (by decide) (by decide) (by decide) whole le_rfl).2
  rw [firFilterDspImpl_rc_iff (by decide) whole, signal] at returned
  exact absurd returned (by decide)

end Hiemal
