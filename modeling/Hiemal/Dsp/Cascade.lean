import Hiemal.Dsp.Convolution
import Hiemal.Foundation.FilterSeries

/-!
# Filter ops behind one another

A block that is run through two FIR filter ops comes out as from a single one, whose
coefficients are the convolution of theirs. So two filters can be replaced by one, and
their order does not matter.
-/

namespace Hiemal

open Foundation

variable {R : Type} [CommRing R]

section Block

variable {b c block : List R}
variable (inputType middleType outputType : HmFormatType)

/-- A block run through two filter ops. -/
def runTwice (b c block : List R) : List R :=
  let first :=
    (hmDspOpRun (firFilterDspOp b inputType middleType) () block
      (8 * block.length)).1.cells
  (hmDspOpRun (firFilterDspOp c middleType outputType) () first
    (8 * first.length)).1.cells

/-- Short filters run one behind the other filter twice. -/
theorem runTwice_eq
    (order : 1 ≤ b.length)
    (otherOrder : 1 ≤ c.length)
    (bounded : b.length < 2 ^ 29)
    (otherBounded : c.length < 2 ^ 29)
    (fits : 8 * block.length < 2 ^ 32) :
    runTwice inputType middleType outputType b c block =
      filterFrom c [] (filterFrom b [] block) := by
  have first :
      (hmDspOpRun (firFilterDspOp b inputType middleType) () block
          (8 * block.length)).1.cells =
        filterFrom b [] block := by
    rw [hmDspOpRun_firFilter order inputType middleType fits,
      take_effectiveOrder order bounded]
  rw [runTwice, first, hmDspOpRun_firFilter otherOrder middleType outputType,
    take_effectiveOrder otherOrder otherBounded]
  rw [length_filterFrom]
  exact fits

/-- **Two filters make one.** Running a block through two filter ops gives the output
of the op with the convolution of their coefficients, and that of the two in the other
order. -/
theorem firFilters_fuse
    (order : 1 ≤ b.length)
    (otherOrder : 1 ≤ c.length)
    (bounded : b.length + c.length ≤ 2 ^ 29)
    (fits : 8 * block.length < 2 ^ 32) :
    runTwice inputType middleType outputType b c block =
        (hmDspOpRun (firFilterDspOp (cascade b c) inputType outputType) () block
          (8 * block.length)).1.cells ∧
      runTwice inputType middleType outputType b c block =
        runTwice inputType middleType outputType c b block := by
  have fusedOrder : 1 ≤ (cascade b c).length := by
    rw [length_cascade]
    omega
  have fusedBounded : (cascade b c).length < 2 ^ 29 := by
    rw [length_cascade]
    omega
  have twice :=
    runTwice_eq inputType middleType outputType order otherOrder (by omega) (by omega)
      fits
  have swapped :=
    runTwice_eq inputType middleType outputType otherOrder order (by omega) (by omega)
      fits
  constructor
  · rw [twice, hmDspOpRun_firFilter fusedOrder inputType outputType fits,
      take_effectiveOrder fusedOrder fusedBounded, filterFrom_cascade]
  · rw [twice, swapped, filterFrom_comm]

/-- A difference and a sum of neighbours make a difference of the next but one. -/
theorem firFilters_fuse_neighbours :
    runTwice .f32le .f32le .f32le [(1 : ℤ), -1] [1, 1] [4, 7, 1, 9] =
        (hmDspOpRun (firFilterDspOp (cascade [(1 : ℤ), -1] [1, 1]) .f32le .f32le) ()
          [4, 7, 1, 9] (8 * 4)).1.cells ∧
      runTwice .f32le .f32le .f32le [(1 : ℤ), -1] [1, 1] [4, 7, 1, 9] =
        runTwice .f32le .f32le .f32le [(1 : ℤ), 1] [1, -1] [4, 7, 1, 9] :=
  @firFilters_fuse ℤ _ [1, -1] [1, 1] [4, 7, 1, 9] .f32le .f32le .f32le (by decide)
    (by decide) (by decide) (by decide)

end Block

end Hiemal
