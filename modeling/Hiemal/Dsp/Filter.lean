import Hiemal.Foundation.CausalFilter
import Hiemal.Ops.Defs

/-!
# The FIR filter op

Translation of `core/ops/dsp/filter.c`, with the helpers `_buf_shift_up_64` of
`core/dsp.c` and `ddot` of `core/math.c`. Samples are taken from a commutative
ring, one 8-byte cell each. The filter's history is allocated and zeroed in each
call of the op, so that it does not reach from one block to the next.
-/

namespace Hiemal

open Foundation

variable {R : Type} [CommRing R]

/-- The copying loop of `_buf_shift_up_64`, from the last cell down. -/
def shiftUpLoop (nShift : Nat) : (count : Nat) → List R → List R
  | 0, buf => buf
  | count + 1, buf =>
      shiftUpLoop nShift count (buf.set (count + nShift) (buf.getD count 0))

/-- `_buf_shift_up_64`. -/
def bufShiftUp64 (buf : List R) (nBytes nShift : Nat) : List R :=
  let nItems := nBytes / 8
  if nItems ≤ nShift then store buf 0 (List.replicate nItems 0)
  else
    store (shiftUpLoop nShift (nItems - nShift) buf) 0 (List.replicate nShift 0)

def ddot (mode : Char) (a b : List R) (len : Nat) : R :=
  if mode = 'f' then
    (List.range len).foldl
      (fun res arrI => res + a.getD arrI 0 * b.getD (len - (arrI + 1)) 0) 0
  else
    (List.range len).foldl
      (fun res arrI => res + a.getD arrI 0 * b.getD arrI 0) 0

/-- One round of the loop of the filter: the history is shifted and takes the
new sample. The byte count of the shift is an `unsigned int`. -/
def pushSample (b firBuf : List R) (sample : R) : List R :=
  (bufShiftUp64 firBuf (8 * b.length % 2 ^ 32) 1).set 0 sample

/-- The loop of the filter. -/
def firLoop (b : List R) : (firBuf : List R) → (src : List R) → List R
  | _, [] => []
  | firBuf, sample :: src =>
      let firBuf := pushSample b firBuf sample
      ddot 'n' firBuf b b.length :: firLoop b firBuf src

@[simp] theorem length_firLoop (b firBuf src : List R) :
    (firLoop b firBuf src).length = src.length := by
  induction src generalizing firBuf with
  | nil => rfl
  | cons sample src inductionHypothesis =>
      rw [firLoop, List.length_cons, inductionHypothesis, List.length_cons]

/-- `DSP_OP(fir_filter)`. -/
def firFilterDspOp
    (b : List R)
    (inputType outputType : HmFormatType) : HmDspOp R 8 Unit where
  opFn src state :=
    ({ cells := firLoop b (List.replicate b.length 0) src
       bounded := Nat.le_of_eq (length_firLoop b _ src) }, state)
  inputType := inputType
  outputType := outputType

/-- Run a dsp op on whole blocks in turn, concatenating its outputs. -/
def runBlocks
    {α State : Type}
    {cellBytes : Nat}
    (op : HmDspOp α cellBytes State) :
    State → List (List α) → List α
  | _, [] => []
  | state, block :: blocks =>
      let (output, next) :=
        hmDspOpRun op state block (cellBytes * block.length)
      output.cells ++ runBlocks op next blocks

/-! ## The history -/

/-- The number of coefficients that take part: the byte count of the shift keeps
only the low 32 bits, and one cell is always set. -/
def effectiveOrder (bOrder : Nat) : Nat :=
  max 1 (bOrder % 2 ^ 29)

/-- The filter's buffer shows the past, most recent sample first, as far as the
shift reaches, and zeros behind it. -/
structure ShowsPast (b firBuf past : List R) : Prop where
  length_eq : firBuf.length = b.length
  getD_eq :
    ∀ index, firBuf.getD index 0 =
      if index < effectiveOrder b.length then past.getD index 0 else 0

@[simp] theorem length_shiftUpLoop
    (nShift count : Nat)
    (buf : List R) :
    (shiftUpLoop nShift count buf).length = buf.length := by
  induction count generalizing buf with
  | zero => rfl
  | succ count inductionHypothesis =>
      rw [shiftUpLoop, inductionHypothesis, List.length_set]

theorem getD_set
    {buf : List R}
    {position : Nat}
    (inside : position < buf.length)
    (sample : R)
    (index : Nat) :
    (buf.set position sample).getD index 0 =
      if position = index then sample else buf.getD index 0 := by
  simp only [List.getD_eq_getElem?_getD, List.getElem?_set, inside, if_true]
  split <;> rfl

/-- The copying loop moves the first cells up. -/
theorem shiftUpLoop_getD
    {nShift count : Nat}
    {buf : List R}
    (fits : count + nShift ≤ buf.length)
    (shiftPositive : 0 < nShift)
    (index : Nat) :
    (shiftUpLoop nShift count buf).getD index 0 =
      if nShift ≤ index ∧ index < count + nShift then
        buf.getD (index - nShift) 0
      else buf.getD index 0 := by
  induction count generalizing buf with
  | zero =>
      rw [shiftUpLoop, if_neg (by omega)]
  | succ count inductionHypothesis =>
      rw [shiftUpLoop, inductionHypothesis (by rw [List.length_set]; omega),
        getD_set (by omega), getD_set (by omega)]
      by_cases moved : nShift ≤ index ∧ index < count + nShift
      · rw [if_pos moved, if_neg (by omega), if_pos (by omega)]
      · rw [if_neg moved]
        by_cases last : count + nShift = index
        · rw [if_pos last, if_pos (by omega), ← last, Nat.add_sub_cancel]
        · rw [if_neg last, if_neg (by omega)]

/-- Cells below a stored front of zeros are zero, the others are kept. -/
theorem getD_store_zeros
    {buf : List R}
    {count : Nat}
    (fits : count ≤ buf.length)
    (index : Nat) :
    (store buf 0 (List.replicate count 0)).getD index 0 =
      if index < count then 0 else buf.getD index 0 := by
  rw [List.getD_eq_getElem?_getD, getElem?_store (by simpa using fits)]
  simp only [Nat.zero_le, true_and, List.length_replicate, Nat.zero_add,
    Nat.sub_zero]
  split_ifs with front
  · simp [front]
  · rw [List.getD_eq_getElem?_getD]

/-- A shift by one moves the cells it covers up and clears the first one. -/
theorem bufShiftUp64_getD
    {buf : List R}
    {nBytes : Nat}
    (fits : nBytes / 8 ≤ buf.length)
    (index : Nat) :
    (bufShiftUp64 buf nBytes 1).getD index 0 =
      if index < nBytes / 8 then
        if index = 0 then 0 else buf.getD (index - 1) 0
      else buf.getD index 0 := by
  unfold bufShiftUp64
  dsimp only
  by_cases short : nBytes / 8 ≤ 1
  · rw [if_pos short, getD_store_zeros fits]
    by_cases inside : index < nBytes / 8
    · rw [if_pos inside, if_pos inside, if_pos (by omega)]
    · rw [if_neg inside, if_neg inside]
  · rw [if_neg short, getD_store_zeros (by rw [length_shiftUpLoop]; omega),
      shiftUpLoop_getD (by omega) (by omega)]
    by_cases first : index = 0
    · rw [if_pos (by omega), if_pos (by omega), if_pos first]
    · rw [if_neg (by omega), if_neg first]
      by_cases inside : index < nBytes / 8
      · rw [if_pos (by omega), if_pos inside]
      · rw [if_neg (by omega), if_neg inside]

@[simp] theorem length_bufShiftUp64
    (buf : List R)
    (nBytes nShift : Nat) :
    (bufShiftUp64 buf nBytes nShift).length = buf.length := by
  unfold bufShiftUp64
  dsimp only
  split <;> simp

/-- A new filter buffer shows an empty past. -/
theorem showsPast_nil (b : List R) :
    ShowsPast b (List.replicate b.length 0) [] where
  length_eq := List.length_replicate
  getD_eq := by
    intro index
    simp only [List.getD_eq_getElem?_getD, List.getElem?_replicate,
      List.getElem?_nil, Option.getD_none, ite_self]
    split <;> rfl

/-- Step lemma: pushing a sample puts it at the front of the past. -/
theorem ShowsPast.pushSample
    {b firBuf past : List R}
    (shows : ShowsPast b firBuf past)
    (order : 1 ≤ b.length)
    (sample : R) :
    ShowsPast b (Hiemal.pushSample b firBuf sample) (sample :: past) where
  length_eq := by
    rw [Hiemal.pushSample, List.length_set, length_bufShiftUp64,
      shows.length_eq]
  getD_eq := by
    have items : 8 * b.length % 2 ^ 32 / 8 = b.length % 2 ^ 29 := by omega
    have shiftFits : 8 * b.length % 2 ^ 32 / 8 ≤ firBuf.length := by
      rw [items, shows.length_eq]
      exact Nat.mod_le _ _
    intro index
    rw [Hiemal.pushSample,
      getD_set (by rw [length_bufShiftUp64, shows.length_eq]; omega),
      bufShiftUp64_getD shiftFits, items]
    have old := shows.getD_eq
    cases index with
    | zero =>
        have inside : 0 < effectiveOrder b.length := by
          unfold effectiveOrder
          omega
        rw [if_pos rfl, if_pos inside, List.getD_cons_zero]
    | succ index =>
        rw [if_neg (Nat.zero_ne_add_one index), List.getD_cons_succ,
          if_neg (Nat.add_one_ne_zero index), Nat.add_sub_cancel, old, old]
        unfold effectiveOrder
        split_ifs <;> first | rfl | omega

theorem getD_take
    (b : List R)
    (count index : Nat) :
    (b.take count).getD index 0 = if index < count then b.getD index 0 else 0 := by
  simp only [List.getD_eq_getElem?_getD, List.getElem?_take]
  split <;> rfl

/-- The accumulating loop of `ddot` in its forward mode computes a sum. -/
theorem ddot_eq_sum
    (a b : List R)
    (len : Nat) :
    ddot 'n' a b len =
      ((List.range len).map fun arrI =>
        a.getD arrI 0 * b.getD arrI 0).sum := by
  rw [ddot, if_neg (by decide), List.sum_eq_foldl, List.foldl_map]

/-- The product sum with the filter's buffer is the one with the past, over the
coefficients that take part. -/
theorem ShowsPast.ddot_eq
    {b firBuf past : List R}
    (shows : ShowsPast b firBuf past) :
    ddot 'n' firBuf b b.length =
      dot past (b.take (effectiveOrder b.length)) := by
  have covers : (b.take (effectiveOrder b.length)).length ≤ b.length :=
    List.length_take_le' _ b
  rw [ddot_eq_sum, dot_eq_sum_range past covers]
  apply congrArg List.sum
  apply List.map_congr_left
  intro index _
  rw [shows.getD_eq, getD_take]
  by_cases reached : index < effectiveOrder b.length
  · rw [if_pos reached, if_pos reached]
  · rw [if_neg reached, if_neg reached, zero_mul, mul_zero]

/-- Run lemma: the loop of the filter filters with the coefficients that take
part. -/
theorem firLoop_eq_filterFrom
    {b : List R}
    (order : 1 ≤ b.length)
    {firBuf past : List R}
    (shows : ShowsPast b firBuf past)
    (src : List R) :
    firLoop b firBuf src =
      filterFrom (b.take (effectiveOrder b.length)) past src := by
  induction src generalizing firBuf past with
  | nil => rfl
  | cons sample src inductionHypothesis =>
      have pushed := shows.pushSample order sample
      rw [firLoop, filterFrom, inductionHypothesis pushed]
      exact congrArg (· :: _) pushed.ddot_eq

/-! ## Runs on blocks -/

/-- The cells handed over with the byte count of a whole block, and less than a cell
more, are the block. -/
theorem handedCells_whole
    {α : Type}
    {cellBytes nBytes : Nat}
    {block : List α}
    (unsigned : nBytes < 2 ^ 32)
    (whole : nBytes / cellBytes = block.length) :
    handedCells cellBytes block nBytes = block := by
  rw [handedCells, Nat.mod_eq_of_lt unsigned, whole, load_zero, List.take_length]

/-- Each run of the op filters its block behind an empty past. -/
theorem hmDspOpRun_firFilter_whole
    {b : List R}
    (order : 1 ≤ b.length)
    (inputType outputType : HmFormatType)
    {block : List R}
    {nBytes : Nat}
    (unsigned : nBytes < 2 ^ 32)
    (whole : nBytes / 8 = block.length) :
    (hmDspOpRun (firFilterDspOp b inputType outputType) () block nBytes).1.cells =
      filterFrom (b.take (effectiveOrder b.length)) [] block := by
  change firLoop b _ (handedCells 8 block nBytes) = _
  rw [handedCells_whole unsigned whole]
  exact firLoop_eq_filterFrom order (showsPast_nil b) block

theorem hmDspOpRun_firFilter
    {b : List R}
    (order : 1 ≤ b.length)
    (inputType outputType : HmFormatType)
    {block : List R}
    (fits : 8 * block.length < 2 ^ 32) :
    (hmDspOpRun (firFilterDspOp b inputType outputType) () block
        (8 * block.length)).1.cells =
      filterFrom (b.take (effectiveOrder b.length)) [] block := by
  apply hmDspOpRun_firFilter_whole order inputType outputType fits
  exact Nat.mul_div_cancel_left block.length (by decide)

theorem runBlocks_firFilter
    {b : List R}
    (order : 1 ≤ b.length)
    (inputType outputType : HmFormatType)
    {blocks : List (List R)}
    (fits : 8 * blocks.flatten.length < 2 ^ 32) :
    runBlocks (firFilterDspOp b inputType outputType) () blocks =
      (blocks.map (filterFrom (b.take (effectiveOrder b.length)) [])).flatten := by
  induction blocks with
  | nil => rfl
  | cons block blocks inductionHypothesis =>
      rw [List.flatten_cons, List.length_append] at fits
      rw [runBlocks, List.map_cons, List.flatten_cons,
        ← hmDspOpRun_firFilter order inputType outputType (by omega),
        ← inductionHypothesis (by omega)]

/-- Filtering a signal block by block gives the output of a single run exactly
when the samples before each block contribute zero to each output of the block. -/
theorem firFilter_blockwise_iff
    (b : List R)
    (order : 1 ≤ b.length)
    (inputType outputType : HmFormatType)
    (blocks : List (List R))
    (fits : 8 * blocks.flatten.length < 2 ^ 32) :
    runBlocks (firFilterDspOp b inputType outputType) () blocks =
        (hmDspOpRun (firFilterDspOp b inputType outputType) ()
          blocks.flatten (8 * blocks.flatten.length)).1.cells ↔
      ∀ before block after, blocks = before ++ block :: after →
        ∀ index < block.length,
          dot before.flatten.reverse
            ((b.take (effectiveOrder b.length)).drop (index + 1)) = 0 := by
  rw [runBlocks_firFilter order inputType outputType fits,
    hmDspOpRun_firFilter order inputType outputType fits,
    filterFrom_flatten_iff]
  simp only [List.append_nil]

/-- A filter of order three on blocks whose history cancels out, as it ends in zeros
or in one value twice before a block of one sample. -/
theorem firFilter_blockwise_iff_cancels :
    1 ≤ [(2 : ℤ), 1, -1].length ∧
      8 * [[(3 : ℤ), 0, 0], [1, 4, 4], [], [4], [9]].flatten.length < 2 ^ 32 ∧
      runBlocks (firFilterDspOp [(2 : ℤ), 1, -1] .f32le .f32le) ()
          [[3, 0, 0], [1, 4, 4], [], [4], [9]] =
        (hmDspOpRun (firFilterDspOp [(2 : ℤ), 1, -1] .f32le .f32le) ()
          [[(3 : ℤ), 0, 0], [1, 4, 4], [], [4], [9]].flatten
          (8 * [[(3 : ℤ), 0, 0], [1, 4, 4], [], [4], [9]].flatten.length)).1.cells := by
  refine ⟨by decide, by decide,
    (firFilter_blockwise_iff [2, 1, -1] (by decide) .f32le .f32le
      [[3, 0, 0], [1, 4, 4], [], [4], [9]] (by decide)).mpr ?_⟩
  intro before block after split
  rcases before with _ | ⟨_, _ | ⟨_, _ | ⟨_, _ | ⟨_, _ | ⟨_, before⟩⟩⟩⟩⟩
  · cases split
    decide
  · cases split
    decide
  · cases split
    decide
  · cases split
    decide
  · cases split
    decide
  · simp at split

/-- With coefficients `1, 1` a sample is added to its successor in one run, and
lost between two. -/
theorem firFilter_drops_history :
    ¬ ∀ (b : List ℤ) (blocks : List (List ℤ)),
      1 ≤ b.length →
        runBlocks (firFilterDspOp b .f32le .f32le) () blocks =
          (hmDspOpRun (firFilterDspOp b .f32le .f32le) ()
            blocks.flatten (8 * blocks.flatten.length)).1.cells := by
  intro blockwise
  have drops := blockwise [1, 1] [[1], [0]] (by decide)
  revert drops
  decide

end Hiemal
