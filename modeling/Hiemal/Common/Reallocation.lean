import Hiemal.Common.Contents

/-!
# Arrays when memory runs out

Copying into an array and appending to one do not look at what enlarging the block
returned, and a count past 32 bits wraps around. This module says for which
arrays, counts and outcomes of `realloc` the two functions stay within the block
all the same.
-/

namespace Hiemal

open Foundation

/-- An array between two calls: it holds items, and its members have 32 bits. -/
structure ArrayValid (a : HmArray) : Prop where
  holds : ∃ items, ArrayHolds a items
  allocFits : a.nItemsAlloc < 2 ^ 32
  sizeFits : a.itemSize < 2 ^ 32

/-- A call either succeeds, with no more items than are allocated, or returns an
error and leaves the array as it was. All bytes are copied inside the block, or
there is no result. -/
def AllOrNothing
    (m : ArrayMemory)
    (arr : ArrayAddress)
    (result : Option (ArrayMemory × Int)) : Prop :=
  ∃ next rc, result = some (next, rc) ∧
    ((rc = 0 ∧ ∃ a, next arr = some a ∧ a.nItems ≤ a.nItemsAlloc) ∨
      (rc ≠ 0 ∧ next arr = m arr))

/-- The number of bytes of the block after it is enlarged for so many items. -/
def HmArray.bytesFor (a : HmArray) (nItems : Nat) : Nat :=
  if a.nItemsAlloc < nItems then toUnsigned 64 (2 * nItems * a.itemSize : Nat)
  else (a.buf.getD []).length

/-- There is room already, or `realloc` returns some. -/
def HmArray.HasRoom (a : HmArray) (nItems : Nat) (realloc : Allocation) : Prop :=
  nItems ≤ a.nItemsAlloc ∨
    (realloc (toUnsigned 64 (2 * nItems * a.itemSize : Nat))).isSome

/-- Raw data fit: there is room for them, and if it has to be made, for bytes that
do not wrap around; or there are no data. -/
def HmArray.RawFits
    (a : HmArray)
    (buf : Option (List UInt8))
    (nItems : Nat)
    (realloc : Allocation) : Prop :=
  a.HasRoom nItems realloc ∧
    (nItems ≤ a.nItemsAlloc ∨ buf = none ∨ nItems * a.itemSize < 2 ^ 63)

/-- The count of two arrays together, as an `unsigned int`. -/
def jointCount (a b : HmArray) : Nat :=
  toUnsigned 32 (a.nItems + b.nItems : Nat)

/-- Another array fits behind the items of an array: there is room for the count of
both, as far as it does not wrap around, and for their bytes. -/
def HmArray.ArrayFits (a b : HmArray) (realloc : Allocation) : Prop :=
  a.HasRoom (jointCount a b) realloc ∧
    a.nItems * a.itemSize + b.nItems * b.itemSize ≤ a.bytesFor (jointCount a b)

/-! ## Enlarging a block -/

/-- The array with its block enlarged for so many items. -/
structure GrownTo (a : HmArray) (nItems : Nat) (grown : HmArray) : Prop where
  block : ∃ block, grown.buf = some block ∧ block.length = a.bytesFor nItems
  nItems_eq : grown.nItems = a.nItems
  nItemsAlloc_eq : grown.nItemsAlloc = nItems
  itemSize_eq : grown.itemSize = a.itemSize

section Enlarging

variable {m : ArrayMemory} {arr : ArrayAddress} {a : HmArray} {nItems : Nat}
variable {realloc : Allocation}

/-- Nothing happens when there is room. -/
theorem hmArrayResize_within
    (stored : m arr = some a)
    (within : nItems ≤ a.nItemsAlloc)
    (realloc : Allocation) :
    hmArrayResize realloc m arr nItems = some (m, 0) := by
  simp [hmArrayResize, stored, Nat.not_lt.mpr within]

/-- Nothing happens, except for the returned code, when `realloc` fails. -/
theorem hmArrayResize_refused
    (stored : m arr = some a)
    (more : a.nItemsAlloc < nItems)
    (refused : realloc (toUnsigned 64 (2 * nItems * a.itemSize : Nat)) = none) :
    hmArrayResize realloc m arr nItems = some (m, -1) := by
  simp only [hmArrayResize, stored, if_pos more, reallocate, refused,
    Option.bind_eq_bind, Option.bind_some, Option.map_none, pure]

theorem hmArrayResize_granted
    (stored : m arr = some a)
    (more : a.nItemsAlloc < nItems)
    {fresh : Nat → UInt8}
    (granted :
      realloc (toUnsigned 64 (2 * nItems * a.itemSize : Nat)) = some fresh) :
    ∃ grown, GrownTo a nItems grown ∧
      hmArrayResize realloc m arr nItems =
        some (Function.update m arr (some grown), 0) := by
  let block :=
    resize (a.buf.getD []) (toUnsigned 64 (2 * nItems * a.itemSize : Nat)) fresh
  refine ⟨{ a with buf := some block, nItemsAlloc := nItems }, ?_, ?_⟩
  · exact
      { block := by
          refine ⟨block, rfl, ?_⟩
          rw [length_resize, HmArray.bytesFor, if_pos more]
        nItems_eq := rfl
        nItemsAlloc_eq := rfl
        itemSize_eq := rfl }
  · simp only [hmArrayResize, stored, if_pos more, reallocate, granted,
      Option.bind_eq_bind, Option.bind_some, Option.map_some, pure, block]

/-- After the copy only the count is written, and the code is always zero. -/
theorem allOrNothing_copied
    (m next : ArrayMemory)
    (arr : ArrayAddress)
    (a : HmArray)
    (nItems : Nat)
    (copied : Option (Option (List UInt8))) :
    AllOrNothing m arr
        (copied.bind fun copied =>
          some (Function.update next arr
            (some { a with buf := copied.or a.buf, nItems := nItems }), 0)) ↔
      copied.isSome ∧ nItems ≤ a.nItemsAlloc := by
  cases copied with
  | none => simp [AllOrNothing]
  | some copied => simp [AllOrNothing]

/-- Copying from the start of a block that is long enough. -/
theorem isSome_xmemcpy_iff
    {dest src : List UInt8}
    {destAt n : Nat}
    (enough : n ≤ src.length) :
    (xmemcpy (some dest) destAt (some src) 0 n).isSome ↔
      destAt + n ≤ dest.length := by
  by_cases fits : destAt + n ≤ dest.length
  · simp [xmemcpy, fits, enough]
  · simp [xmemcpy, fits]

end Enlarging

/-! ## Raw data -/

section Raw

variable {m : ArrayMemory} {arr : ArrayAddress} {a : HmArray} {nItems : Nat}
variable {realloc : Allocation} {buf : Option (List UInt8)}

/-- Doubling a number of bytes wraps around from half of the address space on, and
leaves less than the number. -/
theorem le_toUnsigned_double_iff
    {bytes : Nat}
    (fits : bytes < 2 ^ 64) :
    bytes ≤ toUnsigned 64 (2 * bytes : Nat) ↔ bytes < 2 ^ 63 := by
  rw [toUnsigned_natCast]
  omega

/-- The copy after the block is enlarged, or not. -/
theorem hmArrayCopyRaw_after
    {next : ArrayMemory}
    {rc : Int}
    {resized : HmArray}
    (returned : hmArrayResize realloc m arr nItems = some (next, rc))
    (stored : next arr = some resized) :
    AllOrNothing m arr (hmArrayCopyRaw realloc m arr buf nItems) ↔
      (xmemcpy resized.buf 0 buf 0 (nItems * resized.itemSize)).isSome ∧
        nItems ≤ resized.nItemsAlloc := by
  rw [← allOrNothing_copied m next arr resized nItems]
  simp only [hmArrayCopyRaw, returned, stored, Option.bind_eq_bind,
    Option.bind_some, pure]

theorem hmArrayCopyRaw_allOrNothing_iff
    (stored : m arr = some a)
    (valid : ArrayValid a)
    (countFits : nItems < 2 ^ 32)
    (enough : ∀ src ∈ buf, nItems * a.itemSize ≤ src.length) :
    AllOrNothing m arr (hmArrayCopyRaw realloc m arr buf nItems) ↔
      a.RawFits buf nItems realloc := by
  obtain ⟨items, holds⟩ := valid.holds
  by_cases within : nItems ≤ a.nItemsAlloc
  · have copies : (xmemcpy a.buf 0 buf 0 (nItems * a.itemSize)).isSome := by
      cases dest : a.buf with
      | none => rfl
      | some block =>
          cases buf with
          | none => rfl
          | some src =>
              rw [isSome_xmemcpy_iff (enough src rfl), Nat.zero_add]
              exact holds.room dest within
    rw [hmArrayCopyRaw_after (hmArrayResize_within stored within realloc) stored]
    exact iff_of_true ⟨copies, within⟩ ⟨Or.inl within, Or.inl within⟩
  · have more := Nat.not_le.mp within
    rw [HmArray.RawFits, HmArray.HasRoom, or_iff_right within,
      or_iff_right within]
    cases granted : realloc (toUnsigned 64 (2 * nItems * a.itemSize : Nat)) with
    | none =>
        rw [hmArrayCopyRaw_after (hmArrayResize_refused stored more granted)
          stored]
        exact iff_of_false (fun copied => within copied.2)
          fun fits => Bool.false_ne_true fits.1
    | some fresh =>
        obtain ⟨grown, grownTo, resized⟩ :=
          hmArrayResize_granted stored more granted
        obtain ⟨block, dest, length⟩ := grownTo.block
        rw [HmArray.bytesFor, if_pos more, Nat.mul_assoc] at length
        rw [hmArrayCopyRaw_after resized (Function.update_self ..),
          grownTo.nItemsAlloc_eq, grownTo.itemSize_eq, dest,
          and_iff_left (Nat.le_refl nItems), and_iff_right (by rfl)]
        cases buf with
        | none => exact iff_of_true rfl (Or.inl rfl)
        | some src =>
            have fits : nItems * a.itemSize < 2 ^ 64 := by
              have product := Nat.mul_lt_mul'' countFits valid.sizeFits
              rwa [← Nat.pow_add] at product
            rw [isSome_xmemcpy_iff (enough src rfl), Nat.zero_add, length,
              le_toUnsigned_double_iff fits]
            simp

end Raw

/-! ## Another array -/

section Arrays

variable {m : ArrayMemory} {arr other : ArrayAddress} {a b : HmArray}
variable {realloc : Allocation}

/-- The bytes of the second array fit behind those of the first exactly if the copy
stays within the two blocks. -/
theorem isSome_xmemcpy_arrays_iff
    {dest source : HmArray}
    (room : dest.buf = none → dest.nItems = 0 ∧ source.nItems = 0)
    (sourceRoom :
      source.buf = none → source.nItems = 0 ∧
        dest.nItems * dest.itemSize ≤ (dest.buf.getD []).length)
    (enough : ∀ src ∈ source.buf,
      dest.nItems * dest.itemSize + source.nItems * source.itemSize ≤
          (dest.buf.getD []).length →
        source.nItems * source.itemSize ≤ src.length) :
    (xmemcpy dest.buf (dest.nItems * dest.itemSize) source.buf 0
        (source.nItems * source.itemSize)).isSome ↔
      dest.nItems * dest.itemSize + source.nItems * source.itemSize ≤
        (dest.buf.getD []).length := by
  cases block : dest.buf with
  | none =>
      obtain ⟨none, sourceNone⟩ := room block
      simp [none, sourceNone, xmemcpy]
  | some block' =>
      rw [block] at sourceRoom enough
      cases data : source.buf with
      | none =>
          obtain ⟨none, fits⟩ := sourceRoom data
          simpa [none, xmemcpy] using fits
      | some src =>
          simp only [xmemcpy, Option.getD_some]
          split
          next copied => exact iff_of_true rfl copied.1
          next blocked =>
            refine iff_of_false (by simp) fun fits => blocked ⟨fits, ?_⟩
            rw [Nat.zero_add]
            exact enough src data fits

/-- The copy after the block is enlarged, or not. -/
theorem hmArrayConcat_after
    (stored : m arr = some a)
    (otherStored : m other = some b)
    {next : ArrayMemory}
    {rc : Int}
    {resized source : HmArray}
    (returned :
      hmArrayResize realloc m arr (jointCount a b) = some (next, rc))
    (resizedStored : next arr = some resized)
    (sourceStored : next other = some source) :
    AllOrNothing m arr (hmArrayConcat realloc m arr other) ↔
      (xmemcpy resized.buf (resized.nItems * resized.itemSize) source.buf 0
          (source.nItems * source.itemSize)).isSome ∧
        jointCount a b ≤ resized.nItemsAlloc := by
  rw [← allOrNothing_copied m next arr resized (jointCount a b)]
  unfold jointCount at returned ⊢
  simp only [hmArrayConcat, stored, otherStored, returned, resizedStored,
    sourceStored, Option.bind_eq_bind, Option.bind_some, pure]

/-- Without items in the second array the count stays what it is. -/
theorem ArrayValid.jointCount_eq
    (valid : ArrayValid a)
    (none : b.nItems = 0) :
    jointCount a b = a.nItems := by
  obtain ⟨items, holds⟩ := valid.holds
  have within := holds.withinAlloc
  have small := valid.allocFits
  rw [jointCount, none, Nat.add_zero]
  exact toUnsigned_of_lt 32 (by omega)

/-- The items of an array lie in its block. -/
theorem ArrayValid.bytes_le
    (valid : ArrayValid a) :
    a.nItems * a.itemSize ≤ (a.buf.getD []).length := by
  obtain ⟨items, holds⟩ := valid.holds
  have within := holds.withinAlloc
  cases stored : a.buf with
  | none =>
      have empty := holds.noRoom stored
      have zero : a.nItems = 0 := by omega
      rw [zero, Nat.zero_mul]
      exact Nat.zero_le _
  | some block => exact holds.room stored within

theorem hmArrayConcat_within_iff
    (stored : m arr = some a)
    (valid : ArrayValid a)
    (otherStored : m other = some b)
    (otherValid : ArrayValid b)
    (within : jointCount a b ≤ a.nItemsAlloc) :
    AllOrNothing m arr (hmArrayConcat realloc m arr other) ↔
      a.ArrayFits b realloc := by
  obtain ⟨items, holds⟩ := valid.holds
  obtain ⟨more, otherHolds⟩ := otherValid.holds
  rw [hmArrayConcat_after stored otherStored
      (hmArrayResize_within stored within realloc) stored otherStored,
    isSome_xmemcpy_arrays_iff, HmArray.ArrayFits, HmArray.bytesFor,
    if_neg (Nat.not_lt.mpr within), and_comm, HmArray.HasRoom]
  · simp [within]
  · intro empty
    have none := holds.noRoom empty
    have fewer := holds.withinAlloc
    have small := otherHolds.withinAlloc.trans_lt otherValid.allocFits
    have zero : a.nItems = 0 := by omega
    rw [jointCount, zero, Nat.zero_add, toUnsigned_of_lt 32 small] at within
    exact ⟨zero, by omega⟩
  · intro empty
    have none := otherHolds.noRoom empty
    have fewer := otherHolds.withinAlloc
    exact ⟨by omega, valid.bytes_le⟩
  · intro src data _
    exact otherHolds.room data otherHolds.withinAlloc

theorem hmArrayConcat_more_iff
    (stored : m arr = some a)
    (valid : ArrayValid a)
    (otherStored : m other = some b)
    (otherValid : ArrayValid b)
    (more : a.nItemsAlloc < jointCount a b) :
    AllOrNothing m arr (hmArrayConcat realloc m arr other) ↔
      a.ArrayFits b realloc := by
  obtain ⟨items, holds⟩ := valid.holds
  obtain ⟨others, otherHolds⟩ := otherValid.holds
  have notWithin := Nat.not_le.mpr more
  rw [HmArray.ArrayFits, HmArray.HasRoom, or_iff_right notWithin]
  cases granted :
      realloc (toUnsigned 64 (2 * jointCount a b * a.itemSize : Nat)) with
  | none =>
      rw [hmArrayConcat_after stored otherStored
        (hmArrayResize_refused stored more granted) stored otherStored]
      exact iff_of_false (fun copied => notWithin copied.2)
        fun fits => Bool.false_ne_true fits.1
  | some fresh =>
      obtain ⟨grown, grownTo, resized⟩ :=
        hmArrayResize_granted stored more granted
      obtain ⟨block, dest, length⟩ := grownTo.block
      obtain ⟨source, sourceStored, count, size, data⟩ :
          ∃ source, Function.update m arr (some grown) other = some source ∧
            source.nItems = b.nItems ∧ source.itemSize = b.itemSize ∧
              (source.buf = some block ∨ source.buf = b.buf) := by
        by_cases self : other = arr
        · subst self
          obtain rfl : a = b := Option.some.inj (stored.symm.trans otherStored)
          exact ⟨grown, Function.update_self .., grownTo.nItems_eq,
            grownTo.itemSize_eq, Or.inl dest⟩
        · refine ⟨b, ?_, rfl, rfl, Or.inr rfl⟩
          rw [Function.update_of_ne self, otherStored]
      rw [hmArrayConcat_after stored otherStored resized
          (Function.update_self ..) sourceStored,
        isSome_xmemcpy_arrays_iff, grownTo.nItemsAlloc_eq,
        grownTo.nItems_eq, grownTo.itemSize_eq, count, size, dest,
        Option.getD_some, length, and_iff_left (Nat.le_refl _),
        and_iff_right (by rfl)]
      · intro empty
        rw [dest] at empty
        cases empty
      · intro empty
        have unchanged : source.buf = b.buf := by
          rcases data with data | data
          · rw [empty] at data
            cases data
          · exact data
        rw [unchanged] at empty
        have none := otherHolds.noRoom empty
        have fewer := otherHolds.withinAlloc
        have zero : b.nItems = 0 := by omega
        have same := valid.jointCount_eq zero
        have within := holds.withinAlloc
        omega
      · intro src known fits
        rw [dest, Option.getD_some] at fits
        rcases data with data | data
        · rw [known, Option.some.injEq] at data
          rw [data]
          omega
        · rw [count, size]
          exact otherHolds.room (data.symm.trans known) otherHolds.withinAlloc

theorem hmArrayConcat_allOrNothing_iff
    (stored : m arr = some a)
    (valid : ArrayValid a)
    (otherStored : m other = some b)
    (otherValid : ArrayValid b) :
    AllOrNothing m arr (hmArrayConcat realloc m arr other) ↔
      a.ArrayFits b realloc := by
  by_cases within : jointCount a b ≤ a.nItemsAlloc
  · exact hmArrayConcat_within_iff stored valid otherStored otherValid within
  · exact hmArrayConcat_more_iff stored valid otherStored otherValid
      (Nat.not_le.mp within)

end Arrays

/-- Copying raw data and appending an array are all or nothing exactly if the data
fit. -/
theorem hmArray_allOrNothing_iff_fits
    (realloc : Allocation)
    (m : ArrayMemory)
    (arr : ArrayAddress)
    (a : HmArray)
    (stored : m arr = some a)
    (valid : ArrayValid a) :
    (∀ buf nItems, nItems < 2 ^ 32 →
      (∀ src ∈ buf, nItems * a.itemSize ≤ src.length) →
        (AllOrNothing m arr (hmArrayCopyRaw realloc m arr buf nItems) ↔
          a.RawFits buf nItems realloc)) ∧
      ∀ other b, m other = some b → ArrayValid b →
        (AllOrNothing m arr (hmArrayConcat realloc m arr other) ↔
          a.ArrayFits b realloc) :=
  ⟨fun _ _ countFits enough =>
      hmArrayCopyRaw_allOrNothing_iff stored valid countFits enough,
    fun _ _ otherStored otherValid =>
      hmArrayConcat_allOrNothing_iff stored valid otherStored otherValid⟩

/-- Two arrays of items of two bytes: one of two items in a block with room for two,
the other of three items in a block with room for four. -/
def twoArrays : ArrayMemory := fun arr =>
  if arr = 0 then
    some
      { hmArrayInit 2 with
        buf := some [1, 2, 3, 4, 0, 0, 0, 0]
        nItems := 2
        nItemsAlloc := 2 }
  else if arr = 1 then
    some
      { hmArrayInit 2 with
        buf := some [5, 6, 7, 8, 9, 10, 0, 0]
        nItems := 3
        nItemsAlloc := 4 }
  else none

/-- Three items copied over two, and three items appended to two, when `realloc`
returns memory. -/
theorem hmArray_allOrNothing_iff_fits_granted :
    AllOrNothing twoArrays 0
        (hmArrayCopyRaw (fun _ => some fun _ => 0) twoArrays 0
          (some [11, 12, 13, 14, 15, 16]) 3) ∧
      AllOrNothing twoArrays 0
        (hmArrayConcat (fun _ => some fun _ => 0) twoArrays 0 1) := by
  obtain ⟨copies, appends⟩ :=
    hmArray_allOrNothing_iff_fits (fun _ => some fun _ => 0) twoArrays 0 _ rfl
      { holds :=
          ⟨[[1, 2], [3, 4]],
            { withinAlloc := by decide
              covers := fun _ => ⟨_, rfl, by decide⟩
              items_eq := by decide }⟩
        allocFits := by decide
        sizeFits := by decide }
  constructor
  · apply (copies _ 3 (by decide) (by rintro _ ⟨⟩; decide)).mpr
    exact ⟨Or.inr rfl, Or.inr (Or.inr (by decide))⟩
  · apply (appends 1 _ rfl
      { holds :=
          ⟨[[5, 6], [7, 8], [9, 10]],
            { withinAlloc := by decide
              covers := fun _ => ⟨_, rfl, by decide⟩
              items_eq := by decide }⟩
        allocFits := by decide
        sizeFits := by decide }).mpr
    exact ⟨Or.inr rfl, by decide⟩
/-- One byte copied into a new array whose block cannot be allocated: the code is
zero, and an item is counted where none is. -/
theorem not_allOrNothing_refused :
    ¬AllOrNothing (fun _ => some (hmArrayInit 1)) 0
      (hmArrayCopyRaw (fun _ => none) (fun _ => some (hmArrayInit 1)) 0
        (some [7]) 1) := by
  rintro ⟨next, rc, returns, ⟨_, a, stored, within⟩ | ⟨failed, _⟩⟩
  · cases returns
    cases stored
    exact Nat.not_succ_le_zero 0 within
  · cases returns
    exact failed rfl

end Hiemal
