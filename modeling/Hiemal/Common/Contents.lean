import Hiemal.Common.Arrays
import Hiemal.Common.Sequence

/-!
# Arrays represent sequences

An array holds a sequence of items: its block, cut into pieces of the item size.
Every array function that gets the memory it asks for acts on these sequences like
the corresponding list operation, also when an array is appended to itself.
-/

namespace Hiemal

open Foundation

/-- An item of an array, by its bytes. -/
abbrev Item := List UInt8

/-- The items lie in the block of the array one after the other, and the block has
room for as many as the array counts allocated. -/
structure ArrayHolds (a : HmArray) (items : List Item) : Prop where
  withinAlloc : a.nItems ≤ a.nItemsAlloc
  covers :
    0 < a.nItemsAlloc →
      ∃ block, a.buf = some block ∧ a.nItemsAlloc * a.itemSize ≤ block.length
  items_eq : pieces a.itemSize a.nItems (a.buf.getD []) = items

/-- An allocation serves a request: what is asked for fits a `size_t`, and is
granted. -/
def Allocates (allocation : Allocation) (size : Nat) : Prop :=
  size < 2 ^ 64 ∧ (allocation size).isSome

/-- The block of an array is enlarged for a number of items, if it has to be. -/
def HmArray.Grows (a : HmArray) (nItems : Nat) (realloc : Allocation) : Prop :=
  a.nItemsAlloc < nItems → Allocates realloc (2 * nItems * a.itemSize)

/-- There are so many items of this size to copy. -/
def Supplies (data : Option (List UInt8)) (nItems itemSize : Nat) : Prop :=
  0 < nItems → ∃ block, data = some block ∧ nItems * itemSize ≤ block.length

theorem reallocate_eq_some
    {allocation : Allocation}
    {size : Nat}
    (allocates : Allocates allocation size)
    (block : Option (List UInt8)) :
    ∃ fresh,
      reallocate allocation block size =
        some (resize (block.getD []) size fresh) := by
  obtain ⟨small, granted⟩ := allocates
  obtain ⟨fresh, returned⟩ := Option.isSome_iff_exists.mp granted
  exact ⟨fresh, by
    rw [reallocate, toUnsigned_of_lt 64 small, returned, Option.map_some]⟩

section Holds

variable {a : HmArray} {items : List Item}

theorem ArrayHolds.count
    (holds : ArrayHolds a items) :
    items.length = a.nItems := by
  rw [← holds.items_eq, length_pieces]

/-- An array without items. -/
theorem arrayHolds_nil
    (empty : a.nItems = 0)
    (covers :
      0 < a.nItemsAlloc →
        ∃ block, a.buf = some block ∧
          a.nItemsAlloc * a.itemSize ≤ block.length) :
    ArrayHolds a [] where
  withinAlloc := by omega
  covers := covers
  items_eq := by rw [empty, pieces_zero]

/-- An array without a block is empty. -/
theorem arrayHolds_unallocated
    (empty : a.nItems = 0)
    (unallocated : a.nItemsAlloc = 0) :
    ArrayHolds a [] := by
  apply arrayHolds_nil empty
  intro allocated
  rw [unallocated] at allocated
  exact absurd allocated (Nat.lt_irrefl 0)

/-- The block of an array has room for the items it counts allocated. -/
theorem ArrayHolds.room
    (holds : ArrayHolds a items)
    {block : List UInt8}
    (stored : a.buf = some block)
    {count : Nat}
    (within : count ≤ a.nItemsAlloc) :
    count * a.itemSize ≤ block.length := by
  rcases Nat.eq_zero_or_pos a.nItemsAlloc with none | some
  · have zero : count = 0 := by omega
    rw [zero, Nat.zero_mul]
    exact Nat.zero_le _
  · obtain ⟨block', stored', enough⟩ := holds.covers some
    rw [stored, Option.some.injEq] at stored'
    subst stored'
    exact (Nat.mul_le_mul_right a.itemSize within).trans enough

/-- Each item lies in the block. -/
theorem ArrayHolds.item_fits
    (holds : ArrayHolds a items)
    {index : Nat}
    (inRange : index < a.nItems) :
    ∃ block, a.buf = some block ∧
      index * a.itemSize + a.itemSize ≤ block.length := by
  have within := holds.withinAlloc
  obtain ⟨block, stored, _⟩ := holds.covers (by omega)
  refine ⟨block, stored, ?_⟩
  rw [← Nat.succ_mul]
  exact holds.room stored (by omega)

/-- An array without a block has room for no items. -/
theorem ArrayHolds.noRoom
    (holds : ArrayHolds a items)
    (stored : a.buf = none) :
    a.nItemsAlloc = 0 := by
  by_contra some
  obtain ⟨block, stored', _⟩ := holds.covers (Nat.pos_of_ne_zero some)
  rw [stored] at stored'
  cases stored'

/-- The items of an array can be copied. -/
theorem ArrayHolds.supplies
    (holds : ArrayHolds a items) :
    Supplies a.buf a.nItems a.itemSize := by
  intro some
  have within := holds.withinAlloc
  obtain ⟨block, stored, enough⟩ := holds.covers (by omega)
  exact ⟨block, stored, (Nat.mul_le_mul_right a.itemSize within).trans enough⟩

/-- The items keep their place when the block is enlarged. -/
theorem ArrayHolds.resized
    (holds : ArrayHolds a items)
    {nItems : Nat}
    (more : a.nItemsAlloc < nItems)
    (fresh : Nat → UInt8) :
    ArrayHolds
      { a with
        buf := some (resize (a.buf.getD []) (2 * nItems * a.itemSize) fresh)
        nItemsAlloc := nItems } items where
  withinAlloc := holds.withinAlloc.trans more.le
  covers := by
    intro _
    refine ⟨_, rfl, ?_⟩
    rw [length_resize, Nat.mul_assoc]
    exact Nat.le_mul_of_pos_left _ Nat.two_pos
  items_eq := by
    have kept :
        (resize (a.buf.getD []) (2 * nItems * a.itemSize) fresh).take
            (a.nItems * a.itemSize) =
          (a.buf.getD []).take (a.nItems * a.itemSize) := by
      apply take_resize
      · cases stored : a.buf with
        | none =>
            have empty := holds.noRoom stored
            have within := holds.withinAlloc
            have zero : a.nItems = 0 := by omega
            rw [zero, Nat.zero_mul]
            exact Nat.zero_le _
        | some block => exact holds.room stored holds.withinAlloc
      · have fewer : a.nItems ≤ 2 * nItems := by
          have within := holds.withinAlloc
          omega
        exact Nat.mul_le_mul_right a.itemSize fewer
    rw [Option.getD_some, ← pieces_take (Nat.le_refl _), kept,
      pieces_take (Nat.le_refl _)]
    exact holds.items_eq

/-- Copying items behind those an array holds, into room it has. -/
theorem ArrayHolds.copyBehind
    (holds : ArrayHolds a items)
    {nItems : Nat}
    (room : a.nItems + nItems ≤ a.nItemsAlloc)
    {data : Option (List UInt8)}
    (supplies : Supplies data nItems a.itemSize) :
    ∃ copied,
      xmemcpy a.buf (a.nItems * a.itemSize) data 0 (nItems * a.itemSize) =
          some copied ∧
        ArrayHolds
          { a with buf := copied.or a.buf, nItems := a.nItems + nItems }
          (items ++ pieces a.itemSize nItems (data.getD [])) := by
  cases stored : a.buf with
  | none =>
      have full := holds.noRoom stored
      obtain ⟨empty, rfl⟩ : a.nItems = 0 ∧ nItems = 0 := by omega
      refine ⟨none, by rw [empty, Nat.zero_mul]; rfl, ?_⟩
      rw [pieces_zero, List.append_nil, Option.none_or, ← stored]
      exact holds
  | some block =>
      cases data with
      | none =>
          obtain rfl : nItems = 0 := by
            by_contra some
            obtain ⟨_, impossible, _⟩ := supplies (Nat.pos_of_ne_zero some)
            cases impossible
          refine ⟨none, rfl, ?_⟩
          rw [pieces_zero, List.append_nil, Option.none_or, ← stored]
          exact holds
      | some src =>
          have fits := holds.room stored room
          have enough : nItems * a.itemSize ≤ src.length := by
            rcases Nat.eq_zero_or_pos nItems with rfl | some
            · rw [Nat.zero_mul]
              exact Nat.zero_le _
            · obtain ⟨_, same, enough⟩ := supplies some
              rw [Option.some.injEq] at same
              subst same
              exact enough
          rw [Nat.add_mul] at fits
          refine ⟨some (store block (a.nItems * a.itemSize)
              (load src 0 (nItems * a.itemSize))),
            by rw [xmemcpy, if_pos ⟨fits, by omega⟩], ?_⟩
          have held := holds.items_eq
          rw [stored, Option.getD_some] at held
          exact
            { withinAlloc := room
              covers := by
                intro some
                refine ⟨_, rfl, ?_⟩
                rw [length_store]
                exact holds.room stored (Nat.le_refl _)
              items_eq := by
                rw [Option.some_or, Option.getD_some, Option.getD_some, ← held]
                exact pieces_store fits enough }

/-- Only the count says how many items there are. -/
theorem ArrayHolds.emptied
    (holds : ArrayHolds a items) :
    ArrayHolds { a with nItems := 0 } [] :=
  arrayHolds_nil rfl holds.covers

end Holds

/-! ## The array functions in memory -/

section Functions

variable {m : ArrayMemory} {arr : ArrayAddress} {a : HmArray}
variable {items : List Item}

theorem ArrayHolds.hmArrayResize
    (holds : ArrayHolds a items)
    (stored : m arr = some a)
    {nItems : Nat}
    {realloc : Allocation}
    (grows : a.Grows nItems realloc) :
    ∃ next,
      Hiemal.hmArrayResize realloc m arr nItems =
          some (Function.update m arr (some next), 0) ∧
        ArrayHolds next items ∧ nItems ≤ next.nItemsAlloc ∧
          next.itemSize = a.itemSize := by
  by_cases more : a.nItemsAlloc < nItems
  · obtain ⟨fresh, returned⟩ := reallocate_eq_some (grows more) a.buf
    refine ⟨_, ?_, holds.resized more fresh, Nat.le_refl _, rfl⟩
    simp only [Hiemal.hmArrayResize, stored, if_pos more, returned,
      Option.bind_eq_bind, Option.bind_some, pure]
  · refine ⟨a, ?_, holds, Nat.not_lt.mp more, rfl⟩
    rw [← stored, Function.update_eq_self]
    simp only [Hiemal.hmArrayResize, stored, if_neg more, Option.bind_eq_bind,
      Option.bind_some, pure]

theorem ArrayHolds.hmArrayCopyRaw
    (holds : ArrayHolds a items)
    (stored : m arr = some a)
    {nItems : Nat}
    {realloc : Allocation}
    (grows : a.Grows nItems realloc)
    {buf : Option (List UInt8)}
    (supplies : Supplies buf nItems a.itemSize) :
    ∃ next,
      Hiemal.hmArrayCopyRaw realloc m arr buf nItems =
          some (Function.update m arr (some next), 0) ∧
        ArrayHolds next (pieces a.itemSize nItems (buf.getD [])) ∧
          next.itemSize = a.itemSize := by
  obtain ⟨resized, returned, resizedHolds, room, size⟩ :=
    holds.hmArrayResize stored grows
  rw [← size] at supplies ⊢
  have enough :
      ({ resized with nItems := 0 } : HmArray).nItems + nItems ≤
        resized.nItemsAlloc := (Nat.zero_add nItems).trans_le room
  obtain ⟨copied, copies, nextHolds⟩ :=
    resizedHolds.emptied.copyBehind enough supplies
  simp only [Nat.zero_mul, Nat.zero_add, List.nil_append] at copies nextHolds
  refine ⟨_, ?_, nextHolds, rfl⟩
  simp only [Hiemal.hmArrayCopyRaw, returned, Function.update_self, copies,
    Function.update_idem, Option.bind_eq_bind, Option.bind_some, pure]

theorem ArrayHolds.hmArrayClear
    (stored : m arr = some a) :
    ∃ next,
      Hiemal.hmArrayClear m arr =
          some (Function.update m arr (some next), 0) ∧
        ArrayHolds next [] ∧ next.itemSize = a.itemSize := by
  refine ⟨{ a with buf := none, nItems := 0, nItemsAlloc := 0 }, ?_, ?_, rfl⟩
  · simp only [Hiemal.hmArrayClear, stored, Option.bind_eq_bind,
      Option.bind_some, pure]
  · exact arrayHolds_unallocated rfl rfl

/-- Appending an array, possibly itself. -/
theorem ArrayHolds.hmArrayConcat
    (holds : ArrayHolds a items)
    (stored : m arr = some a)
    {other : ArrayAddress}
    {b : HmArray}
    {more : List Item}
    (otherHolds : ArrayHolds b more)
    (otherStored : m other = some b)
    (sameSize : a.itemSize = b.itemSize)
    (small : a.nItems + b.nItems < 2 ^ 32)
    {realloc : Allocation}
    (grows : a.Grows (a.nItems + b.nItems) realloc) :
    ∃ next,
      Hiemal.hmArrayConcat realloc m arr other =
          some (Function.update m arr (some next), 0) ∧
        ArrayHolds next (items ++ more) ∧ next.itemSize = a.itemSize := by
  obtain ⟨resized, returned, resizedHolds, room, size⟩ :=
    holds.hmArrayResize stored grows
  -- what is appended, read from the memory after the resize
  obtain ⟨source, sourceStored, sourceHolds, sourceSize⟩ :
      ∃ source, Function.update m arr (some resized) other = some source ∧
        ArrayHolds source more ∧ source.itemSize = resized.itemSize := by
    by_cases self : other = arr
    · subst self
      have same : a = b := by
        rw [stored] at otherStored
        exact Option.some.inj otherStored
      subst same
      obtain rfl : items = more := holds.items_eq.symm.trans otherHolds.items_eq
      exact ⟨resized, Function.update_self .., resizedHolds, rfl⟩
    · refine ⟨b, ?_, otherHolds, sameSize.symm.trans size.symm⟩
      rw [Function.update_of_ne self, otherStored]
  have count : resized.nItems = a.nItems :=
    resizedHolds.count.symm.trans holds.count
  have sourceCount : source.nItems = b.nItems :=
    sourceHolds.count.symm.trans otherHolds.count
  have supplies := sourceHolds.supplies
  rw [sourceSize] at supplies
  obtain ⟨copied, copies, nextHolds⟩ :=
    resizedHolds.copyBehind (by rw [count, sourceCount]; exact room) supplies
  rw [← sourceSize, sourceHolds.items_eq] at nextHolds
  rw [count, sourceCount] at nextHolds
  refine ⟨_, ?_, nextHolds, sourceSize.trans size⟩
  have newSize := toUnsigned_of_lt 32 small
  simp only [Hiemal.hmArrayConcat, stored, otherStored, newSize, returned,
    Function.update_self, sourceStored, sourceSize, copies,
    Function.update_idem, Option.bind_eq_bind, Option.bind_some, pure]

/-- Raw data are copied into a temporary array, which is appended and deleted. -/
theorem hmArrayConcatRaw_eq
    (stored : m arr = some a)
    (reallocNew realloc : Allocation)
    (newArr : ArrayAddress)
    (data : Option (List UInt8))
    (nItems : Nat) :
    hmArrayConcatRaw reallocNew realloc newArr m arr data nItems =
      (do
        let new := some (hmArrayInit a.itemSize)
        let (m, _) ←
          hmArrayCopyRaw reallocNew (Function.update m newArr new) newArr data
            nItems
        let (m, _) ← hmArrayConcat realloc m arr newArr
        let (m, _) ← hmArrayDelete m newArr
        return (m, 0)) := by
  simp only [hmArrayConcatRaw, hmArrayCopyRaw, stored, Option.bind_eq_bind,
    Option.bind_some, Option.bind_assoc, pure]

/-- Appending raw data. -/
theorem ArrayHolds.hmArrayConcatRaw
    (holds : ArrayHolds a items)
    (stored : m arr = some a)
    {newArr : ArrayAddress}
    (free : m newArr = none)
    {nItems : Nat}
    (small : a.nItems + nItems < 2 ^ 32)
    {reallocNew realloc : Allocation}
    (newGrows : (hmArrayInit a.itemSize).Grows nItems reallocNew)
    (grows : a.Grows (a.nItems + nItems) realloc)
    {data : Option (List UInt8)}
    (supplies : Supplies data nItems a.itemSize) :
    ∃ next,
      Hiemal.hmArrayConcatRaw reallocNew realloc newArr m arr data nItems =
          some (Function.update m arr (some next), 0) ∧
        ArrayHolds next (items ++ pieces a.itemSize nItems (data.getD [])) ∧
          next.itemSize = a.itemSize := by
  have apart : arr ≠ newArr := by
    rintro rfl
    rw [stored] at free
    cases free
  have newHolds : ArrayHolds (hmArrayInit a.itemSize) [] :=
    arrayHolds_unallocated rfl rfl
  have newStored :
      Function.update m newArr (some (hmArrayInit a.itemSize)) newArr =
        some (hmArrayInit a.itemSize) := Function.update_self ..
  obtain ⟨new, copied, copyHolds, newSize⟩ :=
    newHolds.hmArrayCopyRaw newStored newGrows supplies
  rw [Function.update_idem] at copied
  have stored' : Function.update m newArr (some new) arr = some a := by
    rw [Function.update_of_ne apart, stored]
  have count : new.nItems = nItems := by
    rw [← copyHolds.count, length_pieces]
  obtain ⟨next, appended, nextHolds, size⟩ :=
    holds.hmArrayConcat stored' copyHolds (Function.update_self ..)
      newSize.symm (by rw [count]; exact small) (by rw [count]; exact grows)
  refine ⟨next, ?_, nextHolds, size⟩
  have deleted :
      Function.update
          (Function.update (Function.update m newArr (some new)) arr (some next))
          newArr none =
        Function.update m arr (some next) := by
    rw [Function.update_comm apart, Function.update_idem, ← free,
      Function.update_eq_self]
  rw [hmArrayConcatRaw_eq stored]
  simp only [copied, appended, hmArrayDelete, ne_eq, apart.symm,
    not_false_eq_true, Function.update_of_ne, Function.update_self, deleted,
    Option.bind_eq_bind, Option.bind_some, pure]

end Functions

end Hiemal
