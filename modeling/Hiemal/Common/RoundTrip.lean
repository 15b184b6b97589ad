import Hiemal.Common.ArraySequence
import Mathlib.Algebra.Order.BigOperators.Group.List

/-!
# Arrays to lists and back

`hm_list_copy_array` makes a list node of every item of an array, and
`hm_array_copy_list` puts the data of the nodes together again. The first does not
write the member `data_size` of the new nodes, which the second reads, so that the
way back depends on what `malloc` left there.
-/

namespace Hiemal

open Foundation

/-! ## From an array to a list -/

/-- The addresses of a new node. -/
def NewNode.addresses (new : NewNode) : List NodeAddress :=
  [new.node, new.refnode]

/-- `malloc` returns memory that is not in use. -/
structure NewNodes (m : ListMemory) (news : List NewNode) : Prop where
  unused : ∀ new ∈ news, ∀ node ∈ new.addresses, m.nodes node = none
  distinct : (news.flatMap NewNode.addresses).Nodup

/-- A new node with an item copied into it. -/
def NewNode.filled (new : NewNode) (item : Item) : HmListNode :=
  { new.content with data := item, freeFn := some .defaultNodeFree }

/-- The node of the list that stands for a new one. -/
def NewNode.cell (new : NewNode) (list : ListMemory) : NodeAddress :=
  list.cellOf new.node new.refnode

/-- What `get_list_data` finds in this node: the item, unless the node is one of a
reference list. -/
def NewNode.dataIn (list : ListMemory) (item : Item) : List UInt8 :=
  if hmSubtypeId list.list.magic = hmListRefnodeMagic then [] else item

/-- The data size it finds: whatever was in memory, unless the node is one of a
reference list. -/
def NewNode.sizeIn (new : NewNode) (list : ListMemory) : Nat :=
  if hmSubtypeId list.list.magic = hmListRefnodeMagic then 0
  else new.content.dataSize

theorem hmReflistNodeInit_data : hmReflistNodeInit.data = [] := rfl

theorem hmReflistNodeInit_dataSize : hmReflistNodeInit.dataSize = 0 := rfl

/-- The data and the data size are not among what changes with the links. -/
theorem dataOf_congr
    {m next : ListMemory}
    {node : NodeAddress}
    (same :
      (next.nodes node).map HmListNode.unlinked =
        (m.nodes node).map HmListNode.unlinked) :
    next.dataOf node = m.dataOf node ∧
      next.dataSizeOf node = m.dataSizeOf node := by
  have data := congrArg (Option.map HmListNode.data) same
  have size := congrArg (Option.map HmListNode.dataSize) same
  rw [Option.map_map, Option.map_map] at data size
  constructor
  · exact congrArg (Option.getD · []) data
  · exact congrArg (Option.getD · 0) size

section Rounds

variable {list m : ListMemory} {nodes shown : List NodeAddress} {new : NewNode}

/-- The cell of a filled node shows the data of the item. -/
theorem dataOf_withCell_filled
    (kind : m.list.magic = list.list.magic)
    (item : Item) :
    let filled := m.setNode new.node (some (new.filled item))
    (filled.withCell new.node new.refnode).dataOf (new.cell list) =
        NewNode.dataIn list item ∧
      (filled.withCell new.node new.refnode).dataSizeOf (new.cell list) =
        new.sizeIn list := by
  intro filled
  have filledKind : filled.list.magic = list.list.magic := kind
  rw [NewNode.cell, NewNode.dataIn, NewNode.sizeIn, ListMemory.withCell,
    ListMemory.cellOf, filledKind]
  by_cases reference : hmSubtypeId list.list.magic = hmListRefnodeMagic
  · simp only [if_pos reference, ListMemory.dataOf, ListMemory.dataSizeOf,
      ListMemory.setNode, Option.map_some, Option.getD_some, if_true,
      hmReflistNodeInit_data, hmReflistNodeInit_dataSize, and_self]
  · simp only [if_neg reference, ListMemory.dataOf, ListMemory.dataSizeOf,
      filled, ListMemory.setNode, Option.map_some, Option.getD_some, if_true,
      NewNode.filled, and_self]

/-- Filling and appending a new node. -/
theorem ListHolds.appendNew
    (holds : ListHolds m nodes shown)
    (kind : m.list.magic = list.list.magic)
    (unused : ∀ node ∈ new.addresses, m.nodes node = none)
    (different : new.node ≠ new.refnode)
    (item : Item) :
    ∃ next,
      hmListAppend (m.setNode new.node (some (new.filled item))) new.node
          new.refnode = some (next, 0) ∧
        ListHolds next (nodes ++ [new.cell list]) (shown ++ [new.node]) ∧
          next.list.magic = list.list.magic ∧
            next.dataOf (new.cell list) = NewNode.dataIn list item ∧
              next.dataSizeOf (new.cell list) = new.sizeIn list ∧
                ∀ node ∉ new.addresses,
                  (next.nodes node).map HmListNode.unlinked =
                    (m.nodes node).map HmListNode.unlinked := by
  have nodeUnused : m.nodes new.node = none := unused _ (by simp [NewNode.addresses])
  have refUnused : m.nodes new.refnode = none :=
    unused _ (by simp [NewNode.addresses])
  have outside : new.node ∉ nodes := by
    intro member
    obtain ⟨links, known⟩ := holds.chain.linked.allocated member
    simp [ListMemory.links, nodeUnused] at known
  let filled := m.setNode new.node (some (new.filled item))
  have filledHolds : ListHolds filled nodes shown := holds.setNode outside _
  have refFree : filled.nodes new.refnode = none := by
    simp [filled, ListMemory.setNode, different.symm, refUnused]
  obtain ⟨next, returned, nextHolds, keeps⟩ :=
    filledHolds.hmListInsert
      (fun _ => ⟨outside, by simp [filled, ListMemory.setNode]⟩)
      (fun _ => refFree) (Nat.le_refl nodes.length)
  have filledKind : filled.list.magic = list.list.magic := kind
  have cell : filled.cellOf new.node new.refnode = new.cell list := by
    rw [ListMemory.cellOf, filledKind]
    rfl
  rw [cell, List.take_length, List.drop_length, filledHolds.length_eq,
    List.take_length, List.drop_length] at nextHolds
  have same := dataOf_congr (keeps.rest_eq (new.cell list))
  have shows := @dataOf_withCell_filled list m new kind item
  refine ⟨next, ?_, nextHolds, ?_, ?_, ?_, ?_⟩
  · rw [hmListAppend, hmListInsert_negative _ _ _ (by decide),
      filledHolds.count]
    exact returned
  · rw [keeps.magic_eq, ListMemory.withCell, ← filledKind]
    split <;> rfl
  · rw [same.1, shows.1]
  · rw [same.2, shows.2]
  · intro node other
    rw [NewNode.addresses, List.mem_cons, List.mem_singleton, not_or] at other
    rw [keeps.rest_eq, ListMemory.withCell]
    split
    · simp [ListMemory.setNode, filled, other]
    · simp [ListMemory.setNode, filled, other]

/-- Later new nodes are unused after the first one is filled and appended. -/
theorem NewNodes.tail
    {news : List NewNode}
    (fresh : NewNodes m (new :: news))
    {next : ListMemory}
    (rest : ∀ node ∉ new.addresses,
      (next.nodes node).map HmListNode.unlinked =
        (m.nodes node).map HmListNode.unlinked) :
    NewNodes next news := by
  have distinct := fresh.distinct
  rw [List.flatMap_cons, List.nodup_append] at distinct
  obtain ⟨_, later, apart⟩ := distinct
  refine ⟨fun other member node address => ?_, later⟩
  have outside : node ∉ new.addresses := by
    intro first
    have also := List.mem_flatMap.mpr ⟨other, member, address⟩
    exact apart node first node also rfl
  have unused :=
    fresh.unused other (List.mem_cons_of_mem new member) node address
  have same := rest node outside
  rwa [unused, Option.map_none, Option.map_eq_none_iff] at same

variable {a : HmArray} {items : List Item}

/-- A round of the loop fills a new node with an item and appends it. -/
theorem copyArrayLoop_succ
    (holds : ArrayHolds a items)
    (malloc : Nat → NewNode)
    {itr : Nat}
    (inRange : itr < a.nItems)
    (count : Nat)
    (m : ListMemory) :
    copyArrayLoop malloc a (count + 1) itr m =
      (hmListAppend
        (m.setNode (malloc itr).node
          (some ((malloc itr).filled
            (load (a.buf.getD []) (itr * a.itemSize) a.itemSize))))
        (malloc itr).node (malloc itr).refnode).bind fun output =>
          copyArrayLoop malloc a count (itr + 1) output.1 := by
  obtain ⟨block, stored, fits⟩ := holds.item_fits inRange
  have length : (load block (itr * a.itemSize) a.itemSize).length = a.itemSize :=
    length_load fits
  have whole :=
    store_resize_nil length (malloc itr).fresh
  rw [copyArrayLoop]
  simp only [stored, Option.getD_some, xmemcpy, length_resize, Nat.zero_add,
    Nat.le_refl, fits, and_self, if_true, whole, Option.bind_eq_bind,
    Option.bind_some, Option.pure_def, Option.bind_assoc]
  have updated :
      (m.setNode (malloc itr).node
          (some { (malloc itr).content with
            data := resize [] a.itemSize (malloc itr).fresh })).update
          (malloc itr).node (fun content =>
            { content with
              data := load block (itr * a.itemSize) a.itemSize
              freeFn := some .defaultNodeFree }) =
        some (m.setNode (malloc itr).node
          (some ((malloc itr).filled
            (load block (itr * a.itemSize) a.itemSize)))) := by
    simp only [ListMemory.update, ListMemory.setNode, if_true,
      Option.map_some, NewNode.filled, Option.some.injEq, ListMemory.mk.injEq,
      true_and]
    funext other
    split <;> rfl
  rw [updated, Option.bind_some]

/-- Run of the loop: the new nodes are appended, each with its item. -/
theorem copyArrayLoop_returns
    (holds : ArrayHolds a items)
    (malloc : Nat → NewNode)
    {itr count : Nat}
    (inRange : itr + count ≤ a.nItems)
    (listHolds : ListHolds m nodes shown)
    (kind : m.list.magic = list.list.magic)
    (fresh : NewNodes m ((List.range' itr count).map malloc)) :
    ∃ next shown',
      copyArrayLoop malloc a count itr m = some next ∧
        ListHolds next
            (nodes ++ (List.range' itr count).map fun index =>
              (malloc index).cell list) shown' ∧
          (∀ index ∈ List.range' itr count,
            next.dataOf ((malloc index).cell list) =
                NewNode.dataIn list
                  (load (a.buf.getD []) (index * a.itemSize) a.itemSize) ∧
              next.dataSizeOf ((malloc index).cell list) =
                (malloc index).sizeIn list) ∧
            ∀ node ∉ ((List.range' itr count).map malloc).flatMap
                NewNode.addresses,
              (next.nodes node).map HmListNode.unlinked =
                (m.nodes node).map HmListNode.unlinked := by
  induction count generalizing itr m nodes shown with
  | zero =>
      refine ⟨m, shown, rfl, ?_, by simp, fun _ _ => rfl⟩
      simpa using listHolds
  | succ count inductionHypothesis =>
      rw [List.range'_succ, List.map_cons] at fresh
      have distinct := fresh.distinct
      rw [List.flatMap_cons, List.nodup_append] at distinct
      have different : (malloc itr).node ≠ (malloc itr).refnode := by
        simpa [NewNode.addresses] using distinct.1
      obtain ⟨m₁, appended, holds₁, kind₁, data, size, rest⟩ :=
        listHolds.appendNew kind
          (fresh.unused _ List.mem_cons_self) different
          (load (a.buf.getD []) (itr * a.itemSize) a.itemSize)
      obtain ⟨next, shown', returned, nextHolds, found, rest'⟩ :=
        inductionHypothesis (by omega) holds₁ kind₁ (fresh.tail rest)
      refine ⟨next, shown', ?_, ?_, ?_, ?_⟩
      · rw [copyArrayLoop_succ holds malloc (by omega), appended,
          Option.bind_some, returned]
      · rw [List.range'_succ, List.map_cons, List.append_cons]
        exact nextHolds
      · rw [List.range'_succ, List.forall_mem_cons]
        refine ⟨?_, found⟩
        -- the first node is not among those of the later rounds
        have own : (malloc itr).cell list ∈ (malloc itr).addresses := by
          unfold NewNode.cell ListMemory.cellOf NewNode.addresses
          split <;> simp
        have later := rest' ((malloc itr).cell list) fun member =>
          distinct.2.2 _ own _ member rfl
        exact ⟨(dataOf_congr later).1.trans data,
          (dataOf_congr later).2.trans size⟩
      · intro node outside
        rw [List.range'_succ, List.map_cons, List.flatMap_cons,
          List.mem_append, not_or] at outside
        exact (rest' node outside.2).trans (rest node outside.1)

end Rounds

/-! ## From the list to an array -/

section Back

variable {m : ArrayMemory} {arr : ArrayAddress} {a : HmArray}
variable {items : List Item} {list : ListMemory} {nodes shown : List NodeAddress}

/-- More data than a node has are not copied. -/
theorem copyListData_fails
    {pairs : List (Option (List UInt8) × Nat)}
    (past : ∃ pair ∈ pairs, ∃ src, pair.1 = some src ∧ src.length < pair.2)
    (offset : Nat)
    (block : List UInt8) :
    copyListData pairs offset (some block) = none := by
  induction pairs generalizing offset block with
  | nil =>
      obtain ⟨pair, member, _⟩ := past
      cases member
  | cons pair pairs inductionHypothesis =>
      obtain ⟨data, size⟩ := pair
      rw [copyListData]
      rcases copied : xmemcpy (some block) offset data 0 size with _ | result
      · rfl
      · rw [List.exists_mem_cons_iff] at past
        obtain ⟨src, rfl, short⟩ | later := past
        · have blocked : ¬(offset + size ≤ block.length ∧ 0 + size ≤ src.length) :=
            by omega
          rw [xmemcpy, if_neg blocked] at copied
          cases copied
        · rw [Option.bind_eq_bind, Option.bind_some]
          cases result with
          | none => exact inductionHypothesis later _ block
          | some next => exact inductionHypothesis later _ next

/-- Fewer data than the items take are not copied into the temporary array. -/
theorem hmArrayConcatRaw_fails
    (stored : m arr = some a)
    {reallocNew realloc : Allocation}
    {newArr : ArrayAddress}
    {data : List UInt8}
    {nItems : Nat}
    (newGrows : (hmArrayInit a.itemSize).Grows nItems reallocNew)
    (short : data.length < nItems * a.itemSize) :
    hmArrayConcatRaw reallocNew realloc newArr m arr (some data) nItems =
      none := by
  have newHolds : ArrayHolds (hmArrayInit a.itemSize) [] :=
    arrayHolds_unallocated rfl rfl
  have newStored :
      Function.update m newArr (some (hmArrayInit a.itemSize)) newArr =
        some (hmArrayInit a.itemSize) := Function.update_self ..
  obtain ⟨new, returned, resizedHolds, room, size⟩ :=
    newHolds.hmArrayResize newStored newGrows
  have positive : 0 < nItems := by
    by_contra none
    rw [Nat.eq_zero_of_not_pos none, Nat.zero_mul] at short
    exact Nat.not_lt_zero _ short
  obtain ⟨block, dest, _⟩ := resizedHolds.covers (by omega)
  have size' : new.itemSize = a.itemSize := size
  have blocked :
      ¬(0 + nItems * a.itemSize ≤ block.length ∧
        0 + nItems * a.itemSize ≤ data.length) := by
    omega
  simp only [hmArrayConcatRaw_eq stored, hmArrayCopyRaw, returned, Function.update_self, dest, size', xmemcpy,
    if_neg blocked, Option.bind_eq_bind, Option.bind_some, Option.bind_none]

/-- The data of a list whose nodes have no more than an item each are not put
together when some node has another size than an item. -/
theorem hmArrayCopyList_fails
    (stored : m arr = some a)
    (listHolds : ListHolds list nodes shown)
    (counted : nodes.length < 2 ^ 31)
    (room : ∀ node ∈ nodes, (list.dataOf node).length ≤ a.itemSize)
    (wrong : ∃ node ∈ nodes, list.dataSizeOf node ≠ a.itemSize)
    (small : nodes.length * a.itemSize < 2 ^ 64)
    {allocations : CopyListAllocations}
    (gathers : ∀ size, (allocations.malloc size).isSome)
    (newGrows :
      (hmArrayInit a.itemSize).Grows nodes.length allocations.reallocNew)
    (flags : Nat) :
    hmArrayCopyList allocations m arr list flags = none := by
  rw [hmArrayCopyList_eq stored listHolds counted]
  obtain ⟨fresh, granted⟩ := Option.isSome_iff_exists.mp
    (gathers (toUnsigned 64 (u64sum (nodes.map list.dataSizeOf))))
  have allocated :
      reallocate allocations.malloc none
          (u64sum (nodes.map list.dataSizeOf)) =
        some (resize []
          (toUnsigned 64 (u64sum (nodes.map list.dataSizeOf))) fresh) := by
    rw [reallocate, granted, Option.map_some, Option.getD_none]
  by_cases within :
      ∀ node ∈ nodes, list.dataSizeOf node ≤ (list.dataOf node).length
  · -- all data are there, but together they are fewer than the items take
    have fewer : (nodes.map list.dataSizeOf).sum < nodes.length * a.itemSize := by
      have bound : (nodes.map fun _ => a.itemSize).sum =
          nodes.length * a.itemSize := by
        rw [List.map_const', List.sum_replicate_nat]
      rw [← bound]
      apply List.sum_lt_sum
      · exact fun node member =>
          (within node member).trans (room node member)
      · obtain ⟨node, member, different⟩ := wrong
        exact ⟨node, member, Nat.lt_of_le_of_ne
          ((within node member).trans (room node member)) different⟩
    have total := u64sum_eq (fewer.trans small)
    rw [total, toUnsigned_of_lt 64 (fewer.trans small)] at allocated
    have gathered := copyListData_nodes within (fewer.trans small) fresh
    have length := length_flatten_itemAt within
    have stored' :
        Function.update m arr (some (a.overwritten flags)) arr =
          some (a.overwritten flags) := Function.update_self ..
    rw [← length, ← itemSize_overwritten a flags] at fewer
    rw [← itemSize_overwritten a flags] at newGrows
    simp only [total, allocated, gathered, Option.bind_eq_bind,
      Option.bind_some]
    rw [hmArrayConcatRaw_fails stored' newGrows fewer, Option.bind_none]
  · rw [not_forall] at within
    obtain ⟨node, within⟩ := within
    rw [not_forall] at within
    obtain ⟨member, past⟩ := within
    simp only [allocated, Option.bind_eq_bind]
    rw [copyListData_fails, Option.bind_none]
    refine ⟨_, List.mem_map_of_mem member, _, rfl, ?_⟩
    exact Nat.not_le.mp past

end Back

/-! ## There and back -/

/-- Two calls: an array is copied to a list, and the list to another array. -/
structure Conversion where
  m : ArrayMemory
  arr : ArrayAddress
  dest : ArrayAddress
  list : ListMemory
  listFlags : Nat
  arrayFlags : Nat
  clientFn : Nat → HmListNode → Option HmListNode
  malloc : Nat → NewNode
  allocations : CopyListAllocations

/-- The arrays after both calls. -/
def Conversion.run (c : Conversion) : Option ArrayMemory := do
  let (list, _) ←
    hmListCopyArray c.clientFn c.malloc c.list c.m c.arr c.listFlags
  let (m, _) ← hmArrayCopyList c.allocations c.m c.dest list c.arrayFlags
  return m

/-- An array that holds items is copied to an empty list, and the list to an empty
array of the same item size; allocations succeed. -/
structure Conversion.Admissible
    (c : Conversion)
    (a b : HmArray)
    (items : List Item) : Prop where
  stored : c.m c.arr = some a
  holds : ArrayHolds a items
  countFits : a.nItems < 2 ^ 32
  bytesFit : a.nItems * a.itemSize < 2 ^ 63
  destStored : c.m c.dest = some b
  destHolds : ArrayHolds b []
  sameSize : b.itemSize = a.itemSize
  listHolds : ListHolds c.list [] []
  news : NewNodes c.list ((List.range a.nItems).map c.malloc)
  newArrFree : c.m c.allocations.newArr = none
  mallocs : ∀ size, (c.allocations.malloc size).isSome
  reallocsNew : ∀ size, (c.allocations.reallocNew size).isSome
  reallocs : ∀ size, (c.allocations.realloc size).isSome

/-- The data size that every node of the list is left with is the item size. -/
def Conversion.SizesLeft (c : Conversion) (a : HmArray) : Prop :=
  ∀ index < a.nItems, (c.malloc index).sizeIn c.list = a.itemSize

section Conversions

variable {c : Conversion} {a b : HmArray} {items : List Item}

/-- Clearing an empty list changes nothing. -/
theorem hmListClear_empty
    {m : ListMemory}
    (holds : ListHolds m [] [])
    (clientFn : Nat → HmListNode → Option HmListNode) :
    hmListClear clientFn m.list.nItems m = some (m, 0) := by
  have count : m.list.nItems = 0 := holds.count
  have head : m.list.head = none := holds.chain.linked
  rw [hmListClear, count, head, clearLoop]
  simp only [Option.bind_eq_bind, Option.bind_some, pure, ← head, ← count]

/-- The list after the first call. -/
theorem Conversion.Admissible.hmListCopyArray
    (admissible : c.Admissible a b items) :
    ∃ filled shown,
      Hiemal.hmListCopyArray c.clientFn c.malloc c.list c.m c.arr c.listFlags =
          some (filled, 0) ∧
        ListHolds filled
            ((List.range a.nItems).map fun index =>
              (c.malloc index).cell c.list) shown ∧
          ∀ index < a.nItems,
            filled.dataOf ((c.malloc index).cell c.list) =
                NewNode.dataIn c.list
                  (load (a.buf.getD []) (index * a.itemSize) a.itemSize) ∧
              filled.dataSizeOf ((c.malloc index).cell c.list) =
                (c.malloc index).sizeIn c.list := by
  have news := admissible.news
  rw [List.range_eq_range'] at news
  obtain ⟨filled, shown, returned, filledHolds, found, _⟩ :=
    copyArrayLoop_returns admissible.holds c.malloc
      (Nat.zero_add a.nItems).le admissible.listHolds rfl news
  rw [List.nil_append, ← List.range_eq_range'] at filledHolds
  refine ⟨filled, shown, ?_, filledHolds, ?_⟩
  · have start :
        (if hmFlagSet c.listFlags copyOverwrite then
          hmListClear c.clientFn c.list.list.nItems c.list
        else some (c.list, 0)) = some (c.list, 0) := by
      rw [hmListClear_empty admissible.listHolds, ite_self]
    rw [Hiemal.hmListCopyArray]
    simp only [admissible.stored, start, returned, Option.bind_eq_bind,
      Option.bind_some, pure]
  · intro index inRange
    exact found index (by simpa using inRange)

/-- What `get_list_data` finds in a node is at most an item. -/
theorem length_dataIn_le
    (list : ListMemory)
    (block : List UInt8)
    (start size : Nat) :
    (NewNode.dataIn list (load block start size)).length ≤ size := by
  unfold NewNode.dataIn
  split
  · exact Nat.zero_le size
  · exact List.length_take_le _ _

/-- A node left with the data size of an item gives the item back. -/
theorem dataIn_of_sizeIn
    (new : NewNode)
    {list : ListMemory}
    {item : Item}
    (left : new.sizeIn list = item.length) :
    NewNode.dataIn list item = item := by
  unfold NewNode.sizeIn at left
  unfold NewNode.dataIn
  split
  next reference =>
    rw [if_pos reference] at left
    exact (List.eq_nil_of_length_eq_zero left.symm).symm
  next => rfl

/-- The items of the array fit in its growing copy. -/
theorem Conversion.Admissible.grows
    (admissible : c.Admissible a b items)
    {realloc : Allocation}
    (granted : ∀ size, (realloc size).isSome)
    {grown : HmArray}
    (size : grown.itemSize = a.itemSize) :
    grown.Grows a.nItems realloc := by
  intro _
  have bytes := admissible.bytesFit
  refine ⟨?_, granted _⟩
  rw [size, Nat.mul_assoc]
  omega

/-- A node that is left with another size stops the second call, and so do too many
items for a counter of nodes. -/
theorem Conversion.Admissible.run_blocked
    (admissible : c.Admissible a b items)
    (wrong : ¬(c.SizesLeft a ∧ a.nItems < 2 ^ 31)) :
    c.run = none := by
  obtain ⟨filled, shown, copied, filledHolds, found⟩ :=
    admissible.hmListCopyArray
  have size := admissible.sameSize
  have bytes := admissible.bytesFit
  have count : ((List.range a.nItems).map fun index =>
      (c.malloc index).cell c.list).length = a.nItems := by
    rw [List.length_map, List.length_range]
  have blocked :
      hmArrayCopyList c.allocations c.m c.dest filled c.arrayFlags = none := by
    by_cases counted : a.nItems < 2 ^ 31
    swap
    · exact hmArrayCopyList_overflows filledHolds (by omega) c.allocations c.m
        c.dest c.arrayFlags
    have wrongSize : ¬c.SizesLeft a := fun sizesLeft => wrong ⟨sizesLeft, counted⟩
    obtain ⟨index, wrong⟩ := not_forall.mp wrongSize
    obtain ⟨inRange, wrong⟩ := not_forall.mp wrong
    apply hmArrayCopyList_fails admissible.destStored filledHolds (by omega)
    · rw [List.forall_mem_map]
      intro index member
      rw [(found index (List.mem_range.mp member)).1, size]
      exact length_dataIn_le _ _ _ _
    · refine ⟨_, List.mem_map_of_mem (List.mem_range.mpr inRange), ?_⟩
      rw [(found index inRange).2, size]
      exact wrong
    · rw [count, size]
      omega
    · exact admissible.mallocs
    · rw [count]
      exact admissible.grows admissible.reallocsNew size
  simp [Conversion.run, copied, blocked]

/-- The list after the first call gives the items back, if its nodes are left with
the size of an item. -/
theorem Conversion.Admissible.copied_items
    (admissible : c.Admissible a b items)
    (sizesLeft : c.SizesLeft a) :
    ∃ filled nodes shown,
      Hiemal.hmListCopyArray c.clientFn c.malloc c.list c.m c.arr c.listFlags =
          some (filled, 0) ∧
        ListHolds filled nodes shown ∧ nodes.length = a.nItems ∧
          (∀ node ∈ nodes, filled.dataSizeOf node = a.itemSize ∧
            a.itemSize ≤ (filled.dataOf node).length) ∧
            nodes.map filled.itemAt = items := by
  obtain ⟨filled, shown, copied, filledHolds, found⟩ :=
    admissible.hmListCopyArray
  have found' (index : Nat) (inRange : index < a.nItems) :
      filled.dataOf ((c.malloc index).cell c.list) =
          load (a.buf.getD []) (index * a.itemSize) a.itemSize ∧
        (load (a.buf.getD []) (index * a.itemSize) a.itemSize).length =
          a.itemSize := by
    obtain ⟨block, known, fits⟩ := admissible.holds.item_fits inRange
    rw [(found index inRange).1, known, Option.getD_some]
    have length := length_load fits
    refine ⟨dataIn_of_sizeIn (c.malloc index) ?_, length⟩
    rw [sizesLeft index inRange, length]
  refine ⟨filled, _, shown, copied, filledHolds, ?_, ?_, ?_⟩
  · rw [List.length_map, List.length_range]
  · rw [List.forall_mem_map]
    intro index member
    have inRange := List.mem_range.mp member
    obtain ⟨data, length⟩ := found' index inRange
    rw [(found index inRange).2, data, length]
    exact ⟨sizesLeft index inRange, Nat.le_refl _⟩
  · rw [← admissible.holds.items_eq, List.map_map, pieces]
    apply List.map_congr_left
    intro index member
    have inRange := List.mem_range.mp member
    obtain ⟨data, length⟩ := found' index inRange
    rw [Function.comp_apply, ListMemory.itemAt, (found index inRange).2,
      data, sizesLeft index inRange, List.take_of_length_le length.le]

/-- Then both calls return, and the second array holds the items. -/
theorem Conversion.Admissible.run_returns
    (admissible : c.Admissible a b items)
    (sizesLeft : c.SizesLeft a)
    (counted : a.nItems < 2 ^ 31) :
    ∃ next back, c.run = some next ∧ next c.dest = some back ∧
      back.itemSize = a.itemSize ∧ ArrayHolds back items := by
  obtain ⟨filled, nodes, shown, copied, filledHolds, count, sizes, same⟩ :=
    admissible.copied_items sizesLeft
  have size := admissible.sameSize
  have bytes := admissible.bytesFit
  have none : (b.overwritten c.arrayFlags).nItems = 0 := by
    rw [← (admissible.destHolds.overwritten c.arrayFlags).count,
      keptItems_nil, List.length_nil]
  have gathers :
      Allocates c.allocations.malloc (a.nItems * b.itemSize) := by
    rw [size]
    exact ⟨by omega, admissible.mallocs _⟩
  have newGrows :
      (hmArrayInit b.itemSize).Grows a.nItems c.allocations.reallocNew :=
    admissible.grows admissible.reallocsNew size
  have grows :
      (b.overwritten c.arrayFlags).Grows a.nItems c.allocations.realloc :=
    admissible.grows admissible.reallocs
      ((itemSize_overwritten _ _).trans size)
  rw [← size] at sizes
  obtain ⟨back, returned, backHolds, backSize⟩ :=
    admissible.destHolds.hmArrayCopyList admissible.destStored filledHolds
      (by rw [count]; exact counted) sizes admissible.newArrFree
      (by rw [count, none, Nat.zero_add]; exact admissible.countFits)
      (by rw [count]; exact gathers) (by rw [count]; exact newGrows)
      (by rw [count, none, Nat.zero_add]; exact grows)
  refine ⟨Function.update c.m c.dest (some back), back, ?_,
    Function.update_self .., backSize.trans size, ?_⟩
  · simp only [Conversion.run, copied, returned, Option.bind_eq_bind,
      Option.bind_some, pure]
  · rw [keptItems_nil, same] at backHolds
    exact backHolds

end Conversions

/-- An array is the same after it was copied to a list and back exactly if every
node is left with the data size of an item, and an `int` can count the nodes. -/
theorem arrayRoundTrip_iff_sizesLeft
    (c : Conversion)
    (a b : HmArray)
    (items : List Item)
    (admissible : c.Admissible a b items) :
    (∃ next back, c.run = some next ∧ next c.dest = some back ∧
      back.itemSize = a.itemSize ∧ ArrayHolds back items) ↔
      c.SizesLeft a ∧ a.nItems < 2 ^ 31 := by
  constructor
  · rintro ⟨next, back, ran, _⟩
    by_contra wrong
    rw [admissible.run_blocked wrong] at ran
    cases ran
  · rintro ⟨sizesLeft, counted⟩
    exact admissible.run_returns sizesLeft counted

/-- One item of two bytes is copied to a new list and back, when `malloc` leaves
the given data size in the new node. -/
def oneItemConversion (dataSize : Nat) : Conversion where
  m := fun arr =>
    if arr = 0 then
      some
        { hmArrayInit 2 with
          buf := some [7, 8]
          nItems := 1
          nItemsAlloc := 1 }
    else if arr = 1 then some (hmArrayInit 2)
    else none
  arr := 0
  dest := 1
  list := { list := hmListInit, nodes := fun _ => none }
  listFlags := 0
  arrayFlags := 0
  clientFn := fun _ _ => none
  malloc := fun itr =>
    { node := 2 * itr
      content := { hmReflistNodeInit with dataSize := dataSize }
      fresh := fun _ => 0
      refnode := 2 * itr + 1 }
  allocations := ⟨cleared, 2, cleared, cleared⟩

/-- The item comes back when the data size happens to be right. -/
theorem arrayRoundTrip_iff_sizesLeft_two :
    ∃ next back, (oneItemConversion 2).run = some next ∧
      next 1 = some back ∧ back.itemSize = 2 ∧ ArrayHolds back [[7, 8]] := by
  apply (arrayRoundTrip_iff_sizesLeft (oneItemConversion 2)
    { hmArrayInit 2 with
      buf := some [7, 8]
      nItems := 1
      nItemsAlloc := 1 } (hmArrayInit 2) [[7, 8]] ?_).mpr
  · refine ⟨?_, by decide⟩
    intro index _
    rfl
  · exact
      { stored := rfl
        holds :=
          { withinAlloc := Nat.le_refl 1
            covers := fun _ => ⟨_, rfl, Nat.le_refl 2⟩
            items_eq := rfl }
        countFits := by decide
        bytesFit := by decide
        destStored := rfl
        destHolds :=
          arrayHolds_unallocated rfl rfl
        sameSize := rfl
        listHolds := listHolds_init (Or.inl rfl) _
        news :=
          { unused := fun _ _ _ _ => rfl
            distinct := by decide }
        newArrFree := rfl
        mallocs := fun _ => rfl
        reallocsNew := fun _ => rfl
        reallocs := fun _ => rfl }

/-- With another data size left in memory the calls read past a block. -/
theorem not_arrayRoundTrip_zero :
    ¬∃ next back, (oneItemConversion 0).run = some next ∧
      next 1 = some back ∧ back.itemSize = 2 ∧ ArrayHolds back [[7, 8]] := by
  rintro ⟨next, back, ran, _⟩
  have blocked : (oneItemConversion 0).run = none := rfl
  rw [blocked] at ran
  cases ran

end Hiemal
