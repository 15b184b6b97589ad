import Hiemal.Common.Contents

/-!
# Runs of array operations

A family of arrays holds a sequence of items each. Every operation that gets the
memory it asks for is served as by the sequences, and after every operation
`hm_array_at` finds each item.
-/

namespace Hiemal

open Foundation

/-! ## The data of a list -/

/-- The bytes behind the head of a node. -/
def ListMemory.dataOf (m : ListMemory) (node : NodeAddress) : List UInt8 :=
  ((m.nodes node).map HmListNode.data).getD []

/-- How many of them the node says are its data. -/
def ListMemory.dataSizeOf (m : ListMemory) (node : NodeAddress) : Nat :=
  ((m.nodes node).map HmListNode.dataSize).getD 0

section Gathering

variable {m : ListMemory} {nodes : List NodeAddress}

/-- One entry of the two arrays is filled. -/
theorem set_append_replicate
    {α : Type*}
    (done : List α)
    (count : Nat)
    (fill value : α) :
    (done ++ List.replicate (count + 1) fill).set done.length value =
      done ++ [value] ++ List.replicate count fill := by
  rw [List.replicate_succ, List.set_append_right _ _ (Nat.le_refl _),
    Nat.sub_self, List.set_cons_zero, List.append_assoc, List.singleton_append]

/-- Step of the iteration: the next entry is filled. -/
theorem getListData_filled
    (content : HmListNode)
    (count : Nat)
    {data : List (Option (List UInt8))}
    {sizes : List Nat}
    (same : sizes.length = data.length)
    (counted : data.length + 1 < 2 ^ 31) :
    getListData content
        { listData := data ++ List.replicate (count + 1) none
          listDataLen := sizes ++ List.replicate (count + 1) 0
          itr := data.length } =
      some
        { listData := data ++ [some content.data] ++ List.replicate count none
          listDataLen := sizes ++ [content.dataSize] ++ List.replicate count 0
          itr := data.length + 1 } := by
  have room :
      data.length <
          (data ++
            List.replicate (count + 1) (none : Option (List UInt8))).length ∧
        data.length < (sizes ++ List.replicate (count + 1) 0).length ∧
        data.length + 1 < 2 ^ 31 := by
    simp only [List.length_append, List.length_replicate]
    omega
  rw [getListData, if_pos room]
  simp only [set_append_replicate]
  rw [← same, set_append_replicate]

/-- Run of the iteration: it notes the data and the data size of every node, in order. -/
theorem hmListItrUserdata_getListData
    {prev first : Option NodeAddress}
    (segment : Segment m.links prev first nodes none)
    {fuel : Nat}
    (enough : nodes.length ≤ fuel)
    (data : List (Option (List UInt8)))
    (sizes : List Nat)
    (same : sizes.length = data.length)
    (counted : data.length + nodes.length < 2 ^ 31) :
    hmListItrUserdata getListData m fuel first
        { listData := data ++ List.replicate nodes.length none
          listDataLen := sizes ++ List.replicate nodes.length 0
          itr := data.length } =
      some
        { listData := data ++ nodes.map fun node => some (m.dataOf node)
          listDataLen := sizes ++ nodes.map m.dataSizeOf
          itr := data.length + nodes.length } := by
  induction nodes generalizing prev first fuel data sizes with
  | nil =>
      obtain rfl : first = none := segment
      cases fuel <;> rfl
  | cons node nodes inductionHypothesis =>
      obtain ⟨rfl, next, links, rest⟩ := segment
      obtain ⟨content, stored, _, next_eq⟩ := links_eq_some links
      simp only at next_eq
      obtain ⟨fuel, rfl⟩ : ∃ more, fuel = more + 1 :=
        Nat.exists_eq_succ_of_ne_zero (by rw [List.length_cons] at enough; omega)
      have fuelEnough : nodes.length ≤ fuel := Nat.le_of_succ_le_succ enough
      have dataIs : m.dataOf node = content.data := by
        rw [ListMemory.dataOf, stored, Option.map_some, Option.getD_some]
      have sizeIs : m.dataSizeOf node = content.dataSize := by
        rw [ListMemory.dataSizeOf, stored, Option.map_some, Option.getD_some]
      have noted :=
        inductionHypothesis rest fuelEnough (data ++ [some content.data])
          (sizes ++ [content.dataSize]) (by simp [same]) (by
            simp only [List.length_append, List.length_cons, List.length_nil]
              at counted ⊢
            omega)
      have first : data.length + 1 < 2 ^ 31 := by
        rw [List.length_cons] at counted
        omega
      rw [List.length_append, List.length_singleton] at noted
      simp only [hmListItrUserdata, stored, List.length_cons,
        getListData_filled content nodes.length same first, next_eq, noted,
        Option.bind_eq_bind, Option.bind_some]
      simp [dataIs, sizeIs, Nat.add_assoc, Nat.add_comm 1]

/-- With too many nodes for the counter, the iteration does not return. -/
theorem hmListItrUserdata_overflows
    {prev first : Option NodeAddress}
    (segment : Segment m.links prev first nodes none)
    (fuel : Nat)
    (data : ListData)
    (counted : data.itr < 2 ^ 31)
    (long : 2 ^ 31 ≤ data.itr + nodes.length) :
    hmListItrUserdata getListData m fuel first data = none := by
  induction nodes generalizing prev first fuel data with
  | nil =>
      rw [List.length_nil] at long
      omega
  | cons node nodes inductionHypothesis =>
      obtain ⟨rfl, next, links, rest⟩ := segment
      obtain ⟨content, stored, _, next_eq⟩ := links_eq_some links
      simp only at next_eq
      rw [List.length_cons] at long
      cases fuel with
      | zero => rfl
      | succ fuel =>
          simp only [hmListItrUserdata, stored, Option.bind_eq_bind,
            Option.bind_some, getListData]
          split_ifs with room
          · rw [Option.bind_some, next_eq]
            apply inductionHypothesis rest fuel _ room.2.2
            show 2 ^ 31 ≤ data.itr + 1 + nodes.length
            omega
          · rfl

theorem foldl_u64sum
    {buf : List Nat}
    {res : Nat}
    (small : res + buf.sum < 2 ^ 64) :
    buf.foldl (fun res value => toUnsigned 64 (res + value : Nat)) res =
      res + buf.sum := by
  induction buf generalizing res with
  | nil => rfl
  | cons value buf inductionHypothesis =>
      rw [List.sum_cons] at small ⊢
      rw [List.foldl_cons, toUnsigned_of_lt 64 (by omega),
        inductionHypothesis (by omega), Nat.add_assoc]

theorem u64sum_eq
    {buf : List Nat}
    (small : buf.sum < 2 ^ 64) :
    u64sum buf = buf.sum := by
  rw [u64sum, foldl_u64sum (by omega), Nat.zero_add]

/-- The data are stored one after the other. -/
theorem copyListData_returns
    {pairs : List (Option (List UInt8) × Nat)}
    (enough : ∀ pair ∈ pairs, ∃ src, pair.1 = some src ∧ pair.2 ≤ src.length)
    {offset : Nat}
    {block : List UInt8}
    (fits : offset + (pairs.map Prod.snd).sum ≤ block.length)
    (small : block.length < 2 ^ 64) :
    copyListData pairs offset (some block) =
      some (some (store block offset
        (pairs.flatMap fun pair => (pair.1.getD []).take pair.2))) := by
  induction pairs generalizing offset block with
  | nil => rw [List.flatMap_nil, store_nil, copyListData]
  | cons pair pairs inductionHypothesis =>
      obtain ⟨data, size⟩ := pair
      rw [List.forall_mem_cons] at enough
      rw [List.map_cons, List.sum_cons] at fits
      obtain ⟨⟨src, rfl, within⟩, enough⟩ := enough
      simp only at within fits
      have length : (src.take size).length = size :=
        List.length_take_of_le within
      have total :
          (pairs.flatMap fun pair => (pair.1.getD []).take pair.2).length =
            (pairs.map Prod.snd).sum := by
        rw [List.length_flatMap]
        congr 1
        apply List.map_congr_left
        intro pair member
        obtain ⟨src, known, within⟩ := enough pair member
        rw [known, Option.getD_some, List.length_take_of_le within]
      have next : toUnsigned 64 ((offset + size : Nat) : Int) = offset + size :=
        toUnsigned_of_lt 64 (by omega)
      rw [copyListData, xmemcpy, if_pos ⟨by omega, by omega⟩]
      simp only [Option.bind_eq_bind, Option.bind_some, Option.some_or, next,
        load_zero]
      rw [inductionHypothesis enough (by rw [length_store]; omega)
        (by rw [length_store]; exact small), List.flatMap_cons, Option.getD_some,
        store_append (by rw [length, total]; omega), length]

end Gathering

/-- The data of a node. -/
def ListMemory.itemAt (m : ListMemory) (node : NodeAddress) : Item :=
  (m.dataOf node).take (m.dataSizeOf node)

/-- The data of a list, in order. -/
def listItems (list : ListMemory) : List Item :=
  (linkedNodes list).map list.itemAt

/-! ## Appending the data of a list -/

/-- What is left of the items of an array that the data of a list are copied to. -/
def keptItems (flags : Nat) (items : List Item) : List Item :=
  if hmFlagSet flags copyOverwrite then [] else items

/-- The array that the data of a list are appended to. -/
def HmArray.overwritten (a : HmArray) (flags : Nat) : HmArray :=
  if hmFlagSet flags copyOverwrite then
    { a with buf := none, nItems := 0, nItemsAlloc := 0 }
  else a

theorem keptItems_nil (flags : Nat) : keptItems flags [] = [] :=
  ite_self []

section Appending

variable {m : ArrayMemory} {arr : ArrayAddress} {a : HmArray}
variable {list : ListMemory} {nodes shown : List NodeAddress}
variable {items : List Item}

theorem itemSize_overwritten (a : HmArray) (flags : Nat) :
    (a.overwritten flags).itemSize = a.itemSize := by
  unfold HmArray.overwritten
  split <;> rfl

theorem ArrayHolds.overwritten
    (holds : ArrayHolds a items)
    (flags : Nat) :
    ArrayHolds (a.overwritten flags) (keptItems flags items) := by
  unfold HmArray.overwritten keptItems
  split
  · exact arrayHolds_unallocated rfl rfl
  · exact holds

/-- The data of the nodes, as far as they are there. -/
theorem length_flatten_itemAt
    (within : ∀ node ∈ nodes,
      list.dataSizeOf node ≤ (list.dataOf node).length) :
    (nodes.map list.itemAt).flatten.length =
      (nodes.map list.dataSizeOf).sum := by
  rw [List.length_flatten, List.map_map]
  congr 1
  apply List.map_congr_left
  intro node member
  exact List.length_take_of_le (within node member)

/-- The data of the nodes are put together. -/
theorem copyListData_nodes
    (within : ∀ node ∈ nodes,
      list.dataSizeOf node ≤ (list.dataOf node).length)
    (small : (nodes.map list.dataSizeOf).sum < 2 ^ 64)
    (fresh : Nat → UInt8) :
    copyListData
        (nodes.map fun node => (some (list.dataOf node), list.dataSizeOf node))
        0 (some (resize [] (nodes.map list.dataSizeOf).sum fresh)) =
      some (some (nodes.map list.itemAt).flatten) := by
  have length := length_flatten_itemAt within
  rw [copyListData_returns]
  · rw [List.flatMap_map, List.flatMap_def]
    exact congrArg (some ∘ some) (store_resize_nil length fresh)
  · rw [List.forall_mem_map]
    exact fun node member => ⟨_, rfl, within node member⟩
  · rw [List.map_map, length_resize, Nat.zero_add]
    rfl
  · rw [length_resize]
    exact small

section Sized

variable {size : Nat}
variable
  (sizes : ∀ node ∈ nodes,
    list.dataSizeOf node = size ∧ size ≤ (list.dataOf node).length)

include sizes

theorem sum_dataSizeOf :
    (nodes.map list.dataSizeOf).sum = nodes.length * size := by
  have same : nodes.map list.dataSizeOf = List.replicate nodes.length size := by
    apply List.eq_replicate_iff.mpr
    refine ⟨List.length_map _, ?_⟩
    rw [List.forall_mem_map]
    exact fun node member => (sizes node member).1
  rw [same, List.sum_replicate_nat]

theorem length_itemAt : ∀ item ∈ nodes.map list.itemAt, item.length = size := by
  rw [List.forall_mem_map]
  intro node member
  obtain ⟨isSize, enough⟩ := sizes node member
  rw [ListMemory.itemAt, isSize, List.length_take_of_le enough]

/-- Data of one size fill the block that is allocated for as many. -/
theorem copyListData_items
    {allocation : Allocation}
    (gathers : Allocates allocation (nodes.length * size)) :
    copyListData
          (nodes.map fun node => (some (list.dataOf node), list.dataSizeOf node))
          0 (reallocate allocation none (nodes.length * size)) =
        some (some (nodes.map list.itemAt).flatten) ∧
      (nodes.map list.itemAt).flatten.length = nodes.length * size := by
  have sum := sum_dataSizeOf sizes
  have within : ∀ node ∈ nodes,
      list.dataSizeOf node ≤ (list.dataOf node).length := by
    intro node member
    obtain ⟨isSize, enough⟩ := sizes node member
    exact isSize.le.trans enough
  obtain ⟨fresh, allocated⟩ := reallocate_eq_some gathers none
  constructor
  · rw [allocated, Option.getD_none, ← sum]
    apply copyListData_nodes within
    rw [sum]
    exact gathers.1
  · rw [length_flatten_itemAt within, sum]

end Sized

/-- `hm_array_copy_list` on a list: the data of its nodes are put together, and
appended as so many items as there are nodes. -/
theorem hmArrayCopyList_eq
    (stored : m arr = some a)
    (listHolds : ListHolds list nodes shown)
    (counted : nodes.length < 2 ^ 31)
    (allocations : CopyListAllocations)
    (flags : Nat) :
    hmArrayCopyList allocations m arr list flags =
      (do
        let newArrLen := u64sum (nodes.map list.dataSizeOf)
        let newArrData ←
          copyListData
            (nodes.map fun node => (some (list.dataOf node), list.dataSizeOf node))
            0 (reallocate allocations.malloc none newArrLen)
        let (m, _) ←
          hmArrayConcatRaw allocations.reallocNew allocations.realloc
            allocations.newArr
            (Function.update m arr (some (a.overwritten flags))) arr newArrData
            nodes.length
        return (m, 0)) := by
  have cleared :
      (if hmFlagSet flags copyOverwrite then hmArrayClear m arr
        else some (m, 0)) =
        some (Function.update m arr (some (a.overwritten flags)), 0) := by
    unfold HmArray.overwritten
    split
    · simp only [hmArrayClear, stored, Option.bind_eq_bind, Option.bind_some,
        pure]
    · rw [← stored, Function.update_eq_self]
  have noted :=
    hmListItrUserdata_getListData listHolds.chain.linked
      (Nat.le_succ nodes.length) [] [] rfl
      (by rw [List.length_nil, Nat.zero_add]; exact counted)
  simp only [List.nil_append, List.length_nil, Nat.zero_add] at noted
  simp only [hmArrayCopyList, cleared, listHolds.count, noted,
    List.zip_map', Option.bind_eq_bind, Option.bind_some]

/-- The data of a list with too many nodes for the counter are not put together. -/
theorem hmArrayCopyList_overflows
    (listHolds : ListHolds list nodes shown)
    (long : 2 ^ 31 ≤ nodes.length)
    (allocations : CopyListAllocations)
    (m : ArrayMemory)
    (arr : ArrayAddress)
    (flags : Nat) :
    hmArrayCopyList allocations m arr list flags = none := by
  rw [hmArrayCopyList, Option.bind_eq_bind, Option.bind_eq_none_iff]
  intro output _
  have overflows := hmListItrUserdata_overflows listHolds.chain.linked
    (list.list.nItems + 1)
    { listData := List.replicate list.list.nItems none
      listDataLen := List.replicate list.list.nItems 0
      itr := 0 } (Nat.two_pow_pos 31) (by
        show 2 ^ 31 ≤ 0 + nodes.length
        omega)
  simp only [overflows, Option.bind_eq_bind, Option.bind_none]

/-- When the data of all nodes have the size of an item, they are appended. -/
theorem ArrayHolds.hmArrayCopyList
    (holds : ArrayHolds a items)
    (stored : m arr = some a)
    (listHolds : ListHolds list nodes shown)
    (counted : nodes.length < 2 ^ 31)
    (sizes : ∀ node ∈ nodes,
      list.dataSizeOf node = a.itemSize ∧
        a.itemSize ≤ (list.dataOf node).length)
    {allocations : CopyListAllocations}
    {flags : Nat}
    (free : m allocations.newArr = none)
    (small : (a.overwritten flags).nItems + nodes.length < 2 ^ 32)
    (gathers : Allocates allocations.malloc (nodes.length * a.itemSize))
    (newGrows :
      (hmArrayInit a.itemSize).Grows nodes.length allocations.reallocNew)
    (grows :
      (a.overwritten flags).Grows
        ((a.overwritten flags).nItems + nodes.length) allocations.realloc) :
    ∃ next,
      Hiemal.hmArrayCopyList allocations m arr list flags =
          some (Function.update m arr (some next), 0) ∧
        ArrayHolds next (keptItems flags items ++ nodes.map list.itemAt) ∧
          next.itemSize = a.itemSize := by
  have sum := sum_dataSizeOf sizes
  obtain ⟨gathered, whole⟩ := copyListData_items sizes gathers
  rw [hmArrayCopyList_eq stored listHolds counted, u64sum_eq (by rw [sum]; exact gathers.1),
    sum]
  simp only [gathered, Option.bind_eq_bind, Option.bind_some]
  have stored' :
      Function.update m arr (some (a.overwritten flags)) arr =
        some (a.overwritten flags) := Function.update_self ..
  have free' :
      Function.update m arr (some (a.overwritten flags)) allocations.newArr =
        none := by
    rw [Function.update_of_ne, free]
    rintro same
    rw [same, stored] at free
    cases free
  have supplies :
      Supplies (some (nodes.map list.itemAt).flatten) nodes.length
        (a.overwritten flags).itemSize := by
    rw [itemSize_overwritten]
    exact fun _ => ⟨_, rfl, whole.ge⟩
  rw [← itemSize_overwritten a flags] at newGrows
  obtain ⟨next, returned, nextHolds, size⟩ :=
    (holds.overwritten flags).hmArrayConcatRaw stored' free' small newGrows grows
      supplies
  refine ⟨next, ?_, ?_, size.trans (itemSize_overwritten a flags)⟩
  · rw [returned, Option.bind_some, Function.update_idem]
    rfl
  · rw [Option.getD_some, itemSize_overwritten] at nextHolds
    have cut := pieces_flatten (length_itemAt sizes)
    rw [List.length_map] at cut
    rw [← cut]
    exact nextHolds

end Appending

/-! ## Sequences of operations -/

/-- What a client does with its arrays. -/
inductive HmArrayOp
  /-- `hm_array_resize(arr, n_items)`. -/
  | resize (arr : ArrayAddress) (nItems : Nat) (realloc : Allocation)
  /-- `hm_array_copy_raw(arr, buf, n_items)`. -/
  | copyRaw
      (arr : ArrayAddress) (buf : Option (List UInt8)) (nItems : Nat)
      (realloc : Allocation)
  /-- `hm_array_concat(arr1, arr2)`. -/
  | concat (arr1 arr2 : ArrayAddress) (realloc : Allocation)
  /-- `hm_array_concat_raw(arr, data, n_items)`; `malloc` returns `newArr`. -/
  | concatRaw
      (arr : ArrayAddress) (data : Option (List UInt8)) (nItems : Nat)
      (newArr : ArrayAddress) (reallocNew realloc : Allocation)
  /-- `hm_array_copy_list(arr, list, flags)`. -/
  | copyList
      (arr : ArrayAddress) (list : ListMemory) (flags : Nat)
      (allocations : CopyListAllocations)
  /-- `hm_array_clear(arr)`. -/
  | clear (arr : ArrayAddress)

/-- Execute one operation, with the memory and the returned code as its output. -/
def hmArrayStep
    (m : ArrayMemory)
    (op : HmArrayOp) : Option (ArrayMemory × (ArrayMemory × Int)) :=
  let result :=
    match op with
    | .resize arr nItems realloc => hmArrayResize realloc m arr nItems
    | .copyRaw arr buf nItems realloc => hmArrayCopyRaw realloc m arr buf nItems
    | .concat arr1 arr2 realloc => hmArrayConcat realloc m arr1 arr2
    | .concatRaw arr data nItems newArr reallocNew realloc =>
        hmArrayConcatRaw reallocNew realloc newArr m arr data nItems
    | .copyList arr list flags allocations =>
        hmArrayCopyList allocations m arr list flags
    | .clear arr => hmArrayClear m arr
  result.map fun output => (output.1, output)

/-- The client's side of an operation: its arrays are allocated, the data it hands
over are there, the nodes of its plain list have data of the size of an item, and
no count reaches `2 ^ 32`; and the allocations succeed. -/
def HmArrayOp.Admissible (m : ArrayMemory) : HmArrayOp → Prop
  | .resize arr nItems realloc =>
      ∃ a, m arr = some a ∧ a.Grows nItems realloc
  | .copyRaw arr buf nItems realloc =>
      ∃ a, m arr = some a ∧ Supplies buf nItems a.itemSize ∧
        a.Grows nItems realloc
  | .concat arr1 arr2 realloc =>
      ∃ a1 a2, m arr1 = some a1 ∧ m arr2 = some a2 ∧
        a1.itemSize = a2.itemSize ∧ a1.nItems + a2.nItems < 2 ^ 32 ∧
          a1.Grows (a1.nItems + a2.nItems) realloc
  | .concatRaw arr data nItems newArr reallocNew realloc =>
      ∃ a, m arr = some a ∧ m newArr = none ∧
        Supplies data nItems a.itemSize ∧ a.nItems + nItems < 2 ^ 32 ∧
          (hmArrayInit a.itemSize).Grows nItems reallocNew ∧
            a.Grows (a.nItems + nItems) realloc
  | .copyList arr list flags allocations =>
      ∃ a, m arr = some a ∧ m allocations.newArr = none ∧
        PlainList list a.itemSize ∧
          Appends (a.overwritten flags) list.list.nItems allocations
  | .clear arr => (m arr).isSome
where
  PlainList (list : ListMemory) (itemSize : Nat) : Prop :=
    hmSubtypeId list.list.magic = 0 ∧
      (∃ nodes shown, ListHolds list nodes shown) ∧
        ∀ node ∈ linkedNodes list, list.dataSizeOf node = itemSize ∧
          itemSize ≤ (list.dataOf node).length
  Appends (a : HmArray) (nItems : Nat) (allocations : CopyListAllocations) :
      Prop :=
    a.nItems + nItems < 2 ^ 32 ∧
      Allocates allocations.malloc (nItems * a.itemSize) ∧
        (hmArrayInit a.itemSize).Grows nItems allocations.reallocNew ∧
          a.Grows (a.nItems + nItems) allocations.realloc

/-- The operation on the sequences, for arrays of the given item sizes: replace,
append, append the data of the list. -/
def HmArrayOp.serve
    (itemSizes : ArrayAddress → Nat)
    (contents : ArrayAddress → List Item) :
    HmArrayOp → ArrayAddress → List Item
  | .resize _ _ _ => contents
  | .copyRaw arr buf nItems _ =>
      Function.update contents arr (pieces (itemSizes arr) nItems (buf.getD []))
  | .concat arr1 arr2 _ =>
      Function.update contents arr1 (contents arr1 ++ contents arr2)
  | .concatRaw arr data nItems _ _ _ =>
      Function.update contents arr
        (contents arr ++ pieces (itemSizes arr) nItems (data.getD []))
  | .copyList arr list flags _ =>
      Function.update contents arr
        (keptItems flags (contents arr) ++ listItems list)
  | .clear arr => Function.update contents arr []

def contentsStep
    (itemSizes : ArrayAddress → Nat)
    (contents : ArrayAddress → List Item)
    (op : HmArrayOp) :
    (ArrayAddress → List Item) × (ArrayAddress → List Item) :=
  (op.serve itemSizes contents, op.serve itemSizes contents)

/-- An array shows its client a sequence of items: the counts are right, the block
covers what is counted allocated, and `hm_array_at` finds each item and no more. -/
structure ArrayServes
    (m : ArrayMemory)
    (arr : ArrayAddress)
    (a : HmArray)
    (items : List Item) : Prop where
  count : a.nItems = items.length
  withinAlloc : a.nItems ≤ a.nItemsAlloc
  covers :
    0 < a.nItemsAlloc →
      ∃ block, a.buf = some block ∧ a.nItemsAlloc * a.itemSize ≤ block.length
  at_eq : ∀ index < a.nItems, ∃ offset block,
    hmArrayAt m arr index = some (some offset) ∧ a.buf = some block ∧
      offset + a.itemSize ≤ block.length ∧
        items[index]? = some (load block offset a.itemSize)
  at_past : ∀ index, a.nItems ≤ index → hmArrayAt m arr index = some none

/-- An operation succeeds, the arrays are those there were at the start, and every
one of them shows its sequence. -/
structure ArraysServe
    (start : ArrayMemory)
    (output : ArrayMemory × Int)
    (contents : ArrayAddress → List Item) : Prop where
  rc_eq : output.2 = 0
  allocated : ∀ arr, (output.1 arr).isSome ↔ (start arr).isSome
  shows : ∀ arr a, output.1 arr = some a →
    ArrayServes output.1 arr a (contents arr)

/-- The arrays in memory are those there were at the start, and every one of them
holds its sequence and has its item size. -/
structure ArraysHold
    (itemSizes : ArrayAddress → Nat)
    (start m : ArrayMemory)
    (contents : ArrayAddress → List Item) : Prop where
  allocated : ∀ arr, (m arr).isSome ↔ (start arr).isSome
  holds : ∀ arr a, m arr = some a →
    ArrayHolds a (contents arr) ∧ a.itemSize = itemSizes arr

/-- The list of an operation, if it has one, is short enough for an `int` to count
its nodes. -/
def HmArrayOp.Counted : HmArrayOp → Prop
  | .copyList _ list _ _ => list.list.nItems < 2 ^ 31
  | _ => True

/-! ## Runs -/

section Runs

variable {itemSizes : ArrayAddress → Nat} {start m : ArrayMemory}
variable {contents : ArrayAddress → List Item} {arr : ArrayAddress}
variable {a : HmArray} {items : List Item}

/-- What an array holds is what its client sees. -/
theorem ArrayHolds.arrayServes
    (holds : ArrayHolds a items)
    (stored : m arr = some a) :
    ArrayServes m arr a items where
  count := holds.count.symm
  withinAlloc := holds.withinAlloc
  covers := holds.covers
  at_eq := by
    intro index inRange
    obtain ⟨block, known, fits⟩ := holds.item_fits inRange
    refine ⟨index * a.itemSize, block, ?_, known, fits, ?_⟩
    · simp [hmArrayAt, stored, inRange]
    · rw [← holds.items_eq, known, Option.getD_some, getElem?_pieces inRange]
  at_past := by
    intro index past
    simp [hmArrayAt, stored, Nat.not_lt.mpr past]

theorem ArraysHold.arraysServe
    (holds : ArraysHold itemSizes start m contents) :
    ArraysServe start (m, 0) contents where
  rc_eq := rfl
  allocated := holds.allocated
  shows := fun arr a stored => (holds.holds arr a stored).1.arrayServes stored

/-- One array is changed. -/
theorem ArraysHold.update
    (holds : ArraysHold itemSizes start m contents)
    (stored : (m arr).isSome)
    (changed : ArrayHolds a items)
    (size : a.itemSize = itemSizes arr) :
    ArraysHold itemSizes start (Function.update m arr (some a))
      (Function.update contents arr items) where
  allocated := by
    intro other
    by_cases same : other = arr
    · subst same
      rw [Function.update_self, ← holds.allocated]
      exact iff_of_true rfl stored
    · rw [Function.update_of_ne same]
      exact holds.allocated other
  holds := by
    intro other b storedOther
    by_cases same : other = arr
    · subst same
      rw [Function.update_self, Option.some.injEq] at storedOther
      subst storedOther
      rw [Function.update_self]
      exact ⟨changed, size⟩
    · rw [Function.update_of_ne same] at storedOther ⊢
      exact holds.holds other b storedOther

/-- Step lemma of the refinement. -/
theorem hmArrayStep_serves
    (m : ArrayMemory)
    (contents : ArrayAddress → List Item)
    (op : HmArrayOp)
    (related : ArraysHold itemSizes start m contents)
    (admitted : op.Admissible m ∧ op.Counted) :
    ∃ next output, hmArrayStep m op = some (next, output) ∧
      ArraysHold itemSizes start next (contentsStep itemSizes contents op).1 ∧
        ArraysServe start output (contentsStep itemSizes contents op).2 := by
  obtain ⟨admissible, counted⟩ := admitted
  obtain ⟨next, returns, nextHolds⟩ :
      ∃ next, hmArrayStep m op = some (next, next, 0) ∧
        ArraysHold itemSizes start next (op.serve itemSizes contents) := by
    cases op with
    | resize arr nItems realloc =>
        obtain ⟨a, stored, grows⟩ := admissible
        obtain ⟨holds, size⟩ := related.holds arr a stored
        obtain ⟨next, returned, nextHolds, _, nextSize⟩ :=
          holds.hmArrayResize stored grows
        refine ⟨Function.update m arr (some next),
          by simp [hmArrayStep, returned], ?_⟩
        have updated := related.update (Option.isSome_of_eq_some stored) nextHolds (nextSize.trans size)
        rw [Function.update_eq_self] at updated
        exact updated
    | copyRaw arr buf nItems realloc =>
        obtain ⟨a, stored, supplies, grows⟩ := admissible
        obtain ⟨holds, size⟩ := related.holds arr a stored
        obtain ⟨next, returned, nextHolds, nextSize⟩ :=
          holds.hmArrayCopyRaw stored grows supplies
        refine ⟨Function.update m arr (some next),
          by simp [hmArrayStep, returned], ?_⟩
        rw [size] at nextHolds
        exact related.update (Option.isSome_of_eq_some stored) nextHolds (nextSize.trans size)
    | concat arr1 arr2 realloc =>
        obtain ⟨a1, a2, stored1, stored2, sameSize, small, grows⟩ := admissible
        obtain ⟨holds1, size⟩ := related.holds arr1 a1 stored1
        obtain ⟨holds2, _⟩ := related.holds arr2 a2 stored2
        obtain ⟨next, returned, nextHolds, nextSize⟩ :=
          holds1.hmArrayConcat stored1 holds2 stored2 sameSize small grows
        refine ⟨Function.update m arr1 (some next),
          by simp [hmArrayStep, returned], ?_⟩
        exact related.update (Option.isSome_of_eq_some stored1) nextHolds (nextSize.trans size)
    | concatRaw arr data nItems newArr reallocNew realloc =>
        obtain ⟨a, stored, free, supplies, small, newGrows, grows⟩ := admissible
        obtain ⟨holds, size⟩ := related.holds arr a stored
        obtain ⟨next, returned, nextHolds, nextSize⟩ :=
          holds.hmArrayConcatRaw stored free small newGrows grows supplies
        refine ⟨Function.update m arr (some next),
          by simp [hmArrayStep, returned], ?_⟩
        rw [size] at nextHolds
        exact related.update (Option.isSome_of_eq_some stored) nextHolds (nextSize.trans size)
    | copyList arr list flags allocations =>
        obtain ⟨a, stored, free, ⟨_, ⟨nodes, shown, listHolds⟩, sizes⟩, small,
          gathers, newGrows, grows⟩ := admissible
        obtain ⟨holds, size⟩ := related.holds arr a stored
        rw [listHolds.linkedNodes_eq] at sizes
        rw [itemSize_overwritten] at gathers newGrows
        rw [listHolds.count] at small gathers newGrows grows
        have few : nodes.length < 2 ^ 31 := by
          rw [← listHolds.count]
          exact counted
        obtain ⟨next, returned, nextHolds, nextSize⟩ :=
          holds.hmArrayCopyList stored listHolds few sizes free small gathers
            newGrows grows
        refine ⟨Function.update m arr (some next),
          by simp [hmArrayStep, returned], ?_⟩
        rw [← listHolds.linkedNodes_eq] at nextHolds
        exact related.update (Option.isSome_of_eq_some stored) nextHolds (nextSize.trans size)
    | clear arr =>
        obtain ⟨a, stored⟩ := Option.isSome_iff_exists.mp admissible
        obtain ⟨_, size⟩ := related.holds arr a stored
        obtain ⟨next, returned, nextHolds, nextSize⟩ :=
          ArrayHolds.hmArrayClear stored
        refine ⟨Function.update m arr (some next),
          by simp [hmArrayStep, returned], ?_⟩
        exact related.update admissible nextHolds (nextSize.trans size)
  exact ⟨next, (next, 0), returns, nextHolds, nextHolds.arraysServe⟩

/-- An operation that returns has counted the nodes of its list. -/
theorem hmArrayStep_counts
    (m : ArrayMemory)
    (op : HmArrayOp)
    (admissible : op.Admissible m)
    (returns : (hmArrayStep m op).isSome) :
    op.Counted := by
  cases op with
  | copyList arr list flags allocations =>
      obtain ⟨_, _, _, ⟨_, ⟨nodes, shown, listHolds⟩, _⟩, _⟩ := admissible
      by_contra long
      rw [HmArrayOp.Counted, listHolds.count, Nat.not_lt] at long
      rw [hmArrayStep, hmArrayCopyList_overflows listHolds long] at returns
      cases returns
  | resize arr nItems realloc => trivial
  | copyRaw arr buf nItems realloc => trivial
  | concat arr1 arr2 realloc => trivial
  | concatRaw arr data nItems newArr reallocNew realloc => trivial
  | clear arr => trivial

end Runs

/-- A sequence of operations on new arrays, also with a block already attached, is
served as by sequences of items exactly if the nodes of every list that is copied can
be counted. -/
theorem hmArray_refines_sequences_iff
    (itemSizes : ArrayAddress → Nat)
    (m : ArrayMemory)
    (new : ∀ arr a, m arr = some a →
      ∃ buf, a = { hmArrayInit (itemSizes arr) with buf := buf })
    (ops : List HmArrayOp)
    (admissible : AlongRun hmArrayStep (fun m op => op.Admissible m) m ops) :
    (∃ final outputs, runSteps hmArrayStep m ops = some (final, outputs) ∧
        List.Forall₂ (ArraysServe m) outputs
          (runTotal (contentsStep itemSizes) (fun _ => []) ops).2) ↔
      ∀ op ∈ ops, op.Counted := by
  constructor
  · rintro ⟨final, outputs, ran, _⟩
    exact admissible.forall_of_returns hmArrayStep_counts
      (Option.isSome_of_eq_some ran)
  · intro counted
    have start : ArraysHold itemSizes m m fun _ => [] :=
      { allocated := fun _ => Iff.rfl
        holds := by
          intro arr a stored
          obtain ⟨buf, rfl⟩ := new arr a stored
          exact ⟨arrayHolds_unallocated rfl rfl, rfl⟩ }
    obtain ⟨final, outputs, ran, _, serves⟩ :=
      runSteps_simulates_along hmArrayStep_serves ops m (fun _ => []) start
        (admissible.and (alongRun_of_forall counted m))
    exact ⟨final, outputs, ran, serves⟩

/-- An allocator that serves every request, with cleared memory. -/
def cleared : Allocation := fun _ => some fun _ => 0

/-- Two arrays of items of two bytes. -/
def evenArrays : ArrayMemory :=
  fun arr => if arr < 2 then some (hmArrayInit 2) else none

theorem new_evenArrays (arr : ArrayAddress) (a : HmArray)
    (stored : evenArrays arr = some a) :
    ∃ buf, a = { hmArrayInit 2 with buf := buf } := by
  unfold evenArrays at stored
  split_ifs at stored
  exact ⟨none, (Option.some.inj stored).symm⟩

/-- The refinement on two arrays of items of two bytes: a copy, an array appended
to itself, and the data of a list of three nodes. -/
theorem hmArray_refines_sequences_iff_concat_self :
    ∃ final outputs,
      runSteps hmArrayStep evenArrays
          [.copyRaw 0 (some [1, 2, 3, 4]) 2 cleared, .concat 0 0 cleared,
            .copyList 0 (evenList 3) 0 ⟨cleared, 2, cleared, cleared⟩] =
          some (final, outputs) ∧
        List.Forall₂ (ArraysServe evenArrays) outputs
          (runTotal (contentsStep fun _ => 2) (fun _ => [])
            [.copyRaw 0 (some [1, 2, 3, 4]) 2 cleared, .concat 0 0 cleared,
              .copyList 0 (evenList 3) 0 ⟨cleared, 2, cleared, cleared⟩]).2 := by
  apply (hmArray_refines_sequences_iff (fun _ => 2) evenArrays new_evenArrays _
    ?_).mpr
  · rintro op (_ | ⟨_, _ | ⟨_, _ | ⟨_, member⟩⟩⟩)
    · trivial
    · trivial
    · show 3 < 2 ^ 31
      decide
    · cases member
  · refine (alongRun_cons_some rfl).mp ⟨?_, (alongRun_cons_some rfl).mp
      ⟨?_, (alongRun_cons_some rfl).mp ⟨?_, trivial⟩⟩⟩
    · exact ⟨_, rfl, fun _ => ⟨_, rfl, by decide⟩, fun _ => ⟨by decide, rfl⟩⟩
    · exact ⟨_, _, rfl, rfl, rfl, by decide, fun _ => ⟨by decide, rfl⟩⟩
    · refine ⟨_, rfl, rfl, ⟨by decide, ⟨_, _, listHolds_evenList 3⟩, ?_⟩,
        by decide, ⟨by decide, rfl⟩, fun _ => ⟨by decide, rfl⟩,
        fun _ => ⟨by decide, rfl⟩⟩
      rw [(listHolds_evenList 3).linkedNodes_eq]
      decide

/-- A list of `2 ^ 31` nodes may be copied to an array, but the counter of its nodes
overflows. -/
theorem not_hmArray_refines_sequences_long :
    AlongRun hmArrayStep (fun m op => op.Admissible m) evenArrays
        [.copyList 0 (evenList (2 ^ 31)) 0 ⟨cleared, 2, cleared, cleared⟩] ∧
      ¬∃ final outputs,
        runSteps hmArrayStep evenArrays
            [.copyList 0 (evenList (2 ^ 31)) 0 ⟨cleared, 2, cleared, cleared⟩] =
            some (final, outputs) ∧
          List.Forall₂ (ArraysServe evenArrays) outputs
            (runTotal (contentsStep fun _ => 2) (fun _ => [])
              [.copyList 0 (evenList (2 ^ 31)) 0
                ⟨cleared, 2, cleared, cleared⟩]).2 := by
  have overflows := hmArrayCopyList_overflows (listHolds_evenList (2 ^ 31))
    (by rw [List.length_range]) ⟨cleared, 2, cleared, cleared⟩ evenArrays 0 0
  have blocked : hmArrayStep evenArrays
      (.copyList 0 (evenList (2 ^ 31)) 0 ⟨cleared, 2, cleared, cleared⟩) =
        none := by
    rw [hmArrayStep, overflows, Option.map_none]
  constructor
  · refine (alongRun_cons_none blocked).mp
      ⟨hmArrayInit 2, rfl, rfl, ⟨hmSubtypeId_hmListInit,
        ⟨_, _, listHolds_evenList (2 ^ 31)⟩, ?_⟩, ?_, ⟨?_, rfl⟩,
        fun _ => ⟨?_, rfl⟩, fun _ => ⟨?_, rfl⟩⟩
    · rw [(listHolds_evenList (2 ^ 31)).linkedNodes_eq]
      intro node member
      have inRange := List.mem_range.mp member
      simp only [ListMemory.dataSizeOf, ListMemory.dataOf, evenList,
        if_pos inRange, Option.map_some, Option.getD_some]
      decide
    · show 0 + 2 ^ 31 < 2 ^ 32
      decide
    · show 2 ^ 31 * 2 < 2 ^ 64
      decide
    · show 2 * 2 ^ 31 * 2 < 2 ^ 64
      decide
    · show 2 * (0 + 2 ^ 31) * 2 < 2 ^ 64
      decide
  · rintro ⟨final, outputs, ran, _⟩
    obtain ⟨next, output, rest, stepped, _⟩ := runSteps_cons_eq_some.mp ran
    rw [blocked] at stepped
    cases stepped

end Hiemal
