import Hiemal.Common.Defs
import Hiemal.Foundation.Block
import Mathlib.Logic.Function.Basic

/-!
# Arrays

Translation of the array functions of `core/common.c`, and of those that convert
between arrays and lists. Arrays are named by addresses in a memory that gives
every allocated array. An array owns the block its `buf` points to, which is given
by its bytes; what is copied into an array lies in another block, or is an array
itself. A function is `none` when it copies past the end of a block or uses an
array that is not allocated.

Counts and item sizes are `unsigned int`s, so that the product of two of them fits
a `size_t`. What an allocation returns is a parameter of the function that asks for
it; only `calloc` is taken to succeed.
-/

namespace Hiemal

open Foundation

/-- The address of an array. -/
abbrev ArrayAddress := Nat

/-- `HM_ARRAY_HEAD`. -/
structure HmArray where
  magic : Nat
  buf : Option (List UInt8)
  nItems : Nat
  nItemsAlloc : Nat
  itemSize : Nat
  deriving DecidableEq

abbrev ArrayMemory := ArrayAddress → Option HmArray

def hmArrayMagic : Nat := 0x3

/-- `HM_ARRAY_INIT` for a type of the given size, and `HM_ARRAY_INIT_LIKE` for the
item size of an array. -/
def hmArrayInit (itemSize : Nat) : HmArray where
  magic := hmArrayMagic
  buf := none
  nItems := 0
  nItemsAlloc := 0
  itemSize := itemSize

def copyOverwrite : Nat := 1 <<< 0

/-- `HM_FLAG_SET`. -/
def hmFlagSet (flags flag : Nat) : Bool :=
  flags &&& flag == flag

/-! ## Blocks of bytes -/

/-- What an allocation returns for a number of bytes: `none` is `NULL`, otherwise
what the new cells of the block hold. -/
abbrev Allocation := Nat → Option (Nat → UInt8)

/-- `realloc(block, size)`, and `malloc(size)` for the `NULL` pointer; the request is
a `size_t`. -/
def reallocate
    (allocation : Allocation)
    (block : Option (List UInt8))
    (size : Nat) : Option (List UInt8) :=
  (allocation (toUnsigned 64 size)).map
    (resize (block.getD []) (toUnsigned 64 size))

/-- `xmemcpy(dest + destAt, src + srcAt, n)`: the block `dest` afterwards, or `NULL`
when nothing is copied because one of the pointers is `NULL`. -/
def xmemcpy
    (dest : Option (List UInt8))
    (destAt : Nat)
    (src : Option (List UInt8))
    (srcAt n : Nat) : Option (Option (List UInt8)) :=
  match dest, src with
  | some dest, some src =>
      if destAt + n ≤ dest.length ∧ srcAt + n ≤ src.length then
        some (some (store dest destAt (load src srcAt n)))
      else none
  | none, _ => if destAt = 0 then some none else none
  | some _, none => if srcAt = 0 then some none else none

/-! ## Array functions -/

def hmArrayResize
    (realloc : Allocation)
    (m : ArrayMemory)
    (arr : ArrayAddress)
    (nItems : Nat) : Option (ArrayMemory × Int) := do
  let a ← m arr
  if a.nItemsAlloc < nItems then
    match reallocate realloc a.buf (2 * nItems * a.itemSize) with
    | some newBuffer =>
        let a := { a with buf := some newBuffer, nItemsAlloc := nItems }
        return (Function.update m arr (some a), 0)
    | none => return (m, -1)
  else return (m, 0)

def hmArrayCopyRaw
    (realloc : Allocation)
    (m : ArrayMemory)
    (arr : ArrayAddress)
    (buf : Option (List UInt8))
    (nItems : Nat) : Option (ArrayMemory × Int) := do
  let (m, _) ← hmArrayResize realloc m arr nItems
  let a ← m arr
  let copied ← xmemcpy a.buf 0 buf 0 (nItems * a.itemSize)
  let a := { a with buf := copied.or a.buf, nItems := nItems }
  return (Function.update m arr (some a), 0)

def hmArrayClear
    (m : ArrayMemory)
    (arr : ArrayAddress) : Option (ArrayMemory × Int) := do
  let a ← m arr
  let a := { a with buf := none, nItems := 0, nItemsAlloc := 0 }
  return (Function.update m arr (some a), 0)

/-- `hm_array_at`, as the offset of the item in the block of the array. -/
def hmArrayAt
    (m : ArrayMemory)
    (arr : ArrayAddress)
    (index : Nat) : Option (Option Nat) := do
  let a ← m arr
  if index < a.nItems then return some (index * a.itemSize)
  else return none

def hmArrayConcat
    (realloc : Allocation)
    (m : ArrayMemory)
    (arr1 arr2 : ArrayAddress) : Option (ArrayMemory × Int) := do
  let a1 ← m arr1
  let a2 ← m arr2
  let newSize := toUnsigned 32 (a1.nItems + a2.nItems : Nat)
  let (m, _) ← hmArrayResize realloc m arr1 newSize
  -- the block of `arr1` may have moved, also when `arr2` is the same array
  let a1 ← m arr1
  let a2 ← m arr2
  let copied ←
    xmemcpy a1.buf (a1.nItems * a1.itemSize) a2.buf 0 (a2.nItems * a2.itemSize)
  let a1 := { a1 with buf := copied.or a1.buf, nItems := newSize }
  return (Function.update m arr1 (some a1), 0)

/-- `hm_array_delete(arr, NULL)`. -/
def hmArrayDelete
    (m : ArrayMemory)
    (arr : ArrayAddress) : Option (ArrayMemory × Int) := do
  let _ ← m arr
  return (Function.update m arr none, 0)

/-- `hm_array_concat_raw`; `malloc` returns `newArr`, and the two arrays are resized
by the two allocations. -/
def hmArrayConcatRaw
    (reallocNew realloc : Allocation)
    (newArr : ArrayAddress)
    (m : ArrayMemory)
    (arr : ArrayAddress)
    (data : Option (List UInt8))
    (nItems : Nat) : Option (ArrayMemory × Int) := do
  let a ← m arr
  let m := Function.update m newArr (some (hmArrayInit a.itemSize))
  let (m, _) ← hmArrayResize reallocNew m newArr nItems
  let new ← m newArr
  let copied ← xmemcpy new.buf 0 data 0 (nItems * new.itemSize)
  let new := { new with buf := copied.or new.buf, nItems := nItems }
  let m := Function.update m newArr (some new)
  let (m, _) ← hmArrayConcat realloc m arr newArr
  let (m, _) ← hmArrayDelete m newArr
  return (m, 0)

/-! ## Arrays from lists -/

/-- `struct list_data`, the pointers given by the bytes they point to. The member
`itr` is an `int` that counts up from zero. -/
structure ListData where
  listData : List (Option (List UInt8))
  listDataLen : List Nat
  itr : Nat

/-- `get_list_data`: `none` where an entry behind the end is written, and where
`itr` is incremented past the largest `int`. -/
def getListData (node : HmListNode) (data : ListData) : Option ListData :=
  if data.itr < data.listData.length ∧ data.itr < data.listDataLen.length ∧
      data.itr + 1 < 2 ^ 31 then
    some
      { listData := data.listData.set data.itr (some node.data)
        listDataLen := data.listDataLen.set data.itr node.dataSize
        itr := data.itr + 1 }
  else none

/-- The loop of `hm_list_itr_userdata`, which ends at a `NULL` next link, for a
function that does not change the list. -/
def hmListItrUserdata
    {UserData : Type}
    (itrFn : HmListNode → UserData → Option UserData)
    (m : ListMemory) :
    (fuel : Nat) → Option NodeAddress → UserData → Option UserData
  | _, none, userdata => some userdata
  | 0, some _, _ => none
  | fuel + 1, some node, userdata => do
      let content ← m.nodes node
      let userdata ← itrFn content userdata
      hmListItrUserdata itrFn m fuel content.next userdata

/-- `u64sum`. -/
def u64sum (buf : List Nat) : Nat :=
  buf.foldl (fun res value => toUnsigned 64 (res + value : Nat)) 0

/-- The loop of `hm_array_copy_list` that copies the data of the list one after the
other. -/
def copyListData :
    List (Option (List UInt8) × Nat) → (offsetItr : Nat) →
      Option (List UInt8) → Option (Option (List UInt8))
  | [], _, newArrData => some newArrData
  | (listData, listDataLen) :: rest, offsetItr, newArrData => do
      let copied ← xmemcpy newArrData offsetItr listData 0 listDataLen
      copyListData rest (toUnsigned 64 (offsetItr + listDataLen : Nat))
        (copied.or newArrData)

/-- The allocations of `hm_array_copy_list`: for the data of the list, for the
temporary array, for its block, and for the block of the array. -/
structure CopyListAllocations where
  malloc : Allocation
  newArr : ArrayAddress
  reallocNew : Allocation
  realloc : Allocation

/-- `hm_array_copy_list`. There is room for the data of as many nodes as the list
counts; the loop over the nodes goes on when there are more. -/
def hmArrayCopyList
    (allocations : CopyListAllocations)
    (m : ArrayMemory)
    (arr : ArrayAddress)
    (list : ListMemory)
    (flags : Nat) : Option (ArrayMemory × Int) := do
  let (m, _) ←
    (if hmFlagSet flags copyOverwrite then hmArrayClear m arr else some (m, 0))
  let nItems := list.list.nItems
  let userdata :=
    { listData := List.replicate nItems none
      listDataLen := List.replicate nItems 0
      itr := 0 }
  let data ←
    hmListItrUserdata getListData list (nItems + 1) list.list.head userdata
  let newArrLen := u64sum data.listDataLen
  let newArrData := reallocate allocations.malloc none newArrLen
  let newArrData ←
    copyListData (data.listData.zip data.listDataLen) 0 newArrData
  let (m, _) ←
    hmArrayConcatRaw allocations.reallocNew allocations.realloc
      allocations.newArr m arr newArrData nItems
  return (m, 0)

/-! ## Lists from arrays -/

/-- What `malloc` returns for a new list node, with what the memory held before:
anything in the members of the node and in its data. For a reference list there is
another node for the reference. -/
structure NewNode where
  node : NodeAddress
  content : HmListNode
  fresh : Nat → UInt8
  refnode : NodeAddress

/-- The loop of `hm_list_copy_array`. -/
def copyArrayLoop
    (malloc : Nat → NewNode)
    (a : HmArray) :
    (count itr : Nat) → ListMemory → Option ListMemory
  | 0, _, m => some m
  | count + 1, itr, m => do
      let new := malloc itr
      let data := resize [] a.itemSize new.fresh
      let m := m.setNode new.node (some { new.content with data := data })
      let copied ← xmemcpy (some data) 0 a.buf (itr * a.itemSize) a.itemSize
      let m ←
        (match copied with
        | some data => do
            let m ← m.update new.node fun content =>
              { content with data := data, freeFn := some .defaultNodeFree }
            let (m, _) ← hmListAppend m new.node new.refnode
            return m
        | none => some (m.setNode new.node none))
      copyArrayLoop malloc a count (itr + 1) m

def hmListCopyArray
    (clientFn : Nat → HmListNode → Option HmListNode)
    (malloc : Nat → NewNode)
    (m : ListMemory)
    (arrays : ArrayMemory)
    (arr : ArrayAddress)
    (flags : Nat) : Option (ListMemory × Int) := do
  let a ← arrays arr
  let (m, _) ←
    (if hmFlagSet flags copyOverwrite then
      hmListClear clientFn m.list.nItems m
    else some (m, 0))
  let m ← copyArrayLoop malloc a a.nItems 0 m
  return (m, 0)

end Hiemal
