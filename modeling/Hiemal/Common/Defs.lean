import Hiemal.Foundation.MachineInteger
import Hiemal.Foundation.Transition

/-!
# Linked lists

Translation of the list functions of `core/common.c`. Nodes are named by
addresses in a memory that gives the head of every allocated node; `none` is the
`NULL` pointer in a pointer and a node that is not allocated in the memory. A
function is `none` when it dereferences `NULL` or a node that is not allocated.

Allocation is taken to succeed: an insertion is given the address that `malloc`
returns. Counters are natural numbers, as a list is shorter than the `int` that
counts through it. A function that frees a node is taken to touch no other node.
-/

namespace Hiemal

open Foundation

/-- The address of a list node. -/
abbrev NodeAddress := Nat

/-- `list_node_fn`, the function that frees a node: the default one, or one the
client supplies. -/
inductive ListNodeFn
  | defaultNodeFree
  | client (name : Nat)
  deriving DecidableEq, Repr

/-- `HM_LIST_NODE_HEAD`, and the members behind it: the `node` member of `struct
hm_list_refnode`, which only the nodes of a reference list have, and the bytes of
the `data` member of `struct hm_list_node`. -/
structure HmListNode where
  magic : Nat
  dataSize : Nat
  freeFn : Option ListNodeFn
  prev : Option NodeAddress
  next : Option NodeAddress
  node : Option NodeAddress
  data : List UInt8
  deriving DecidableEq

/-- `HM_LIST_HEAD`. -/
structure HmList where
  magic : Nat
  head : Option NodeAddress
  nItems : Nat
  deriving DecidableEq

def hmListMagic : Nat := 0x1

def hmListNodeMagic : Nat := 0x2

/-- `HM_LIST_REFNODE_MAGIC`, the subtype of reference lists and their nodes. -/
def hmListRefnodeMagic : Nat := 0x1

/-- `HM_SUBTYPE_ID`. -/
def hmSubtypeId (magic : Nat) : Nat :=
  magic / 2 ^ 32 % 2 ^ 32

/-- `HM_LIST_INIT`. -/
def hmListInit : HmList where
  magic := hmListMagic
  head := none
  nItems := 0

/-- `HM_REFLIST_INIT`. -/
def hmReflistInit : HmList where
  magic := hmListRefnodeMagic * 2 ^ 32 + hmListMagic
  head := none
  nItems := 0

/-- `HM_REFLIST_NODE_INIT`. -/
def hmReflistNodeInit : HmListNode where
  magic := hmListRefnodeMagic * 2 ^ 32 + hmListNodeMagic
  dataSize := 0
  freeFn := some .defaultNodeFree
  prev := none
  next := none
  node := none
  data := []

/-- A list together with the memory its nodes are in. -/
structure ListMemory where
  list : HmList
  nodes : NodeAddress → Option HmListNode

/-! ## Memory accesses -/

/-- Write the node at an address. -/
def ListMemory.setNode
    (m : ListMemory)
    (node : NodeAddress)
    (content : Option HmListNode) : ListMemory :=
  { m with nodes := fun other => if other = node then content else m.nodes other }

/-- Change members of an allocated node. -/
def ListMemory.update
    (m : ListMemory)
    (node : NodeAddress)
    (change : HmListNode → HmListNode) : Option ListMemory :=
  (m.nodes node).map fun content => m.setNode node (some (change content))

/-- A pointer to a link: `struct hm_list_node **`. -/
inductive Link
  /-- `&(list->head)`. -/
  | head
  /-- `&(node->next)`. -/
  | next (node : NodeAddress)
  deriving DecidableEq, Repr

/-- `*link`. -/
def ListMemory.readLink (m : ListMemory) : Link → Option (Option NodeAddress)
  | .head => some m.list.head
  | .next node => (m.nodes node).map HmListNode.next

/-- `*link = target`. -/
def ListMemory.writeLink
    (m : ListMemory)
    (link : Link)
    (target : Option NodeAddress) : Option ListMemory :=
  match link with
  | .head => some { m with list := { m.list with head := target } }
  | .next node => m.update node fun content => { content with next := target }

/-- `if (target) target->prev = prev`. -/
def ListMemory.writePrev
    (m : ListMemory)
    (target prev : Option NodeAddress) : Option ListMemory :=
  match target with
  | none => some m
  | some node => m.update node fun content => { content with prev := prev }

/-- What a free function leaves of a node: the default one releases it, a client's
leaves what `clientFn` says. -/
def ListNodeFn.leaves
    (clientFn : Nat → HmListNode → Option HmListNode) :
    ListNodeFn → HmListNode → Option HmListNode
  | .defaultNodeFree, _ => none
  | .client name, content => clientFn name content

/-- Call a free function on an allocated node. -/
def ListMemory.freeNode
    (clientFn : Nat → HmListNode → Option HmListNode)
    (m : ListMemory)
    (freeFn : ListNodeFn)
    (node : NodeAddress) : Option ListMemory :=
  (m.nodes node).map fun content =>
    m.setNode node (freeFn.leaves clientFn content)

/-! ## List functions -/

/-- The loop that moves a cursor `index` links on, together with the cursor before
it: `node_prev = node_itr; node_itr = &((*node_itr)->next)`. -/
def seekLink (m : ListMemory) : Nat → Link → Link → Option (Link × Link)
  | 0, nodeItr, nodePrev => some (nodeItr, nodePrev)
  | index + 1, nodeItr, _ => do
      let node ← ← m.readLink nodeItr
      seekLink m index (.next node) nodeItr

/-- The part of `hm_list_insert` that links in a node, once for both kinds of
list. -/
def linkNode
    (m : ListMemory)
    (node : NodeAddress)
    (index : Int)
    (nodeItr nodePrev : Link) : Option ListMemory := do
  let next ← m.readLink nodeItr
  let m ← m.update node fun content => { content with next := next }
  let prev ← (if index = 0 then some none else m.readLink nodePrev)
  let m ← m.update node fun content => { content with prev := prev }
  let m ← m.writePrev (← m.readLink nodeItr) (some node)
  m.writeLink nodeItr (some node)

/-- `hm_list_insert`. For a reference list `malloc` returns `refnode`. -/
def hmListInsert
    (m : ListMemory)
    (node : NodeAddress)
    (index : Int)
    (refnode : NodeAddress) : Option (ListMemory × Int) :=
  let index := if index < 0 then (m.list.nItems : Int) else index
  if m.list.nItems < toUnsigned 32 index then some (m, -1)
  else do
    let (nodeItr, nodePrev) ← seekLink m index.toNat .head .head
    let m ←
      (if hmSubtypeId m.list.magic = 0 then
        linkNode m node index nodeItr nodePrev
      else if hmSubtypeId m.list.magic = hmListRefnodeMagic then
        linkNode
          (m.setNode refnode (some { hmReflistNodeInit with node := some node }))
          refnode index nodeItr nodePrev
      else some m)
    return ({ m with list := { m.list with nItems := m.list.nItems + 1 } }, 0)

def hmListAppend
    (m : ListMemory)
    (node refnode : NodeAddress) : Option (ListMemory × Int) :=
  hmListInsert m node (-1) refnode

/-- `n_items - 1` as an `unsigned int`. -/
def predecessor (nItems : Nat) : Nat :=
  if nItems = 0 then 2 ^ 32 - 1 else nItems - 1

/-- The part of `hm_list_remove` that unlinks a node. -/
def unlinkNode
    (m : ListMemory)
    (nodeItr : Link) : Option (NodeAddress × ListMemory) := do
  let oldNode ← ← m.readLink nodeItr
  let old ← m.nodes oldNode
  let m ← m.writeLink nodeItr old.next
  let old ← m.nodes oldNode
  let m ← m.writePrev (← m.readLink nodeItr) old.prev
  return (oldNode, m)

/-- `hm_list_remove`; without a free function the node is released by `free`. -/
def hmListRemove
    (clientFn : Nat → HmListNode → Option HmListNode)
    (m : ListMemory)
    (index : Int)
    (freeFn : Option ListNodeFn) : Option (ListMemory × Int) :=
  let index := if index < 0 then (predecessor m.list.nItems : Int) else index
  if m.list.nItems < toUnsigned 32 index then some (m, -1)
  else do
    let (nodeItr, _) ← seekLink m index.toNat .head .head
    let (oldNode, m) ← unlinkNode m nodeItr
    let m ← m.freeNode clientFn (freeFn.getD .defaultNodeFree) oldNode
    let nItems := predecessor m.list.nItems
    return ({ m with list := { m.list with nItems := nItems } }, 0)

/-- The loop of `hm_list_clear`, which ends at a `NULL` next link. -/
def clearLoop
    (clientFn : Nat → HmListNode → Option HmListNode) :
    (fuel : Nat) → ListMemory → Option NodeAddress → Option ListMemory
  | _, m, none => some m
  | 0, _, some _ => none
  | fuel + 1, m, some node => do
      let content ← m.nodes node
      let m ←
        (match content.freeFn with
        | none => some m
        | some freeFn => m.freeNode clientFn freeFn node)
      clearLoop clientFn fuel m content.next

def hmListClear
    (clientFn : Nat → HmListNode → Option HmListNode)
    (fuel : Nat)
    (m : ListMemory) : Option (ListMemory × Int) := do
  let m ← clearLoop clientFn fuel m m.list.head
  return ({ m with list := { m.list with head := none, nItems := 0 } }, 0)

/-- The loop of `hm_list_at`: `node_itr = node_itr->next`. -/
def followNext (m : ListMemory) :
    Nat → Option NodeAddress → Option (Option NodeAddress)
  | 0, nodeItr => some nodeItr
  | index + 1, nodeItr => do
      let content ← m.nodes (← nodeItr)
      followNext m index content.next

/-- `hm_list_at`. -/
def hmListAt (m : ListMemory) (index : Int) : Option (Option NodeAddress) :=
  let index := if index < 0 then (m.list.nItems : Int) else index
  if m.list.nItems < toUnsigned 32 index then some none
  else do
    let nodeItr ← followNext m index.toNat m.list.head
    if hmSubtypeId m.list.magic = hmListRefnodeMagic then
      let content ← m.nodes (← nodeItr)
      return content.node
    else return nodeItr

/-! ## Removal by comparison -/

/-- The part of `hm_list_remove_where` that unlinks the node `node_prev`, which
takes it that there is a node `node_itr` behind it. -/
def unlinkWhere
    (m : ListMemory)
    (nodePrev : NodeAddress)
    (nodeItr : Option NodeAddress) : Option ListMemory := do
  let content ← m.nodes nodePrev
  let m ←
    (match content.prev with
    | some before => m.writeLink (.next before) nodeItr
    | none => m.writeLink .head nodeItr)
  let content ← m.nodes nodePrev
  m.update (← nodeItr) fun next => { next with prev := content.prev }

/-- How far `hm_list_remove_where` has come. -/
structure RemoveWhere (UserData : Type) where
  m : ListMemory
  userdata : UserData
  /-- The nodes handed to the free function, in order. -/
  freed : List NodeAddress

/-- The loop of `hm_list_remove_where`, which ends at a `NULL` next link. A
comparison function may change the user data; what it reads of a node, other than
its links, stays as it is, so that it sees the address. -/
def removeWhereLoop
    {UserData : Type}
    (clientFn : Nat → HmListNode → Option HmListNode)
    (cmpFn : UserData → NodeAddress → UserData × Int)
    (freeFn : Option ListNodeFn) :
    (fuel : Nat) → RemoveWhere UserData → Option NodeAddress →
      Option (RemoveWhere UserData)
  | _, state, none => some state
  | 0, _, some _ => none
  | fuel + 1, state, some nodePrev => do
      let content ← state.m.nodes nodePrev
      let nodeItr := content.next
      let (userdata, rc) := cmpFn state.userdata nodePrev
      if rc = 0 then
        let m ← unlinkWhere state.m nodePrev nodeItr
        let m ← m.freeNode clientFn (freeFn.getD .defaultNodeFree) nodePrev
        let nItems := predecessor m.list.nItems
        removeWhereLoop clientFn cmpFn freeFn fuel
          { m := { m with list := { m.list with nItems := nItems } }
            userdata := userdata
            freed := state.freed ++ [nodePrev] }
          nodeItr
      else
        removeWhereLoop clientFn cmpFn freeFn fuel
          { state with userdata := userdata } nodeItr

def hmListRemoveWhere
    {UserData : Type}
    (clientFn : Nat → HmListNode → Option HmListNode)
    (cmpFn : UserData → NodeAddress → UserData × Int)
    (freeFn : Option ListNodeFn)
    (fuel : Nat)
    (m : ListMemory)
    (userdata : UserData) : Option (RemoveWhere UserData × Int) := do
  let start := { m := m, userdata := userdata, freed := [] }
  let final ← removeWhereLoop clientFn cmpFn freeFn fuel start m.list.head
  return (final, 0)

/-! ## Sequences of operations -/

/-- What happens to a list and to the memory around it. -/
inductive HmListOp
  /-- `hm_list_insert(list, node, index)`; `malloc` returns `refnode`. -/
  | insert (node : NodeAddress) (index : Int) (refnode : NodeAddress)
  /-- `hm_list_append(list, node)`; `malloc` returns `refnode`. -/
  | append (node refnode : NodeAddress)
  /-- `hm_list_remove(list, index, free_fn)`. -/
  | remove (index : Int) (freeFn : Option ListNodeFn)
  /-- `hm_list_clear(list)`. -/
  | clear
  /-- The client allocates, writes or releases a node. -/
  | client (node : NodeAddress) (content : Option HmListNode)

/-- Execute one operation, with the memory and the returned code as its output.
A list without a cycle is cleared in as many rounds as it has items. -/
def hmListStep
    (clientFn : Nat → HmListNode → Option HmListNode)
    (m : ListMemory)
    (op : HmListOp) : Option (ListMemory × (ListMemory × Int)) :=
  let result :=
    match op with
    | .insert node index refnode => hmListInsert m node index refnode
    | .append node refnode => hmListAppend m node refnode
    | .remove index freeFn => hmListRemove clientFn m index freeFn
    | .clear => hmListClear clientFn m.list.nItems m
    | .client node content => some (m.setNode node content, 0)
  result.map fun output => (output.1, output)

end Hiemal
