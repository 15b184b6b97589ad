import Hiemal.Common.Lists

/-!
# Runs of list operations

A list together with the memory of its nodes holds a sequence of items. Every
operation within range is served as by the sequence operation, and after every
operation the nodes are well linked and `hm_list_at` finds each item.
-/

namespace Hiemal

open Foundation

/-- The list is a plain list or a reference list, its nodes form a chain, and they
show the items. -/
structure ListHolds
    (m : ListMemory)
    (nodes items : List NodeAddress) : Prop where
  kind :
    hmSubtypeId m.list.magic = 0 ∨
      hmSubtypeId m.list.magic = hmListRefnodeMagic
  chain : Chain m.links m.list.head nodes
  count : m.list.nItems = nodes.length
  shows : nodes.map m.itemOf = items.map some

section Holds

variable {m : ListMemory} {nodes items : List NodeAddress}

theorem hmSubtypeId_hmListInit : hmSubtypeId hmListInit.magic = 0 := by
  decide

theorem hmSubtypeId_hmReflistInit :
    hmSubtypeId hmReflistInit.magic = hmListRefnodeMagic := by
  decide

/-- A new list of either kind is empty. -/
theorem listHolds_init
    {list : HmList}
    (new : list = hmListInit ∨ list = hmReflistInit)
    (memory : NodeAddress → Option HmListNode) :
    ListHolds { list := list, nodes := memory } [] [] := by
  obtain rfl | rfl := new
  · exact
      { kind := Or.inl hmSubtypeId_hmListInit
        chain := ⟨rfl, List.nodup_nil⟩
        count := rfl
        shows := rfl }
  · exact
      { kind := Or.inr hmSubtypeId_hmReflistInit
        chain := ⟨rfl, List.nodup_nil⟩
        count := rfl
        shows := rfl }

theorem ListHolds.length_eq
    (holds : ListHolds m nodes items) :
    nodes.length = items.length := by
  simpa using congrArg List.length holds.shows

/-- Nodes outside the list can be written. -/
theorem ListHolds.setNode
    (holds : ListHolds m nodes items)
    {node : NodeAddress}
    (outside : node ∉ nodes)
    (content : Option HmListNode) :
    ListHolds (m.setNode node content) nodes items where
  kind := holds.kind
  chain :=
    ⟨segment_setNode holds.chain.linked outside content, holds.chain.distinct⟩
  count := holds.count
  shows := by
    rw [← holds.shows]
    refine List.map_congr_left fun other member => ?_
    have different : other ≠ node := fun same => outside (same ▸ member)
    simp [ListMemory.itemOf, ListMemory.setNode, different]

/-- The kind of list, its new chain and its new count carry over to a memory with
changed links. -/
theorem ListHolds.relinked
    (holds : ListHolds m nodes items)
    {next : ListMemory}
    {links : LinkMap NodeAddress}
    {head : Option NodeAddress}
    {nodes' items' : List NodeAddress}
    (relinks : Relinks m next links head)
    (chain : Chain links head nodes')
    (shows : nodes'.map m.itemOf = items'.map some) :
    ListHolds
      { next with list := { next.list with nItems := nodes'.length } }
      nodes' items' where
  kind := by
    show hmSubtypeId next.list.magic = 0 ∨
      hmSubtypeId next.list.magic = hmListRefnodeMagic
    rw [relinks.magic_eq]
    exact holds.kind
  chain := by
    rw [← relinks.links_eq, ← relinks.head_eq] at chain
    exact chain
  count := rfl
  shows := by
    rw [← shows, ← relinks.itemOf_eq]
    rfl

/-- Linking in a node that shows an item. -/
theorem ListHolds.linkNode
    (holds : ListHolds m nodes items)
    {node item : NodeAddress}
    {content : HmListNode}
    (fresh : node ∉ nodes)
    (allocated : m.nodes node = some content)
    (shown : m.itemOf node = some item)
    {index : Nat}
    (inRange : index ≤ nodes.length)
    {nodePrev : Link}
    (previous :
      nodes.take index ≠ [] →
        nodePrev = linkBehind (nodes.take index).dropLast) :
    ∃ next,
      Hiemal.linkNode m node index (linkBehind (nodes.take index)) nodePrev =
          some next ∧
        ListHolds
          { next with list := { next.list with nItems := next.list.nItems + 1 } }
          (nodes.take index ++ node :: nodes.drop index)
          (items.take index ++ item :: items.drop index) ∧
          KeepsRest m
            { next with
              list := { next.list with nItems := next.list.nItems + 1 } } := by
  have length : (nodes.take index).length = index :=
    List.length_take_of_le inRange
  have whole := List.take_append_drop index nodes
  have chain := holds.chain
  rw [← whole] at chain fresh
  obtain ⟨next, links, head, linked, relinks, nextChain⟩ :=
    linkNode_relinks chain fresh
      ⟨_, by rw [ListMemory.links, allocated, Option.map_some]⟩ previous
  rw [length] at linked
  have shows :
      (nodes.take index ++ node :: nodes.drop index).map m.itemOf =
        (items.take index ++ item :: items.drop index).map some := by
    simp only [List.map_append, List.map_cons, List.map_take, List.map_drop,
      holds.shows, shown]
  have count :
      (nodes.take index ++ node :: nodes.drop index).length =
        next.list.nItems + 1 := by
    rw [relinks.nItems_eq, holds.count, List.length_append, List.length_cons,
      List.length_take, List.length_drop]
    omega
  refine ⟨next, linked, ?_, ⟨relinks.magic_eq, relinks.rest_eq⟩⟩
  rw [← count]
  exact holds.relinked relinks nextChain shows

/-- Unlinking and freeing a node. -/
theorem ListHolds.unlinkNode
    (clientFn : Nat → HmListNode → Option HmListNode)
    (holds : ListHolds m nodes items)
    {index : Nat}
    (inRange : index < nodes.length)
    (freeFn : ListNodeFn) :
    ∃ old unlinked next,
      Hiemal.unlinkNode m (linkBehind (nodes.take index)) =
          some (old, unlinked) ∧
        unlinked.freeNode clientFn freeFn old = some next ∧
          ListHolds
            { next with
              list :=
                { next.list with nItems := predecessor next.list.nItems } }
            (nodes.eraseIdx index) (items.eraseIdx index) := by
  have erased := List.eraseIdx_eq_take_drop_succ nodes index
  have whole : nodes.take index ++ nodes[index] :: nodes.drop (index + 1) =
      nodes := by
    rw [← List.drop_eq_getElem_cons inRange, List.take_append_drop]
  have chain := holds.chain
  rw [← whole] at chain
  obtain ⟨unlinked, links, head, returns, relinks, nextChain, content, stored⟩ :=
    unlinkNode_relinks chain
  have outside : nodes[index] ∉ nodes.eraseIdx index := by
    rw [← holds.chain.distinct.erase_getElem index inRange]
    exact holds.chain.distinct.not_mem_erase
  rw [← erased] at nextChain
  have shows : (nodes.eraseIdx index).map m.itemOf =
      (items.eraseIdx index).map some := by
    simp only [List.eraseIdx_eq_take_drop_succ, List.map_append, List.map_take,
      List.map_drop, holds.shows]
  refine ⟨_, _, _, returns, freeNode_returns clientFn stored freeFn, ?_⟩
  have count : (nodes.eraseIdx index).length =
      predecessor unlinked.list.nItems := by
    rw [relinks.nItems_eq, holds.count, List.length_eraseIdx_of_lt inRange,
      predecessor, if_neg (by omega)]
  have unlinkedHolds := holds.relinked relinks nextChain shows
  rw [count] at unlinkedHolds
  exact unlinkedHolds.setNode outside _

/-- The functions accept an index within the list. -/
theorem ListHolds.accepts
    (holds : ListHolds m nodes items)
    {index : Nat}
    (inRange : index ≤ nodes.length) :
    ¬(index : Int) < 0 ∧ ¬m.list.nItems < toUnsigned 32 (index : Int) := by
  have small := toUnsigned_natCast_le 32 index
  rw [holds.count]
  omega

/-- The node that an insertion links in: the given one, or the one that references
it. -/
def ListMemory.cellOf (m : ListMemory) (node refnode : NodeAddress) :
    NodeAddress :=
  if hmSubtypeId m.list.magic = hmListRefnodeMagic then refnode else node

/-- The memory after the node that is linked in is allocated. -/
def ListMemory.withCell (m : ListMemory) (node refnode : NodeAddress) :
    ListMemory :=
  if hmSubtypeId m.list.magic = hmListRefnodeMagic then
    m.setNode refnode (some { hmReflistNodeInit with node := some node })
  else m

/-- Inserting a node into a list: the node itself, or a new one that references
it. Of the other nodes only links change. -/
theorem ListHolds.hmListInsert
    (holds : ListHolds m nodes items)
    {node refnode : NodeAddress}
    (plain :
      hmSubtypeId m.list.magic = 0 →
        node ∉ nodes ∧ (m.nodes node).isSome)
    (reference :
      hmSubtypeId m.list.magic = hmListRefnodeMagic →
        m.nodes refnode = none)
    {index : Nat}
    (inRange : index ≤ nodes.length) :
    ∃ next,
      Hiemal.hmListInsert m node index refnode = some (next, 0) ∧
        ListHolds next
          (nodes.take index ++ m.cellOf node refnode :: nodes.drop index)
          (items.take index ++ node :: items.drop index) ∧
          KeepsRest (m.withCell node refnode) next := by
  have length : (nodes.take index).length = index :=
    List.length_take_of_le inRange
  have chain := holds.chain
  rw [← List.take_append_drop index nodes] at chain
  obtain ⟨nodePrev, sought, previous⟩ := seekLink_head chain
  rw [length] at sought
  obtain ⟨nonnegative, within⟩ := holds.accepts inRange
  simp only [Hiemal.hmListInsert, if_neg nonnegative, if_neg within,
    Int.toNat_natCast, sought, Option.bind_eq_bind, Option.bind_some]
  rcases holds.kind with kind | kind
  · obtain ⟨fresh, allocated⟩ := plain kind
    obtain ⟨content, stored⟩ := Option.isSome_iff_exists.mp allocated
    have plainKind : ¬hmSubtypeId m.list.magic = hmListRefnodeMagic := by
      rw [kind]
      decide
    have shown : m.itemOf node = some node := by
      rw [ListMemory.itemOf, if_neg plainKind]
    have cell : m.cellOf node refnode = node := if_neg plainKind
    have same : m.withCell node refnode = m := if_neg plainKind
    rw [cell, same]
    obtain ⟨next, linked, nextHolds, keeps⟩ :=
      holds.linkNode fresh stored shown inRange previous
    exact ⟨_, by simp [kind, linked], nextHolds, keeps⟩
  · have released := reference kind
    have fresh : refnode ∉ nodes := by
      intro member
      obtain ⟨links, known⟩ := holds.chain.linked.allocated member
      simp [ListMemory.links, released] at known
    let content : HmListNode := { hmReflistNodeInit with node := some node }
    have shown : (m.setNode refnode (some content)).itemOf refnode =
        some node := by
      simp [ListMemory.itemOf, ListMemory.setNode, kind, content]
    have stored : (m.setNode refnode (some content)).nodes refnode =
        some content := by
      simp [ListMemory.setNode]
    have cell : m.cellOf node refnode = refnode := if_pos kind
    have changed :
        m.withCell node refnode = m.setNode refnode (some content) := if_pos kind
    rw [cell, changed]
    obtain ⟨next, linked, nextHolds, keeps⟩ :=
      (holds.setNode fresh (some content)).linkNode fresh stored shown inRange
        previous
    have notPlain : ¬hmListRefnodeMagic = 0 := by decide
    exact ⟨_, by simp [kind, notPlain, content, linked], nextHolds, keeps⟩

/-- Removing the node at an index within the list. -/
theorem ListHolds.hmListRemove
    (clientFn : Nat → HmListNode → Option HmListNode)
    (holds : ListHolds m nodes items)
    {index : Nat}
    (inRange : index < nodes.length)
    (freeFn : Option ListNodeFn) :
    ∃ next nodes',
      Hiemal.hmListRemove clientFn m index freeFn = some (next, 0) ∧
        ListHolds next nodes' (items.eraseIdx index) := by
  have length : (nodes.take index).length = index :=
    List.length_take_of_le (Nat.le_of_lt inRange)
  have chain := holds.chain
  rw [← List.take_append_drop index nodes] at chain
  obtain ⟨nodePrev, sought, _⟩ := seekLink_head chain
  rw [length] at sought
  obtain ⟨old, unlinked, next, unlinkReturns, freeReturns, nextHolds⟩ :=
    holds.unlinkNode clientFn inRange (freeFn.getD .defaultNodeFree)
  obtain ⟨nonnegative, within⟩ := holds.accepts (Nat.le_of_lt inRange)
  refine ⟨_, _, ?_, nextHolds⟩
  simp [Hiemal.hmListRemove, nonnegative, within, sought, unlinkReturns,
    freeReturns]

/-- Clearing a list. -/
theorem ListHolds.hmListClear
    (clientFn : Nat → HmListNode → Option HmListNode)
    (holds : ListHolds m nodes items)
    {fuel : Nat}
    (enough : m.list.nItems ≤ fuel) :
    ∃ next, Hiemal.hmListClear clientFn fuel m = some (next, 0) ∧
      ListHolds next [] [] := by
  rw [holds.count] at enough
  obtain ⟨cleared, returns, list_eq⟩ :=
    clearLoop_returns clientFn holds.chain.linked holds.chain.distinct enough
  refine ⟨_, by rw [Hiemal.hmListClear, returns]; rfl, ?_⟩
  exact
    { kind := by
        show hmSubtypeId cleared.list.magic = 0 ∨
          hmSubtypeId cleared.list.magic = hmListRefnodeMagic
        rw [list_eq]
        exact holds.kind
      chain := ⟨rfl, List.nodup_nil⟩
      count := rfl
      shows := rfl }

/-- Looking up the item at an index within the list. -/
theorem ListHolds.hmListAt_eq
    (holds : ListHolds m nodes items)
    {index : Nat}
    (inRange : index < items.length) :
    hmListAt m index = some items[index]? := by
  have nodeInRange : index < nodes.length := by
    rw [holds.length_eq]
    exact inRange
  obtain ⟨nonnegative, within⟩ := holds.accepts (Nat.le_of_lt nodeInRange)
  have followed : followNext m index m.list.head = some nodes[index]? := by
    have entered := holds.chain.linked.first_eq
    rw [Option.or_none] at entered
    rw [entered]
    have chain : Chain m.links m.list.head ([] ++ nodes) := holds.chain
    exact followNext_from chain (Nat.le_of_lt nodeInRange)
  have shown : m.itemOf nodes[index] = some items[index] := by
    have same := congrArg (·[index]?) holds.shows
    simpa [nodeInRange, inRange] using same
  obtain ⟨links, known⟩ :=
    holds.chain.linked.allocated (List.getElem_mem nodeInRange)
  obtain ⟨content, stored, _, _⟩ := links_eq_some known
  simp only [hmListAt, if_neg nonnegative, if_neg within, Int.toNat_natCast,
    followed, List.getElem?_eq_getElem nodeInRange,
    List.getElem?_eq_getElem inRange, Option.bind_eq_bind, Option.bind_some,
    ← shown, stored, ListMemory.itemOf, Option.map_some, Option.join_some]
  split <;> rfl

end Holds

/-! ## What a client sees -/

/-- The nodes met along next links, at most as many as given. -/
def linkedFrom (m : ListMemory) : Nat → Option NodeAddress → List NodeAddress
  | 0, _ => []
  | _ + 1, none => []
  | count + 1, some node =>
      node :: linkedFrom m count ((m.nodes node).bind HmListNode.next)

/-- The nodes linked in a list. -/
def linkedNodes (m : ListMemory) : List NodeAddress :=
  linkedFrom m m.list.nItems m.list.head

/-- The client's side of an operation: indices are in range, a node inserted into
a plain list is allocated and not linked in it, `malloc` returns memory that is
not in use, and the client itself touches no linked node. -/
def HmListOp.Admissible (m : ListMemory) : HmListOp → Prop
  | .insert node index refnode =>
      index ≤ m.list.nItems ∧ Insertable m node refnode
  | .append node refnode => Insertable m node refnode
  | .remove index _ => index < m.list.nItems ∧ 0 < m.list.nItems
  | .clear => True
  | .client node _ => node ∉ linkedNodes m
where
  Insertable (m : ListMemory) (node refnode : NodeAddress) : Prop :=
    (hmSubtypeId m.list.magic = 0 →
        node ∉ linkedNodes m ∧ (m.nodes node).isSome) ∧
      (hmSubtypeId m.list.magic = hmListRefnodeMagic →
        m.nodes refnode = none)

instance decidableInsertable
    (m : ListMemory)
    (node refnode : NodeAddress) :
    Decidable (HmListOp.Admissible.Insertable m node refnode) :=
  inferInstanceAs (Decidable (_ ∧ _))

instance decidableListAdmissible (m : ListMemory) :
    (op : HmListOp) → Decidable (op.Admissible m)
  | .insert _ _ _ => inferInstanceAs (Decidable (_ ∧ _))
  | .append _ _ => inferInstanceAs (Decidable (_ ∧ _))
  | .remove _ _ => inferInstanceAs (Decidable (_ ∧ _))
  | .clear => inferInstanceAs (Decidable True)
  | .client _ _ => inferInstanceAs (Decidable (_ ∉ _))

/-- The doubly linked structure of a list: as many nodes as the list counts, from
the head to a null link, without repetition, and with inverse links. -/
structure WellLinked (m : ListMemory) : Prop where
  count : (linkedNodes m).length = m.list.nItems
  acyclic : (linkedNodes m).Nodup
  head_eq : m.list.head = (linkedNodes m).head?
  allocated : ∀ node ∈ linkedNodes m, ∃ links, m.links node = some links
  headPrev :
    ∀ node ∈ m.list.head, (m.links node).bind Links.prev = none
  lastNext :
    ∀ node ∈ (linkedNodes m).getLast?, (m.links node).bind Links.next = none
  inverse : ∀ left ∈ linkedNodes m, ∀ right ∈ linkedNodes m,
    ((m.links left).bind Links.next = some right ↔
      (m.links right).bind Links.prev = some left)

/-- An operation succeeds, leaves a well linked list, and the list shows the items
of a sequence, also through `hm_list_at`. -/
structure ListServes
    (output : ListMemory × Int)
    (items : List NodeAddress) : Prop where
  rc_eq : output.2 = 0
  wellLinked : WellLinked output.1
  shows : (linkedNodes output.1).map output.1.itemOf = items.map some
  at_eq : ∀ index < output.1.list.nItems,
    hmListAt output.1 (index : Int) = some items[index]?

/-- Insertion into a sequence, at its end for a negative index. -/
def sequenceInsert {α : Type*} (items : List α) (item : α) (index : Int) :
    List α :=
  if index < 0 then items ++ [item] else items.insertIdx index.toNat item

/-- Removal from a sequence, at its end for a negative index. -/
def sequenceRemove {α : Type*} (items : List α) (index : Int) : List α :=
  if index < 0 then items.dropLast else items.eraseIdx index.toNat

/-- The operation on the sequence that a list operation stands for. -/
def HmListOp.serve (items : List NodeAddress) : HmListOp → List NodeAddress
  | .insert node index _ => sequenceInsert items node index
  | .append node _ => sequenceInsert items node (-1)
  | .remove index _ => sequenceRemove items index
  | .clear => []
  | .client _ _ => items

def sequenceStep
    (items : List NodeAddress)
    (op : HmListOp) : List NodeAddress × List NodeAddress :=
  (op.serve items, op.serve items)

/-! ## Runs -/

section Runs

variable {m : ListMemory} {nodes items : List NodeAddress}

theorem linkedFrom_segment
    {prev first : Option NodeAddress}
    (segment : Segment m.links prev first nodes none) :
    linkedFrom m nodes.length first = nodes := by
  induction nodes generalizing prev first with
  | nil => rfl
  | cons node nodes inductionHypothesis =>
      obtain ⟨rfl, next, links, rest⟩ := segment
      obtain ⟨content, stored, _, next_eq⟩ := links_eq_some links
      simp only at next_eq
      rw [List.length_cons, linkedFrom, stored, Option.bind_some, next_eq,
        inductionHypothesis rest]

theorem ListHolds.linkedNodes_eq
    (holds : ListHolds m nodes items) :
    linkedNodes m = nodes := by
  rw [linkedNodes, holds.count]
  exact linkedFrom_segment holds.chain.linked

/-- A list that holds a sequence shows it to its client. -/
theorem ListHolds.listServes
    (holds : ListHolds m nodes items) :
    ListServes (m, 0) items := by
  have linked := holds.linkedNodes_eq
  exact
    { rc_eq := rfl
      wellLinked :=
        { count := by rw [linked, holds.count]
          acyclic := by rw [linked]; exact holds.chain.distinct
          head_eq := by
            rw [linked, holds.chain.linked.first_eq, Option.or_none]
          allocated := by
            rw [linked]
            exact fun node member => holds.chain.linked.allocated member
          headPrev := fun node head => holds.chain.prev_first head
          lastNext := by
            rw [linked]
            exact fun node last => holds.chain.next_last last
          inverse := by
            rw [linked]
            exact fun left leftMember right rightMember =>
              holds.chain.linked.next_iff_prev leftMember rightMember }
      shows := by rw [linked]; exact holds.shows
      at_eq := by
        intro index inRange
        apply holds.hmListAt_eq
        rw [← holds.length_eq, ← holds.count]
        exact inRange }

theorem insertIdx_eq_take_append_drop
    {α : Type*}
    {items : List α}
    {index : Nat}
    (inRange : index ≤ items.length)
    (item : α) :
    items.insertIdx index item =
      items.take index ++ item :: items.drop index := by
  induction items generalizing index with
  | nil =>
      obtain rfl : index = 0 := Nat.le_zero.mp inRange
      rfl
  | cons first items inductionHypothesis =>
      cases index with
      | zero => rfl
      | succ index =>
          rw [List.insertIdx_succ_cons,
            inductionHypothesis (Nat.le_of_succ_le_succ inRange)]
          rfl

/-- A negative index stands for the end of the list. -/
theorem hmListInsert_negative
    (m : ListMemory)
    (node refnode : NodeAddress)
    {index : Int}
    (negative : index < 0) :
    hmListInsert m node index refnode =
      hmListInsert m node m.list.nItems refnode := by
  have nonnegative : ¬(m.list.nItems : Int) < 0 := by omega
  rw [hmListInsert, hmListInsert]
  simp only [if_pos negative, if_neg nonnegative]

/-- Writing a node outside a plain list and appending it. -/
theorem ListHolds.appendPlain
    (holds : ListHolds m nodes nodes)
    (plain : hmSubtypeId m.list.magic = 0)
    {node : NodeAddress}
    (outside : node ∉ nodes)
    (content : HmListNode)
    (refnode : NodeAddress) :
    ∃ next,
      hmListAppend (m.setNode node (some content)) node refnode =
          some (next, 0) ∧
        ListHolds next (nodes ++ [node]) (nodes ++ [node]) ∧
          next.list.magic = m.list.magic := by
  have stored := holds.setNode outside (some content)
  have notReference :
      ¬hmSubtypeId (m.setNode node (some content)).list.magic =
        hmListRefnodeMagic := by
    show ¬hmSubtypeId m.list.magic = hmListRefnodeMagic
    rw [plain]
    decide
  obtain ⟨next, returns, nextHolds, keeps⟩ :=
    @ListHolds.hmListInsert _ _ _ stored node refnode
      (fun _ => ⟨outside, by simp [ListMemory.setNode]⟩)
      (fun reference => absurd reference notReference)
      nodes.length (Nat.le_refl nodes.length)
  rw [ListMemory.cellOf, if_neg notReference, List.take_length,
    List.drop_length] at nextHolds
  rw [ListMemory.withCell, if_neg notReference] at keeps
  refine ⟨next, ?_, nextHolds, keeps.magic_eq⟩
  rw [hmListAppend, hmListInsert_negative _ _ _ (by decide), stored.count,
    returns]

/-- Inserting a node anywhere or, with a negative index, at the end. -/
theorem ListHolds.insert
    (holds : ListHolds m nodes items)
    {node refnode : NodeAddress}
    (insertable : HmListOp.Admissible.Insertable m node refnode)
    {index : Int}
    (inRange : index ≤ m.list.nItems) :
    ∃ next nodes',
      Hiemal.hmListInsert m node index refnode = some (next, 0) ∧
        ListHolds next nodes' (sequenceInsert items node index) := by
  have plain := insertable.1
  rw [holds.linkedNodes_eq] at plain
  by_cases negative : index < 0
  · obtain ⟨next, returns, nextHolds, _⟩ :=
      holds.hmListInsert plain insertable.2 (Nat.le_refl nodes.length)
    have atEnd : sequenceInsert items node index =
        items.take nodes.length ++ node :: items.drop nodes.length := by
      rw [sequenceInsert, if_pos negative, holds.length_eq, List.take_length,
        List.drop_length]
    rw [atEnd]
    refine ⟨next, _, ?_, nextHolds⟩
    rw [hmListInsert_negative m node refnode negative, holds.count, returns]
  · obtain ⟨position, rfl⟩ := Int.eq_ofNat_of_zero_le (Int.not_lt.mp negative)
    have within : position ≤ nodes.length := by
      rw [← holds.count]
      exact_mod_cast inRange
    rw [sequenceInsert, if_neg negative, Int.toNat_natCast,
      insertIdx_eq_take_append_drop (by rw [← holds.length_eq]; exact within)]
    obtain ⟨next, returns, nextHolds, _⟩ :=
      holds.hmListInsert plain insertable.2 within
    exact ⟨next, _, returns, nextHolds⟩

/-- Removing a node anywhere or, with a negative index, at the end. -/
theorem ListHolds.remove
    (clientFn : Nat → HmListNode → Option HmListNode)
    (holds : ListHolds m nodes items)
    {index : Int}
    (inRange : index < m.list.nItems)
    (nonempty : 0 < m.list.nItems)
    (freeFn : Option ListNodeFn) :
    ∃ next nodes',
      Hiemal.hmListRemove clientFn m index freeFn = some (next, 0) ∧
        ListHolds next nodes' (sequenceRemove items index) := by
  rw [holds.count] at nonempty
  by_cases negative : index < 0
  · obtain ⟨next, nodes', returns, nextHolds⟩ :=
      holds.hmListRemove clientFn (Nat.sub_lt nonempty Nat.one_pos) freeFn
    refine ⟨next, nodes', ?_, ?_⟩
    · have nonnegative : ¬((nodes.length - 1 : Nat) : Int) < 0 := by omega
      have last : predecessor nodes.length = nodes.length - 1 :=
        if_neg (by omega)
      rw [← returns]
      simp only [Hiemal.hmListRemove, if_pos negative, holds.count, last,
        if_neg nonnegative]
    · rw [sequenceRemove, if_pos negative]
      rw [holds.length_eq] at nextHolds nonempty
      rwa [List.eraseIdx_eq_dropLast (by omega)] at nextHolds
  · obtain ⟨position, rfl⟩ := Int.eq_ofNat_of_zero_le (Int.not_lt.mp negative)
    have within : position < nodes.length := by
      rw [← holds.count]
      exact_mod_cast inRange
    rw [sequenceRemove, if_neg negative, Int.toNat_natCast]
    exact holds.hmListRemove clientFn within freeFn

/-- Step lemma of the refinement. -/
theorem hmListStep_serves
    (clientFn : Nat → HmListNode → Option HmListNode)
    (m : ListMemory)
    (items : List NodeAddress)
    (op : HmListOp)
    (related : ∃ nodes, ListHolds m nodes items)
    (admissible : op.Admissible m) :
    ∃ next output, hmListStep clientFn m op = some (next, output) ∧
      (∃ nodes, ListHolds next nodes (sequenceStep items op).1) ∧
        ListServes output (sequenceStep items op).2 := by
  obtain ⟨nodes, holds⟩ := related
  obtain ⟨next, nodes', returns, nextHolds⟩ :
      ∃ next nodes', hmListStep clientFn m op = some (next, next, 0) ∧
        ListHolds next nodes' (op.serve items) := by
    cases op with
    | insert node index refnode =>
        obtain ⟨next, nodes', returns, nextHolds⟩ :=
          holds.insert admissible.2 admissible.1
        exact ⟨next, nodes', by simp [hmListStep, returns], nextHolds⟩
    | append node refnode =>
        have inRange : (-1 : Int) ≤ m.list.nItems := by omega
        obtain ⟨next, nodes', returns, nextHolds⟩ :=
          holds.insert admissible inRange
        exact ⟨next, nodes', by simp [hmListStep, hmListAppend, returns],
          nextHolds⟩
    | remove index freeFn =>
        obtain ⟨next, nodes', returns, nextHolds⟩ :=
          holds.remove clientFn admissible.1 admissible.2 freeFn
        exact ⟨next, nodes', by simp [hmListStep, returns], nextHolds⟩
    | clear =>
        obtain ⟨next, returns, nextHolds⟩ :=
          holds.hmListClear clientFn (Nat.le_refl m.list.nItems)
        exact ⟨next, [], by simp [hmListStep, returns], nextHolds⟩
    | client node content =>
        have outside : node ∉ nodes := by
          rw [← holds.linkedNodes_eq]
          exact admissible
        exact ⟨_, nodes, rfl, holds.setNode outside content⟩
  exact ⟨next, (next, 0), returns, ⟨nodes', nextHolds⟩, nextHolds.listServes⟩

end Runs

/-- A plain list of so many nodes with two bytes of data each. -/
def evenList (count : Nat) : ListMemory where
  list :=
    { hmListInit with
      head := if 0 < count then some 0 else none
      nItems := count }
  nodes := fun node =>
    if node < count then
      some
        { hmReflistNodeInit with
          magic := hmListNodeMagic
          dataSize := 2
          prev := if 0 < node then some (node - 1) else none
          next := if node + 1 < count then some (node + 1) else none
          data := [7, 8] }
    else none

section EvenList

variable {count node : Nat}

theorem evenList_links (inRange : node < count) :
    (evenList count).links node =
      some ⟨if 0 < node then some (node - 1) else none,
        if node + 1 < count then some (node + 1) else none⟩ := by
  simp only [ListMemory.links, evenList, if_pos inRange, Option.map_some]

/-- The nodes from one on are linked. -/
theorem evenList_segment
    (start length : Nat)
    (total : start + length = count) :
    Segment (evenList count).links (if 0 < start then some (start - 1) else none)
      (if start < count then some start else none)
      (List.range' start length) none := by
  induction length generalizing start with
  | zero => exact if_neg (by omega)
  | succ length inductionHypothesis =>
      have rest := inductionHypothesis (start + 1) (by omega)
      rw [if_pos (Nat.succ_pos start), Nat.add_sub_cancel] at rest
      exact ⟨if_pos (by omega), _, evenList_links (by omega), rest⟩

theorem listHolds_evenList (count : Nat) :
    ListHolds (evenList count) (List.range count) (List.range count) where
  kind := Or.inl hmSubtypeId_hmListInit
  chain :=
    { linked := by
        have linked := evenList_segment 0 count (Nat.zero_add count)
        rw [← List.range_eq_range'] at linked
        exact linked
      distinct := List.nodup_range }
  count := List.length_range.symm
  shows := by
    apply List.map_congr_left
    intro node _
    have plain : hmSubtypeId (evenList count).list.magic = 0 :=
      hmSubtypeId_hmListInit
    rw [ListMemory.itemOf, plain, if_neg (by decide)]

end EvenList

/-- Every sequence of operations on a new plain or reference list is served as by
a sequence, as long as an `int` counts the nodes of the list. -/
theorem hmList_refines_sequence
    (clientFn : Nat → HmListNode → Option HmListNode)
    (list : HmList)
    (new : list = hmListInit ∨ list = hmReflistInit)
    (memory : NodeAddress → Option HmListNode)
    (ops : List HmListOp)
    (admissible :
      AlongRun (hmListStep clientFn)
        (fun m op => op.Admissible m ∧ m.list.nItems < 2 ^ 31)
        { list := list, nodes := memory } ops) :
    ∃ final outputs,
      runSteps (hmListStep clientFn) { list := list, nodes := memory } ops =
          some (final, outputs) ∧
        List.Forall₂ ListServes outputs (runTotal sequenceStep [] ops).2 := by
  obtain ⟨final, outputs, ran, _, serves⟩ :=
    runSteps_simulates_along
      (fun m items op related admitted =>
        hmListStep_serves clientFn m items op related admitted.1)
      ops { list := list, nodes := memory } [] ⟨[], listHolds_init new memory⟩
      admissible
  exact ⟨final, outputs, ran, serves⟩

/-- The refinement on a plain list: insertions at the end, at the head and in the
middle, and removals from the middle and of the last node. -/
theorem hmList_refines_sequence_plain :
    ∃ final outputs,
      runSteps (hmListStep fun _ _ => none)
          { list := hmListInit
            nodes := fun node =>
              if node < 4 then some hmReflistNodeInit else none }
          [.append 0 0, .insert 1 0 0, .insert 2 1 0, .remove 1 none,
            .append 3 0, .remove (-1) none] =
          some (final, outputs) ∧
        List.Forall₂ ListServes outputs
          (runTotal sequenceStep []
            [.append 0 0, .insert 1 0 0, .insert 2 1 0, .remove 1 none,
              .append 3 0, .remove (-1) none]).2 := by
  apply hmList_refines_sequence
  · exact Or.inl rfl
  · decide

end Hiemal
