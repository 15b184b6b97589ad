import Hiemal.Common.Sequence
import Hiemal.Lifetime.Defs

/-!
# Event lists on the heap

The nodes of an event list are blocks of their own. Registering an event adds one node
behind the others and changes no node of another list; deleting the list releases
exactly its nodes and the list itself.
-/

namespace Hiemal

open Foundation

/-! ## Frames of the list functions -/

section Frames

variable {m next : ListMemory} {node other : NodeAddress} {nodes items : List NodeAddress}

theorem list_update
    {change : HmListNode → HmListNode}
    (updated : m.update node change = some next) :
    next.list = m.list := by
  obtain ⟨content, _, rfl⟩ := Option.map_eq_some_iff.mp updated
  rfl

theorem nodes_update
    {change : HmListNode → HmListNode}
    (updated : m.update node change = some next)
    (different : other ≠ node) :
    next.nodes other = m.nodes other := by
  obtain ⟨content, _, rfl⟩ := Option.map_eq_some_iff.mp updated
  exact if_neg different

theorem nodes_writeLink
    {link : Link}
    {target : Option NodeAddress}
    (written : m.writeLink link target = some next)
    (outside : link.owner ≠ some other) :
    next.nodes other = m.nodes other := by
  cases link with
  | head =>
      cases written
      rfl
  | next owner =>
      apply nodes_update written
      intro same
      exact outside (congrArg some same.symm)

/-- A link outside a node is read as before the node was changed. -/
theorem readLink_update
    {change : HmListNode → HmListNode}
    (updated : m.update node change = some next)
    {link : Link}
    (outside : link.owner ≠ some node) :
    next.readLink link = m.readLink link := by
  cases link with
  | head => exact congrArg (fun list => some list.head) (list_update updated)
  | next owner =>
      have different : owner ≠ node := fun same => outside (congrArg some same)
      rw [ListMemory.readLink, ListMemory.readLink, nodes_update updated different]

/-- Linking in a node at the end of a list changes the node and the owner of the last
link. -/
theorem nodes_linkNode
    {index : Int}
    {nodeItr nodePrev : Link}
    (linked : linkNode m node index nodeItr nodePrev = some next)
    (atEnd : m.readLink nodeItr = some none)
    (apart : nodeItr.owner ≠ some node)
    (different : other ≠ node)
    (outside : nodeItr.owner ≠ some other) :
    next.nodes other = m.nodes other := by
  rw [linkNode, atEnd] at linked
  obtain ⟨_, found, linked⟩ := Option.bind_eq_some_iff.mp linked
  cases found
  obtain ⟨first, setNext, linked⟩ := Option.bind_eq_some_iff.mp linked
  obtain ⟨prev, _, linked⟩ := Option.bind_eq_some_iff.mp linked
  obtain ⟨second, setPrev, linked⟩ := Option.bind_eq_some_iff.mp linked
  obtain ⟨target, found, linked⟩ := Option.bind_eq_some_iff.mp linked
  obtain ⟨third, written, linked⟩ := Option.bind_eq_some_iff.mp linked
  -- the last link still points nowhere
  rw [readLink_update setPrev apart, readLink_update setNext apart, atEnd] at found
  cases found
  cases written
  rw [nodes_writeLink linked outside, nodes_update setPrev different,
    nodes_update setNext different]

/-- A list depends on its own nodes. -/
theorem ListHolds.congr
    (holds : ListHolds m nodes items)
    (sameList : next.list = m.list)
    (same : ∀ place ∈ nodes, next.nodes place = m.nodes place) :
    ListHolds next nodes items where
  kind := by
    rw [sameList]
    exact holds.kind
  chain :=
    { linked := by
        rw [sameList]
        apply holds.chain.linked.congr
        intro place member
        rw [ListMemory.links, ListMemory.links, same place member]
      distinct := holds.chain.distinct }
  count := by
    rw [sameList]
    exact holds.count
  shows := by
    rw [← holds.shows]
    apply List.map_congr_left
    intro place member
    rw [ListMemory.itemOf, ListMemory.itemOf, sameList, same place member]

/-- Every node of a list is allocated. -/
theorem ListHolds.allocated
    (holds : ListHolds m nodes items)
    (member : other ∈ nodes) :
    ∃ content, m.nodes other = some content := by
  obtain ⟨links, known⟩ := holds.chain.linked.allocated member
  obtain ⟨content, stored, _⟩ := links_eq_some known
  exact ⟨content, stored⟩

/-- **Registration.** Appending to a reference list adds a node behind the others; the
nodes of other lists stay. -/
theorem ListHolds.hmListAppend
    (holds : ListHolds m nodes items)
    (reference : hmSubtypeId m.list.magic = hmListRefnodeMagic)
    (item : NodeAddress)
    {refnode : NodeAddress}
    (released : m.nodes refnode = none) :
    ∃ next,
      Hiemal.hmListAppend m item refnode = some (next, 0) ∧
        ListHolds next (nodes ++ [refnode]) (items ++ [item]) ∧
          KeepsRest (m.withCell item refnode) next ∧
            ∀ place ∉ nodes, place ≠ refnode → next.nodes place = m.nodes place := by
  have notPlain : ¬hmSubtypeId m.list.magic = 0 := by
    rw [reference]
    decide
  have fresh : refnode ∉ nodes := by
    intro member
    obtain ⟨content, stored⟩ := holds.allocated member
    rw [released] at stored
    cases stored
  obtain ⟨next, returns, nextHolds, keeps⟩ :=
    @ListHolds.hmListInsert _ _ _ holds item refnode
      (fun plain => absurd plain notPlain) (fun _ => released) nodes.length
      (Nat.le_refl nodes.length)
  rw [ListMemory.cellOf, if_pos reference, List.take_length, List.drop_length,
    holds.length_eq, List.take_length, List.drop_length] at nextHolds
  refine ⟨next, ?_, nextHolds, keeps, ?_⟩
  · rw [Hiemal.hmListAppend, hmListInsert_negative _ _ _ (by decide), holds.count,
      returns]
  · intro place outside different
    have chain : Chain m.links m.list.head (nodes ++ []) := by
      rw [List.append_nil]
      exact holds.chain
    obtain ⟨nodePrev, sought, _⟩ := seekLink_head chain
    obtain ⟨nonnegative, within⟩ := holds.accepts (Nat.le_refl nodes.length)
    simp only [Hiemal.hmListInsert, if_neg nonnegative, if_neg within,
      Int.toNat_natCast, sought, if_neg notPlain, if_pos reference,
      Option.bind_eq_bind, Option.bind_some] at returns
    obtain ⟨linked, linking, same⟩ := Option.bind_eq_some_iff.mp returns
    cases same
    -- the link behind the last node is outside the new node
    have owner (address : NodeAddress) (foreign : address ∉ nodes) :
        (linkBehind nodes).owner ≠ some address := by
      rw [owner_linkBehind]
      intro last
      exact foreign (List.mem_of_getLast? last)
    let content : HmListNode := { hmReflistNodeInit with node := some item }
    have placed := holds.setNode fresh (some content)
    have placedChain :
        Chain (m.setNode refnode (some content)).links
          (m.setNode refnode (some content)).list.head (nodes ++ []) := by
      rw [List.append_nil]
      exact placed.chain
    have unchanged := nodes_linkNode linking (readLink_linkBehind placedChain)
      (owner refnode fresh) different (owner place outside)
    exact unchanged.trans (if_neg different)

/-- **Clearing** a list whose nodes have the default free function releases its nodes. -/
theorem clearLoop_releases
    (clientFn : Nat → HmListNode → Option HmListNode)
    {prev first : Option NodeAddress}
    {fuel : Nat}
    (segment : Segment m.links prev first nodes none)
    (distinct : nodes.Nodup)
    (enough : nodes.length ≤ fuel)
    (default : ∀ place ∈ nodes, ∀ content, m.nodes place = some content →
      content.freeFn = some .defaultNodeFree) :
    ∃ next, clearLoop clientFn fuel m first = some next ∧
      next.list = m.list ∧
        (∀ place ∈ nodes, next.nodes place = none) ∧
          ∀ place ∉ nodes, next.nodes place = m.nodes place := by
  induction nodes generalizing m prev first fuel with
  | nil =>
      obtain rfl : first = none := segment
      exact ⟨m, by cases fuel <;> rfl, rfl,
        fun _ member => absurd member List.not_mem_nil, fun _ _ => rfl⟩
  | cons node nodes inductionHypothesis =>
      obtain ⟨rfl, next, links, rest⟩ := segment
      rw [List.nodup_cons] at distinct
      obtain ⟨fuel, rfl⟩ : ∃ more, fuel = more + 1 :=
        Nat.exists_eq_succ_of_ne_zero (by rw [List.length_cons] at enough; omega)
      obtain ⟨content, stored, _, nextLink⟩ := links_eq_some links
      have freeFn := default node List.mem_cons_self content stored
      have keeps (place : NodeAddress) (other : place ≠ node) :
          (m.setNode node none).nodes place = m.nodes place := if_neg other
      obtain ⟨after, returns, list_eq, gone, stays⟩ :=
        inductionHypothesis (segment_setNode rest distinct.1 none) distinct.2
          (Nat.le_of_succ_le_succ enough) (by
            intro place member found at'
            rw [keeps place (ne_of_mem_of_not_mem member distinct.1)] at at'
            exact default place (List.mem_cons_of_mem node member) found at')
      refine ⟨after, ?_, list_eq, ?_, ?_⟩
      · simp only [clearLoop, stored, Option.bind_eq_bind, Option.bind_some, nextLink,
          freeFn, freeNode_returns clientFn stored, ListNodeFn.leaves]
        exact returns
      · intro place member
        rcases List.mem_cons.mp member with rfl | member
        · rw [stays place distinct.1]
          exact if_pos rfl
        · exact gone place member
      · intro place outside
        rw [List.mem_cons, not_or] at outside
        rw [stays place outside.2, keeps place outside.1]

end Frames

/-! ## On the heap -/

namespace ObjectHeap

variable {heap after : ObjectHeap} {list : Nat} {nodes items : List Nat}

/-- A block that is not the list is as the list function left its node. -/
theorem block_withMemory
    (m : ListMemory)
    {place : Nat}
    (other : place ≠ list)
    (free : heap.block place = none ∨
      ∃ content, heap.block place = some (.refnode content)) :
    (withMemory heap list m).block place = (m.nodes place).map .refnode := by
  unfold withMemory
  rcases free with released | ⟨content, stored⟩
  · simp only [if_neg other, released]
  · simp only [if_neg other, stored]

/-- A block whose node a list function did not change stays. -/
theorem block_withMemory_of_same
    {m : ListMemory}
    {place : Nat}
    (other : place ≠ list)
    (same : m.nodes place = ObjectHeap.nodes heap place) :
    (withMemory heap list m).block place = heap.block place := by
  unfold withMemory
  simp only [if_neg other, same, ObjectHeap.nodes]
  cases heap.block place with
  | none => rfl
  | some content => cases content <;> rfl

@[simp] theorem block_withMemory_self (m : ListMemory) :
    (withMemory heap list m).block list = some (.eventList m.list) := by
  unfold withMemory
  simp only [if_pos]

/-- An event list with its nodes, which show the events. -/
structure EventListAt
    (heap : ObjectHeap)
    (list : Nat)
    (nodes items : List Nat) : Prop where
  stored : ∃ content,
    heap.block list = some (.eventList content) ∧
      hmSubtypeId content.magic = hmListRefnodeMagic ∧
        ListHolds { list := content, nodes := ObjectHeap.nodes heap } nodes items
  default : ∀ place ∈ nodes, ∃ content,
    heap.block place = some (.refnode content) ∧ content.freeFn = some .defaultNodeFree

theorem EventListAt.congr
    (at' : EventListAt heap list nodes items)
    (same : ∀ place ∈ list :: nodes, after.block place = heap.block place) :
    EventListAt after list nodes items where
  stored := by
    obtain ⟨content, stored, reference, holds⟩ := at'.stored
    refine ⟨content, ?_, reference, ?_⟩
    · rw [same list List.mem_cons_self, stored]
    · refine holds.congr rfl ?_
      intro place member
      show ObjectHeap.nodes after place = ObjectHeap.nodes heap place
      rw [ObjectHeap.nodes, ObjectHeap.nodes,
        same place (List.mem_cons_of_mem list member)]
  default := by
    intro place member
    rw [same place (List.mem_cons_of_mem list member)]
    exact at'.default place member

/-- A list with the nodes it had, in a memory that a list function was run on. -/
theorem nodes_withMemory
    {m : ListMemory}
    {place : Nat}
    (other : place ≠ list)
    (free : heap.block place = none ∨
      ∃ content, heap.block place = some (.refnode content)) :
    ObjectHeap.nodes (withMemory heap list m) place = m.nodes place := by
  rw [ObjectHeap.nodes, block_withMemory m other free]
  cases m.nodes place <;> rfl

/-- **Registration on the heap.** -/
theorem EventListAt.hmListAppend
    (at' : EventListAt heap list nodes items)
    (holds : heap.Holds (list :: nodes))
    (e : Nat) :
    ∃ after, ObjectHeap.hmListAppend heap list e = some after ∧
      heap.Turns after (list :: nodes) (list :: (nodes ++ [heap.next])) ∧
        EventListAt after list (nodes ++ [heap.next]) (items ++ [e]) := by
  obtain ⟨content, stored, reference, listHolds⟩ := at'.stored
  have beyond := holds.beyond heap.next (Nat.le_refl _)
  have released : ObjectHeap.nodes heap heap.next = none := by
    rw [ObjectHeap.nodes, beyond]
  obtain ⟨m, returns, mHolds, keeps, outside⟩ :=
    listHolds.hmListAppend reference e released
  have listBelow := holds.below (List.mem_cons_self : list ∈ list :: nodes)
  have apart := List.nodup_cons.mp holds.distinct
  let grown : ObjectHeap := { heap with next := heap.next + 1 }
  -- the new node and the old ones
  have node (place : Nat) (member : place ∈ nodes ++ [heap.next]) :
      place ≠ list ∧
        (grown.block place = none ∨
          ∃ content, grown.block place = some (.refnode content)) := by
    rcases List.mem_append.mp member with member | member
    · obtain ⟨content, stored, _⟩ := at'.default place member
      exact ⟨ne_of_mem_of_not_mem member apart.1, Or.inr ⟨content, stored⟩⟩
    · rw [List.mem_singleton.mp member]
      exact ⟨by omega, Or.inl beyond⟩
  have foreign (place : Nat) (notList : place ≠ list) (notNode : place ∉ nodes)
      (notNew : place ≠ heap.next) :
      (withMemory grown list m).block place = heap.block place :=
    @block_withMemory_of_same grown list m place notList (outside place notNode notNew)
  have freeFn (place : Nat) (member : place ∈ nodes ++ [heap.next]) :
      ∃ content, m.nodes place = some content ∧
        content.freeFn = some .defaultNodeFree := by
    obtain ⟨content, after⟩ := mHolds.allocated member
    refine ⟨content, after, ?_⟩
    have rest := keeps.rest_eq place
    rw [after, Option.map_some, ListMemory.withCell, if_pos reference] at rest
    rcases List.mem_append.mp member with old | new
    · obtain ⟨before, beforeStored, beforeFree⟩ := at'.default place old
      have different := ne_of_lt (holds.below (List.mem_cons_of_mem list old))
      have known : ObjectHeap.nodes heap place = some before := by
        rw [ObjectHeap.nodes, beforeStored]
      rw [ListMemory.setNode] at rest
      simp only [if_neg different, known, Option.map_some, Option.some.injEq] at rest
      exact (congrArg HmListNode.freeFn rest).trans beforeFree
    · rw [List.mem_singleton.mp new, ListMemory.setNode] at rest
      simp only [if_pos, Option.map_some, Option.some.injEq] at rest
      exact congrArg HmListNode.freeFn rest
  have atAfter : EventListAt (withMemory grown list m) list (nodes ++ [heap.next])
      (items ++ [e]) :=
    { stored := by
        refine ⟨m.list, block_withMemory_self m, ?_, ?_⟩
        · rw [keeps.magic_eq, ListMemory.withCell, if_pos reference]
          exact reference
        · refine mHolds.congr rfl ?_
          intro place member
          exact nodes_withMemory (node place member).1 (node place member).2
      default := by
        intro place member
        obtain ⟨content, stored, default⟩ := freeFn place member
        refine ⟨content, ?_, default⟩
        rw [block_withMemory m (node place member).1 (node place member).2, stored,
          Option.map_some] }
  refine ⟨withMemory grown list m, ?_, ?_, atAfter⟩
  · rw [ObjectHeap.hmListAppend, listMemory, stored]
    simp only [Option.bind_eq_bind, Option.bind_some, returns]
    rfl
  exact
    { holds :=
        { distinct := by
            apply List.nodup_cons.mpr
            refine ⟨fun member => (node list member).1 rfl, ?_⟩
            exact mHolds.chain.distinct
          allocated := by
            intro place member
            rcases List.mem_cons.mp member with rfl | member
            · rw [block_withMemory_self]
              rfl
            · obtain ⟨content, stored, _⟩ := atAfter.default place member
              rw [stored]
              rfl
          beyond := by
            intro place beyondAfter
            have behind : heap.next + 1 ≤ place := beyondAfter
            rw [foreign place (by omega) ?_ (by omega)]
            · exact holds.beyond place (by omega)
            · intro member
              have below := holds.below (List.mem_cons_of_mem list member)
              omega }
      next_le := Nat.le_succ _
      outside := by
        intro place below outside
        rw [List.mem_cons, not_or] at outside
        exact foreign place outside.1 outside.2 (by omega)
      released := by
        intro place source gone
        rw [List.mem_cons, List.mem_append, List.mem_singleton, not_or, not_or] at gone
        rw [foreign place gone.1 gone.2.1 gone.2.2]
        apply holds.beyond place
        apply source.resolve_left
        rw [List.mem_cons]
        exact not_or.mpr ⟨gone.1, gone.2.1⟩
      origin := by
        intro place member
        rcases List.mem_cons.mp member with rfl | member
        · exact Or.inl List.mem_cons_self
        rcases List.mem_append.mp member with member | member
        · exact Or.inl (List.mem_cons_of_mem list member)
        · exact Or.inr (Nat.le_of_eq (List.mem_singleton.mp member).symm) }

/-- **Deletion of an event list** releases the list and its nodes. -/
theorem EventListAt.hmEventListDelete
    (at' : EventListAt heap list nodes items)
    (holds : heap.Holds (list :: nodes)) :
    ∃ after, ObjectHeap.hmEventListDelete heap list = some after ∧
      heap.Turns after (list :: nodes) [] := by
  obtain ⟨content, stored, reference, listHolds⟩ := at'.stored
  have apart := List.nodup_cons.mp holds.distinct
  have isNode (place : Nat) (member : place ∈ nodes) :
      heap.block place = none ∨ ∃ content, heap.block place = some (.refnode content) := by
    obtain ⟨content, stored, _⟩ := at'.default place member
    exact Or.inr ⟨content, stored⟩
  have default (place : Nat) (member : place ∈ nodes) (content : HmListNode)
      (found : ObjectHeap.nodes heap place = some content) :
      content.freeFn = some .defaultNodeFree := by
    obtain ⟨other, stored, freeFn⟩ := at'.default place member
    rw [ObjectHeap.nodes, stored] at found
    cases found
    exact freeFn
  obtain ⟨m, returns, list_eq, gone, stays⟩ :=
    clearLoop_releases (fun _ content => some content) listHolds.chain.linked
      listHolds.chain.distinct (Nat.le_of_eq listHolds.count.symm) default
  let cleared : ListMemory := { m with list := { m.list with head := none, nItems := 0 } }
  have foreign (place : Nat) (notList : place ≠ list) (notNode : place ∉ nodes) :
      (withMemory heap list cleared).block place = heap.block place :=
    block_withMemory_of_same notList (stays place notNode)
  have emptied (place : Nat) (member : place ∈ nodes) :
      (withMemory heap list cleared).block place = none := by
    rw [block_withMemory cleared (ne_of_mem_of_not_mem member apart.1)
      (isNode place member), gone place member, Option.map_none]
  have clearing : heap.Turns (withMemory heap list cleared) (list :: nodes) [list] :=
    { holds :=
        { distinct := List.nodup_singleton list
          allocated := by
            intro place member
            rw [List.mem_singleton.mp member, block_withMemory_self]
            rfl
          beyond := by
            intro place beyond
            have behind : heap.next ≤ place := beyond
            have outside : place ∉ list :: nodes := by
              intro member
              have below := holds.below member
              omega
            rw [List.mem_cons, not_or] at outside
            rw [foreign place outside.1 outside.2]
            exact holds.beyond place behind }
      next_le := Nat.le_refl _
      outside := by
        intro place _ outside
        rw [List.mem_cons, not_or] at outside
        exact foreign place outside.1 outside.2
      released := by
        intro place source notList
        rw [List.mem_singleton] at notList
        by_cases member : place ∈ nodes
        · exact emptied place member
        · rw [foreign place notList member]
          apply holds.beyond place
          apply source.resolve_left
          rw [List.mem_cons]
          exact not_or.mpr ⟨notList, member⟩
      origin := by
        intro place member
        rw [List.mem_singleton.mp member]
        exact Or.inl List.mem_cons_self }
  obtain ⟨after, freed, freeing⟩ := clearing.holds.free
  refine ⟨after, ?_, clearing.trans freeing⟩
  rw [ObjectHeap.hmEventListDelete, listMemory, stored]
  simp only [Option.bind_eq_bind, Option.bind_some, Hiemal.hmListClear, returns]
  exact freed

end ObjectHeap

end Hiemal
