import Hiemal.Common.Defs
import Hiemal.Foundation.LinkedChain

/-!
# Linked lists represent sequences

The nodes of a list form a doubly linked chain, and the list shows a sequence of
items: the nodes themselves for a plain list, the referenced nodes for a
reference list. Every list function keeps the chain and acts on the sequence like
the corresponding list operation.
-/

namespace Hiemal

open Foundation

/-! ## Links in memory -/

/-- The links of the nodes in memory. -/
def ListMemory.links (m : ListMemory) : LinkMap NodeAddress :=
  fun node => (m.nodes node).map fun content => ⟨content.prev, content.next⟩

/-- The node a pointer to a link lies in, if it is not the list head. -/
def Link.owner : Link → Option NodeAddress
  | .head => none
  | .next node => some node

/-- The pointer to the link behind the given nodes. -/
def linkBehind (nodes : List NodeAddress) : Link :=
  match nodes.getLast? with
  | none => .head
  | some node => .next node

@[simp] theorem owner_linkBehind (nodes : List NodeAddress) :
    (linkBehind nodes).owner = nodes.getLast? := by
  unfold linkBehind
  cases nodes.getLast? <;> rfl

/-- The item a node of a list shows: itself, or the node it references. -/
def ListMemory.itemOf (m : ListMemory) (node : NodeAddress) :
    Option NodeAddress :=
  if hmSubtypeId m.list.magic = hmListRefnodeMagic then
    ((m.nodes node).map HmListNode.node).join
  else some node

/-- What a node has besides its links. -/
def HmListNode.unlinked (content : HmListNode) : HmListNode :=
  { content with prev := none, next := none }

/-- One memory differs from another in the links of its nodes and the head of the
list only; these are as given. -/
structure Relinks
    (m next : ListMemory)
    (links : LinkMap NodeAddress)
    (head : Option NodeAddress) : Prop where
  links_eq : next.links = links
  head_eq : next.list.head = head
  magic_eq : next.list.magic = m.list.magic
  nItems_eq : next.list.nItems = m.list.nItems
  rest_eq : ∀ node,
    (next.nodes node).map HmListNode.unlinked =
      (m.nodes node).map HmListNode.unlinked

/-- One memory differs from another in links and in the head and the count of the
list at most. -/
structure KeepsRest (m next : ListMemory) : Prop where
  magic_eq : next.list.magic = m.list.magic
  rest_eq : ∀ node,
    (next.nodes node).map HmListNode.unlinked =
      (m.nodes node).map HmListNode.unlinked

theorem Relinks.itemOf_eq
    {m next : ListMemory}
    {links : LinkMap NodeAddress}
    {head : Option NodeAddress}
    (relinks : Relinks m next links head) :
    next.itemOf = m.itemOf := by
  funext node
  have rest (content : Option HmListNode) :
      content.map HmListNode.node =
        (content.map HmListNode.unlinked).map HmListNode.node := by
    rw [Option.map_map]
    rfl
  unfold ListMemory.itemOf
  rw [relinks.magic_eq, rest, relinks.rest_eq, ← rest]

section Accesses

variable {m : ListMemory} {node : NodeAddress} {links : Links NodeAddress}

/-- An access to a node in a chain succeeds. -/
theorem links_eq_some
    (known : m.links node = some links) :
    ∃ content, m.nodes node = some content ∧
      content.prev = links.prev ∧ content.next = links.next := by
  obtain ⟨content, stored, rfl⟩ := Option.map_eq_some_iff.mp known
  exact ⟨content, stored, rfl, rfl⟩

/-- Writing a node changes its links only. -/
theorem links_setNode
    (m : ListMemory)
    (node : NodeAddress)
    (content : Option HmListNode)
    {other : NodeAddress}
    (different : other ≠ node) :
    (m.setNode node content).links other = m.links other := by
  simp [ListMemory.links, ListMemory.setNode, different]

/-- Changing the links of an allocated node. -/
theorem update_relinks
    {change : HmListNode → HmListNode}
    {linkChange : Links NodeAddress → Links NodeAddress}
    (known : m.links node = some links)
    (changes : ∀ content,
      (⟨(change content).prev, (change content).next⟩ : Links NodeAddress) =
        linkChange ⟨content.prev, content.next⟩)
    (keeps : ∀ content, (change content).unlinked = content.unlinked) :
    ∃ next, m.update node change = some next ∧
      Relinks m next (m.links.modify (some node) linkChange) m.list.head := by
  obtain ⟨content, stored, _, _⟩ := links_eq_some known
  refine ⟨_, by rw [ListMemory.update, stored, Option.map_some], ?_⟩
  exact
    { links_eq := by
        funext other
        by_cases same : other = node
        · subst same
          simp [ListMemory.links, ListMemory.setNode, LinkMap.modify_self,
            stored, changes]
        · rw [links_setNode m node _ same,
            LinkMap.modify_of_ne _ (by simpa using Ne.symm same)]
      head_eq := rfl
      magic_eq := rfl
      nItems_eq := rfl
      rest_eq := by
        intro other
        by_cases same : other = node
        · subst same
          simp [ListMemory.setNode, stored, keeps]
        · simp [ListMemory.setNode, same] }

theorem setPrev_relinks
    (known : m.links node = some links)
    (prev : Option NodeAddress) :
    ∃ next, m.update node (fun content => { content with prev := prev }) =
        some next ∧
      Relinks m next (m.links.setPrev (some node) prev) m.list.head :=
  update_relinks known (fun _ => rfl) (fun _ => rfl)

theorem setNext_relinks
    (known : m.links node = some links)
    (next : Option NodeAddress) :
    ∃ after, m.update node (fun content => { content with next := next }) =
        some after ∧
      Relinks m after (m.links.setNext (some node) next) m.list.head :=
  update_relinks known (fun _ => rfl) (fun _ => rfl)

/-- Redirecting the previous link of a node, if there is one. -/
theorem writePrev_relinks
    {target : Option NodeAddress}
    (known : ∀ node ∈ target, ∃ links, m.links node = some links)
    (prev : Option NodeAddress) :
    ∃ next, m.writePrev target prev = some next ∧
      Relinks m next (m.links.setPrev target prev) m.list.head := by
  cases target with
  | none =>
      exact ⟨m, rfl,
        { links_eq := (LinkMap.modify_none _).symm
          head_eq := rfl
          magic_eq := rfl
          nItems_eq := rfl
          rest_eq := fun _ => rfl }⟩
  | some node =>
      obtain ⟨links, known⟩ := known node rfl
      exact setPrev_relinks known prev

/-- Reading a link. -/
theorem readLink_eq
    (m : ListMemory)
    (link : Link) :
    m.readLink link =
      match link.owner with
      | none => some m.list.head
      | some node => (m.links node).map Links.next := by
  cases link with
  | head => rfl
  | next node =>
      simp only [ListMemory.readLink, Link.owner, ListMemory.links,
        Option.map_map]
      rfl

/-- Writing a link whose owner is allocated. -/
theorem writeLink_relinks
    {link : Link}
    (known : ∀ node ∈ link.owner, ∃ links, m.links node = some links)
    (target : Option NodeAddress) :
    ∃ next, m.writeLink link target = some next ∧
      Relinks m next (m.links.setNext link.owner target)
        (match link.owner with
          | none => target
          | some _ => m.list.head) := by
  cases link with
  | head =>
      exact ⟨_, rfl,
        { links_eq := (LinkMap.modify_none _).symm
          head_eq := rfl
          magic_eq := rfl
          nItems_eq := rfl
          rest_eq := fun _ => rfl }⟩
  | next node =>
      obtain ⟨links, known⟩ := known node rfl
      exact setNext_relinks known target

/-- A link that was written points to its new target. -/
theorem readLink_written
    {next : ListMemory}
    {link : Link}
    {target : Option NodeAddress}
    (known : ∀ node ∈ link.owner, ∃ links, m.links node = some links)
    (relinks :
      Relinks m next (m.links.setNext link.owner target)
        (match link.owner with
          | none => target
          | some _ => m.list.head)) :
    next.readLink link = some target := by
  rw [readLink_eq, relinks.links_eq, relinks.head_eq]
  cases link with
  | head => rfl
  | next node =>
      obtain ⟨links, known⟩ := known node rfl
      simp [Link.owner, LinkMap.setNext, LinkMap.modify_self, known]

end Accesses

theorem Relinks.trans
    {first second third : ListMemory}
    {links links' : LinkMap NodeAddress}
    {head head' : Option NodeAddress}
    (left : Relinks first second links head)
    (right : Relinks second third links' head') :
    Relinks first third links' head' where
  links_eq := right.links_eq
  head_eq := right.head_eq
  magic_eq := right.magic_eq.trans left.magic_eq
  nItems_eq := right.nItems_eq.trans left.nItems_eq
  rest_eq := fun node => (right.rest_eq node).trans (left.rest_eq node)

/-! ## Moving along a chain -/

section Moving

variable {m : ListMemory} {xs ys : List NodeAddress}

/-- The link behind the first nodes of a chain points to the next one. -/
theorem readLink_linkBehind
    (chain : Chain m.links m.list.head (xs ++ ys)) :
    m.readLink (linkBehind xs) = some ys.head? := by
  rw [readLink_eq, owner_linkBehind]
  rcases List.eq_nil_or_concat xs with rfl | ⟨before, node, rfl⟩
  · have entered := chain.linked.first_eq
    simpa using entered
  · have links := chain.linked
    rw [List.concat_eq_append, List.append_assoc, List.singleton_append] at links
    simp [links.links_eq]

/-- The cursor of the list functions moves along the chain. The cursor before it
ends one link earlier. -/
theorem seekLink_from
    {zs : List NodeAddress}
    (chain : Chain m.links m.list.head (xs ++ zs ++ ys))
    (before : Link) :
    ∃ nodePrev,
      seekLink m zs.length (linkBehind xs) before =
          some (linkBehind (xs ++ zs), nodePrev) ∧
        (zs ≠ [] → nodePrev = linkBehind (xs ++ zs).dropLast) := by
  induction zs generalizing xs before with
  | nil => exact ⟨before, by simp [seekLink], fun nonempty => absurd rfl nonempty⟩
  | cons node zs inductionHypothesis =>
      rw [List.append_assoc] at chain
      have read := readLink_linkBehind chain
      have moved : linkBehind (xs ++ [node]) = .next node := by
        simp [linkBehind]
      rw [← List.append_assoc, List.append_cons] at chain
      obtain ⟨nodePrev, sought, previous⟩ :=
        inductionHypothesis chain (linkBehind xs)
      rw [moved, ← List.append_cons] at sought
      refine ⟨nodePrev, ?_, fun _ => ?_⟩
      · simpa [seekLink, read] using sought
      · cases zs with
        | nil =>
            simp only [List.length_nil, seekLink, Option.some.injEq,
              Prod.mk.injEq] at sought
            rw [← sought.2, List.dropLast_concat]
        | cons other zs =>
            rw [previous (List.cons_ne_nil other zs), ← List.append_cons]

/-- The cursor that starts at the head. -/
theorem seekLink_head
    (chain : Chain m.links m.list.head (xs ++ ys)) :
    ∃ nodePrev,
      seekLink m xs.length .head .head = some (linkBehind xs, nodePrev) ∧
        (xs ≠ [] → nodePrev = linkBehind xs.dropLast) := by
  have fromHead : Chain m.links m.list.head ([] ++ xs ++ ys) := chain
  exact seekLink_from fromHead .head

/-- Following next links. -/
theorem followNext_from
    (chain : Chain m.links m.list.head (xs ++ ys))
    {index : Nat}
    (inRange : index ≤ ys.length) :
    followNext m index ys.head? = some ys[index]? := by
  induction index generalizing xs ys with
  | zero => simp [followNext, List.head?_eq_getElem?]
  | succ index inductionHypothesis =>
      cases ys with
      | nil => exact absurd inRange (Nat.not_succ_le_zero index)
      | cons node ys =>
          obtain ⟨content, stored, _, next⟩ :=
            links_eq_some chain.linked.links_eq
          rw [List.append_cons] at chain
          have rest := inductionHypothesis chain (Nat.le_of_succ_le_succ inRange)
          simp only [Option.or_none] at next
          simpa [followNext, stored, next] using rest

end Moving

/-! ## The list functions on a chain -/

section Functions

variable {m : ListMemory} {xs ys cells : List NodeAddress}

/-- The head pointer after the link behind the first nodes is redirected. -/
theorem head_redirected
    (chain : Chain m.links m.list.head (xs ++ ys))
    (target : Option NodeAddress) :
    (match xs.getLast? with
      | none => target
      | some _ => m.list.head) = xs.head?.or target := by
  have entered := chain.linked.first_eq
  rcases List.eq_nil_or_concat xs with rfl | ⟨before, node, rfl⟩
  · simp
  · rw [entered, List.concat_eq_append, List.getLast?_concat]
    cases before <;> rfl

/-- The owner of the link behind the first nodes is allocated. -/
theorem owner_allocated
    {links : LinkMap NodeAddress}
    {head : Option NodeAddress}
    (chain : Chain links head (xs ++ ys)) :
    ∀ node ∈ (linkBehind xs).owner, ∃ found, links node = some found := by
  intro node owner
  rw [owner_linkBehind] at owner
  exact chain.linked.allocated
    (List.mem_append_left ys (List.mem_of_getLast? owner))

theorem head_allocated
    {links : LinkMap NodeAddress}
    {head : Option NodeAddress}
    (chain : Chain links head (xs ++ ys)) :
    ∀ node ∈ ys.head?, ∃ found, links node = some found := fun _ first =>
  chain.linked.allocated
    (List.mem_append_right xs (List.mem_of_mem_head? first))

/-- Linking in a node behind the first nodes of a chain. -/
theorem linkNode_relinks
    (chain : Chain m.links m.list.head (xs ++ ys))
    {node : NodeAddress}
    (fresh : node ∉ xs ++ ys)
    (allocated : ∃ links, m.links node = some links)
    {nodePrev : Link}
    (previous : xs ≠ [] → nodePrev = linkBehind xs.dropLast) :
    ∃ next links head,
      linkNode m node xs.length (linkBehind xs) nodePrev = some next ∧
        Relinks m next links head ∧ Chain links head (xs ++ node :: ys) := by
  have outside : ∀ other ∈ some node, other ∉ xs ++ ys := by
    rintro other ⟨⟩
    exact fresh
  obtain ⟨links, known⟩ := allocated
  -- the links of the new node
  obtain ⟨m₁, set₁, relinks₁⟩ := setNext_relinks known ys.head?
  have chain₁ : Chain m₁.links m₁.list.head (xs ++ ys) := by
    rw [relinks₁.links_eq, relinks₁.head_eq]
    exact chain.modify _ outside
  have known₁ : m₁.links node = some ⟨links.prev, ys.head?⟩ := by
    rw [relinks₁.links_eq, LinkMap.setNext, LinkMap.modify_self, known]
    rfl
  obtain ⟨m₂, set₂, relinks₂⟩ := setPrev_relinks known₁ xs.getLast?
  have chain₂ : Chain m₂.links m₂.list.head (xs ++ ys) := by
    rw [relinks₂.links_eq, relinks₂.head_eq]
    exact chain₁.modify _ outside
  have known₂ : m₂.links node = some ⟨xs.getLast?, ys.head?⟩ := by
    rw [relinks₂.links_eq, LinkMap.setPrev, LinkMap.modify_self, known₁]
    rfl
  -- the links to the new node
  obtain ⟨m₃, set₃, relinks₃⟩ :=
    writePrev_relinks (head_allocated chain₂) (some node)
  have owner₃ :
      ∀ other ∈ (linkBehind xs).owner, ∃ found, m₃.links other = some found := by
    intro other owner
    rw [relinks₃.links_eq]
    exact LinkMap.modify_allocated _ (owner_allocated chain₂ other owner)
  obtain ⟨m₄, set₄, relinks₄⟩ := writeLink_relinks owner₃ (some node)
  have readPrev :
      (if (xs.length : Int) = 0 then some none else m₁.readLink nodePrev) =
        some xs.getLast? := by
    rcases List.eq_nil_or_concat xs with rfl | ⟨before, last, rfl⟩
    · rfl
    · rw [List.concat_eq_append] at previous chain₁ ⊢
      rw [previous (by simp), List.dropLast_concat, if_neg (by simp; omega)]
      rw [List.append_assoc] at chain₁
      simpa using readLink_linkBehind chain₁
  refine ⟨m₄, _, _, ?_,
    ((relinks₁.trans relinks₂).trans relinks₃).trans relinks₄, ?_⟩
  · simp only [linkNode, readLink_linkBehind chain, set₁, readPrev, set₂,
      readLink_linkBehind chain₂, set₃, set₄, Option.bind_eq_bind,
      Option.bind_some]
  · rw [owner_linkBehind, relinks₃.links_eq, relinks₃.head_eq,
      head_redirected chain₂]
    exact chain₂.insert fresh known₂

/-- Unlinking the node behind the first nodes of a chain. -/
theorem unlinkNode_relinks
    {old : NodeAddress}
    (chain : Chain m.links m.list.head (xs ++ old :: ys)) :
    ∃ next links head,
      unlinkNode m (linkBehind xs) = some (old, next) ∧
        Relinks m next links head ∧ Chain links head (xs ++ ys) ∧
          ∃ content, next.nodes old = some content := by
  have read := readLink_linkBehind chain
  have known := chain.linked.links_eq
  rw [Option.or_none, Option.or_none] at known
  obtain ⟨content, stored, _, next⟩ := links_eq_some known
  have owner := owner_allocated chain
  obtain ⟨m₁, set₁, relinks₁⟩ := writeLink_relinks owner content.next
  have read₁ := readLink_written owner relinks₁
  have lastNotOld : xs.getLast? ≠ some old := by
    intro last
    have distinct := chain.distinct
    rw [List.nodup_append] at distinct
    exact distinct.2.2 old (List.mem_of_getLast? last) old List.mem_cons_self rfl
  have known₁ : m₁.links old = some ⟨xs.getLast?, ys.head?⟩ := by
    rw [relinks₁.links_eq, owner_linkBehind, LinkMap.setNext,
      LinkMap.modify_of_ne _ lastNotOld, known]
  obtain ⟨content₁, stored₁, prev₁, _⟩ := links_eq_some known₁
  have head₁ :
      ∀ node ∈ content.next, ∃ found, m₁.links node = some found := by
    rw [next, relinks₁.links_eq]
    rw [List.append_cons] at chain
    exact fun node first =>
      LinkMap.modify_allocated _ (head_allocated chain node first)
  obtain ⟨m₂, set₂, relinks₂⟩ := writePrev_relinks head₁ content₁.prev
  have allocated₂ : ∃ links, m₂.links old = some links := by
    rw [relinks₂.links_eq]
    exact LinkMap.modify_allocated _ ⟨_, known₁⟩
  obtain ⟨links₂, known₂⟩ := allocated₂
  obtain ⟨content₂, stored₂, _, _⟩ := links_eq_some known₂
  refine ⟨m₂, _, _, ?_, relinks₁.trans relinks₂, ?_, content₂, stored₂⟩
  · simp only [unlinkNode, read, List.head?_cons, stored, set₁, stored₁, read₁,
      set₂, Option.bind_eq_bind, Option.bind_some, pure]
  · rw [relinks₁.links_eq, relinks₁.head_eq, owner_linkBehind, prev₁, next,
      head_redirected chain]
    exact chain.remove

/-- Freeing an allocated node changes that node only. -/
theorem freeNode_returns
    (clientFn : Nat → HmListNode → Option HmListNode)
    {node : NodeAddress}
    {content : HmListNode}
    (stored : m.nodes node = some content)
    (freeFn : ListNodeFn) :
    m.freeNode clientFn freeFn node =
      some (m.setNode node (freeFn.leaves clientFn content)) := by
  rw [ListMemory.freeNode, stored, Option.map_some]

/-- Writing a node outside a segment keeps the segment. -/
theorem segment_setNode
    {prev first out : Option NodeAddress}
    (segment : Segment m.links prev first cells out)
    {node : NodeAddress}
    (outside : node ∉ cells)
    (content : Option HmListNode) :
    Segment (m.setNode node content).links prev first cells out :=
  segment.congr fun _ member =>
    links_setNode m node content fun same => outside (same ▸ member)

/-- The loop of `hm_list_clear` ends at the end of a segment, whatever the free
functions leave. -/
theorem clearLoop_returns
    (clientFn : Nat → HmListNode → Option HmListNode)
    {prev first : Option NodeAddress}
    {fuel : Nat}
    (segment : Segment m.links prev first cells none)
    (distinct : cells.Nodup)
    (enough : cells.length ≤ fuel) :
    ∃ next, clearLoop clientFn fuel m first = some next ∧
      next.list = m.list := by
  induction cells generalizing m prev first fuel with
  | nil =>
      obtain rfl : first = none := segment
      exact ⟨m, by cases fuel <;> rfl, rfl⟩
  | cons node cells inductionHypothesis =>
      obtain ⟨rfl, next, links, rest⟩ := segment
      rw [List.nodup_cons] at distinct
      obtain ⟨fuel, rfl⟩ : ∃ more, fuel = more + 1 :=
        Nat.exists_eq_succ_of_ne_zero (by rw [List.length_cons] at enough; omega)
      obtain ⟨content, stored, _, nextLink⟩ := links_eq_some links
      have fuelEnough : cells.length ≤ fuel := Nat.le_of_succ_le_succ enough
      simp only [clearLoop, stored, Option.bind_eq_bind, Option.bind_some,
        nextLink]
      cases content.freeFn with
      | none =>
          exact inductionHypothesis rest distinct.2 fuelEnough
      | some freeFn =>
          simp only [freeNode_returns clientFn stored, Option.bind_some]
          exact inductionHypothesis (segment_setNode rest distinct.1 _)
            distinct.2 fuelEnough

end Functions

end Hiemal
