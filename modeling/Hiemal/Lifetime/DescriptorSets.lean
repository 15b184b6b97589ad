import Hiemal.Buffer.Descriptors
import Hiemal.Lifetime.Defs

/-!
# Descriptor sets on the heap

A descriptor set is a singly linked chain of nodes behind a block of its own. The walks
along it reach every node, an insertion makes at most one new node, and a deletion
releases exactly the nodes and the block.
-/

namespace Hiemal

open Foundation

namespace ObjectHeap

variable {heap after : ObjectHeap} {first out : Option Nat} {nodes : List Nat}
variable {fds : List Int}

/-- Nodes with descriptors, linked from `first` on; the last one points to `out`. -/
def FdChain (heap : ObjectHeap) :
    (first : Option Nat) → (nodes : List Nat) → (fds : List Int) →
      (out : Option Nat) → Prop
  | first, [], [], out => first = out
  | first, node :: nodes, fd :: fds, out =>
      first = some node ∧
        ∃ next, heap.block node = some (.fdNode fd next) ∧ FdChain heap next nodes fds out
  | _, _, _, _ => False

theorem FdChain.length_eq
    (chain : FdChain heap first nodes fds out) :
    nodes.length = fds.length := by
  induction nodes generalizing first fds with
  | nil =>
      cases fds with
      | nil => rfl
      | cons fd fds => exact absurd chain id
  | cons node nodes inductionHypothesis =>
      cases fds with
      | nil => exact absurd chain id
      | cons fd fds =>
          obtain ⟨_, next, _, rest⟩ := chain
          rw [List.length_cons, List.length_cons, inductionHypothesis rest]

theorem FdChain.congr
    (chain : FdChain heap first nodes fds out)
    (same : ∀ node ∈ nodes, after.block node = heap.block node) :
    FdChain after first nodes fds out := by
  induction nodes generalizing first fds with
  | nil =>
      cases fds with
      | nil => exact chain
      | cons fd fds => exact chain
  | cons node nodes inductionHypothesis =>
      cases fds with
      | nil => exact chain
      | cons fd fds =>
          obtain ⟨entered, next, stored, rest⟩ := chain
          rw [List.forall_mem_cons] at same
          exact ⟨entered, next, same.1.trans stored, inductionHypothesis rest same.2⟩

/-- The last node apart from the others. -/
theorem FdChain.concat
    {last : Nat}
    {lastFd : Int} :
    FdChain heap first (nodes ++ [last]) (fds ++ [lastFd]) out ↔
      FdChain heap first nodes fds (some last) ∧
        heap.block last = some (.fdNode lastFd out) := by
  induction nodes generalizing first fds with
  | nil =>
      cases fds with
      | nil =>
          constructor
          · rintro ⟨entered, next, stored, rfl⟩
            exact ⟨entered, stored⟩
          · rintro ⟨entered, stored⟩
            exact ⟨entered, out, stored, rfl⟩
      | cons fd fds =>
          constructor
          · intro chain
            have lengths := chain.length_eq
            rw [List.length_append, List.length_append, List.length_cons] at lengths
            simp at lengths
          · rintro ⟨chain, _⟩
            exact absurd chain id
  | cons node nodes inductionHypothesis =>
      cases fds with
      | nil =>
          constructor
          · intro chain
            have lengths := chain.length_eq
            rw [List.length_append, List.length_append, List.length_cons] at lengths
            simp at lengths
          · rintro ⟨chain, _⟩
            exact absurd chain id
      | cons fd fds =>
          simp only [List.cons_append, FdChain, inductionHypothesis]
          constructor
          · rintro ⟨entered, next, stored, chain, lastStored⟩
            exact ⟨⟨entered, next, stored, chain⟩, lastStored⟩
          · rintro ⟨⟨entered, next, stored, chain⟩, lastStored⟩
            exact ⟨entered, next, stored, chain, lastStored⟩

/-! ## Walks -/

theorem fdNode_eq_some
    {node : Nat}
    {fd : Int}
    {next : Option Nat}
    (stored : heap.block node = some (.fdNode fd next)) :
    fdNode heap node = some (fd, next) := by
  rw [fdNode, stored]

/-- The walk of an announcement reaches every node. -/
theorem FdChain.walkFds
    (chain : FdChain heap first nodes fds none)
    {fuel : Nat}
    (enough : nodes.length ≤ fuel) :
    ObjectHeap.walkFds heap fuel first = some () := by
  induction nodes generalizing first fds fuel with
  | nil =>
      cases fds with
      | nil =>
          cases (show first = none from chain)
          cases fuel <;> rfl
      | cons fd fds => exact absurd chain id
  | cons node nodes inductionHypothesis =>
      cases fds with
      | nil => exact absurd chain id
      | cons fd fds =>
          obtain ⟨rfl, next, stored, rest⟩ := chain
          cases fuel with
          | zero => simp at enough
          | succ fuel =>
              rw [ObjectHeap.walkFds, fdNode_eq_some stored, Option.bind_eq_bind,
                Option.bind_some]
              exact inductionHypothesis rest (Nat.le_of_succ_le_succ enough)

/-- The walk of an insertion ends at a node with the descriptor or behind the last
node. -/
theorem FdChain.seekFd
    (chain : FdChain heap first nodes fds none)
    (fd : Int)
    {fuel : Nat}
    (enough : nodes.length ≤ fuel)
    (fdPrev : Nat) :
    ObjectHeap.seekFd heap fd fuel first fdPrev =
      some (if fd ∈ fds then none else some (nodes.getLastD fdPrev)) := by
  induction nodes generalizing first fds fuel fdPrev with
  | nil =>
      cases fds with
      | nil =>
          cases (show first = none from chain)
          cases fuel <;> rfl
      | cons fd fds => exact absurd chain id
  | cons node nodes inductionHypothesis =>
      cases fds with
      | nil => exact absurd chain id
      | cons fdOf fds =>
          obtain ⟨rfl, next, stored, rest⟩ := chain
          cases fuel with
          | zero => simp at enough
          | succ fuel =>
              rw [ObjectHeap.seekFd, fdNode_eq_some stored, Option.bind_eq_bind,
                Option.bind_some]
              dsimp only
              by_cases found : fd = fdOf
              · rw [if_pos found, if_pos (by simp [found])]
              · rw [if_neg found, inductionHypothesis rest (Nat.le_of_succ_le_succ enough),
                  List.getLastD_cons]
                simp [found]

/-- The loop of a deletion releases every node. -/
theorem FdChain.freeFdNodes
    (chain : FdChain heap first nodes fds none)
    (holds : heap.Holds nodes)
    {fuel : Nat}
    (enough : nodes.length ≤ fuel) :
    ∃ after, ObjectHeap.freeFdNodes fuel heap first = some after ∧
      heap.Turns after nodes [] := by
  induction nodes generalizing heap first fds fuel with
  | nil =>
      cases fds with
      | nil =>
          cases (show first = none from chain)
          exact ⟨heap, by cases fuel <;> rfl, holds.turns⟩
      | cons fd fds => exact absurd chain id
  | cons node nodes inductionHypothesis =>
      cases fds with
      | nil => exact absurd chain id
      | cons fd fds =>
          obtain ⟨rfl, next, stored, rest⟩ := chain
          cases fuel with
          | zero => simp at enough
          | succ fuel =>
              have split : heap.Holds ([node] ++ nodes) := holds
              obtain ⟨freed, returns, freeing⟩ := split.front.free
              have framed := freeing.frame split
              have chainAfter : FdChain freed next nodes fds none :=
                rest.congr fun other member => freeing.block_rest split other member
              obtain ⟨after, looped, releasing⟩ :=
                inductionHypothesis chainAfter framed.holds (Nat.le_of_succ_le_succ enough)
              refine ⟨after, ?_, framed.trans releasing⟩
              rw [ObjectHeap.freeFdNodes, fdNode_eq_some stored, Option.bind_eq_bind,
                Option.bind_some]
              simp only [returns, Option.bind_eq_bind, Option.bind_some]
              exact looped

/-! ## Sets -/

/-- A descriptor set with its nodes. -/
def FdSetAt
    (heap : ObjectHeap)
    (fdSet : Nat)
    (nodes : List Nat)
    (fds : List Int) : Prop :=
  ∃ head, heap.block fdSet = some (.fdSet head) ∧
    FdChain heap (some head) nodes fds none

variable {fdSet : Nat}

theorem FdSetAt.length_eq
    (at' : FdSetAt heap fdSet nodes fds) :
    nodes.length = fds.length := by
  obtain ⟨head, _, chain⟩ := at'
  exact chain.length_eq

theorem FdSetAt.congr
    (at' : FdSetAt heap fdSet nodes fds)
    (same : ∀ place ∈ fdSet :: nodes, after.block place = heap.block place) :
    FdSetAt after fdSet nodes fds := by
  obtain ⟨head, stored, chain⟩ := at'
  rw [List.forall_mem_cons] at same
  exact ⟨head, same.1.trans stored, chain.congr same.2⟩

theorem fdSetHead_eq_some
    {head : Nat}
    (stored : heap.block fdSet = some (.fdSet head)) :
    fdSetHead heap fdSet = some head := by
  rw [fdSetHead, stored]

/-- There are no more blocks than addresses. -/
theorem length_le_next
    (holds : heap.Holds nodes) :
    nodes.length ≤ heap.next := by
  have listed : nodes ⊆ List.range heap.next := by
    intro place member
    exact List.mem_range.mpr (holds.below member)
  have bounded := (holds.distinct.subperm listed).length_le
  rwa [List.length_range] at bounded

/-- An announcement reaches the nodes. -/
theorem FdSetAt.bufferSignalFds
    (at' : FdSetAt heap fdSet nodes fds)
    (holds : heap.Holds (fdSet :: nodes)) :
    ObjectHeap.bufferSignalFds heap fdSet = some () := by
  obtain ⟨head, stored, chain⟩ := at'
  have bounded := length_le_next holds
  cases nodes with
  | nil =>
      cases fds with
      | nil => cases chain
      | cons fd fds => exact absurd chain id
  | cons node nodes =>
      cases fds with
      | nil => exact absurd chain id
      | cons fd fds =>
          obtain ⟨entered, next, nodeStored, rest⟩ := chain
          cases entered
          rw [ObjectHeap.bufferSignalFds, fdSetHead_eq_some stored, Option.bind_eq_bind,
            Option.bind_some, fdNode_eq_some nodeStored, Option.bind_eq_bind,
            Option.bind_some]
          apply rest.walkFds
          rw [List.length_cons, List.length_cons] at bounded
          omega

/-- A deletion releases the set. -/
theorem FdSetAt.bufferFdSetDelete
    (at' : FdSetAt heap fdSet nodes fds)
    (holds : heap.Holds (fdSet :: nodes)) :
    ∃ after, ObjectHeap.bufferFdSetDelete heap fdSet = some after ∧
      heap.Turns after (fdSet :: nodes) [] := by
  obtain ⟨head, stored, chain⟩ := at'
  have swapped : (fdSet :: nodes).Perm (nodes ++ [fdSet]) :=
    (List.perm_append_singleton fdSet nodes).symm
  have split := holds.perm swapped
  obtain ⟨emptied, looped, releasing⟩ :=
    chain.freeFdNodes split.front (length_le_next split.front)
  have framed := releasing.frame split
  obtain ⟨after, freed, freeing⟩ := framed.holds.free
  refine ⟨after, ?_, (framed.trans freeing).perm swapped.symm (List.Perm.refl [])⟩
  rw [ObjectHeap.bufferFdSetDelete, fdSetHead_eq_some stored, Option.bind_eq_bind,
    Option.bind_some]
  simp only [looped, Option.bind_eq_bind, Option.bind_some]
  exact freed

/-- An insertion makes one node, or none if the descriptor is there. -/
theorem FdSetAt.bufferFdSetInsert
    (at' : FdSetAt heap fdSet nodes fds)
    (holds : heap.Holds (fdSet :: nodes))
    (fd : Int) :
    ∃ after left, ObjectHeap.bufferFdSetInsert heap fdSet fd = some after ∧
      heap.Turns after (fdSet :: nodes) (fdSet :: left) ∧
        FdSetAt after fdSet left (Hiemal.bufferFdSetInsert fds fd) := by
  obtain ⟨head, stored, chain⟩ := at'
  have bounded := length_le_next holds
  rw [List.length_cons] at bounded
  have enough : nodes.length ≤ heap.next := by omega
  have sought := chain.seekFd fd enough head
  rw [bufferFdSetInsert_eq]
  by_cases found : fd ∈ fds
  · rw [if_pos found] at sought ⊢
    refine ⟨heap, nodes, ?_, holds.turns, head, stored, chain⟩
    rw [ObjectHeap.bufferFdSetInsert, fdSetHead_eq_some stored, Option.bind_eq_bind,
      Option.bind_some, sought]
    rfl
  rw [if_neg found] at sought ⊢
  -- the last node
  obtain ⟨front, last, rfl⟩ : ∃ front last, nodes = front ++ [last] := by
    rcases List.eq_nil_or_concat nodes with rfl | ⟨front, last, rfl⟩
    · cases fds with
      | nil => cases chain
      | cons fd fds => exact absurd chain id
    · exact ⟨front, last, List.concat_eq_append⟩
  obtain ⟨frontFds, lastFd, rfl⟩ : ∃ frontFds lastFd, fds = frontFds ++ [lastFd] := by
    have lengths := chain.length_eq
    rcases List.eq_nil_or_concat fds with rfl | ⟨frontFds, lastFd, rfl⟩
    · simp at lengths
    · exact ⟨frontFds, lastFd, List.concat_eq_append⟩
  obtain ⟨frontChain, lastStored⟩ := FdChain.concat.mp chain
  have lastBelow : last < heap.next := holds.below (by simp)
  let grown : ObjectHeap := (heap.malloc (.fdNode fd none)).1
  have growing : heap.Turns grown (fdSet :: (front ++ [last]))
      (heap.next :: fdSet :: (front ++ [last])) := holds.malloc _
  have keeps (place : Nat) (below : place < heap.next) :
      grown.block place = heap.block place :=
    Heap.block_malloc_of_ne _ _ (Nat.ne_of_lt below)
  have newStored : grown.block heap.next = some (.fdNode fd none) :=
    Heap.block_malloc_self _ _
  obtain ⟨storing, linking⟩ :=
    growing.holds.store last (by simp) (.fdNode lastFd (some heap.next))
  let after : ObjectHeap := grown.put last (some (.fdNode lastFd (some heap.next)))
  have foreign (place : Nat) (other : place ≠ last) (below : place < heap.next) :
      after.block place = heap.block place :=
    (Heap.block_put_of_ne grown _ other).trans (keeps place below)
  have distinct := List.nodup_cons.mp holds.distinct
  refine ⟨after, front ++ [last] ++ [heap.next], ?_, ?_, head, ?_, ?_⟩
  · rw [ObjectHeap.bufferFdSetInsert, fdSetHead_eq_some stored, Option.bind_eq_bind,
      Option.bind_some, sought, List.getLastD_concat]
    simp only [Option.bind_eq_bind, Option.bind_some, Heap.address_malloc]
    rw [show fdNode (heap.malloc (.fdNode fd none)).1 last = some (lastFd, none) from
      fdNode_eq_some ((keeps last lastBelow).trans lastStored)]
    exact storing
  · refine (growing.trans linking).perm (List.Perm.refl _) ?_
    rw [List.perm_iff_count]
    intro place
    simp only [List.count_append, List.count_cons, List.count_nil]
    omega
  · have other : fdSet ≠ last := by
      rintro rfl
      exact distinct.1 (by simp)
    rw [foreign fdSet other (holds.below List.mem_cons_self)]
    exact stored
  · apply FdChain.concat.mpr
    refine ⟨FdChain.concat.mpr ⟨?_, Heap.block_put_self _ _ _⟩, ?_⟩
    · apply frontChain.congr
      intro node member
      apply foreign node
      · intro same
        have apart := List.nodup_append.mp distinct.2
        exact apart.2.2 node member last (by simp) same
      · exact holds.below (by simp [member])
    · exact (Heap.block_put_of_ne grown _ (Nat.ne_of_gt lastBelow)).trans newStored

/-- A new set holds the sentinel. -/
theorem bufferFdSetInit_turns
    {cells : List Nat}
    (holds : heap.Holds cells) :
    heap.Turns (ObjectHeap.bufferFdSetInit heap).1 cells
        ((heap.next + 1) :: heap.next :: cells) ∧
      (ObjectHeap.bufferFdSetInit heap).2 = heap.next + 1 ∧
        FdSetAt (ObjectHeap.bufferFdSetInit heap).1 (heap.next + 1) [heap.next]
          Hiemal.bufferFdSetInit := by
  have first := holds.malloc (.fdNode (-1) none)
  have second := first.holds.malloc (.fdSet heap.next)
  refine ⟨first.trans second, rfl, heap.next, ?_, rfl, none, ?_, rfl⟩
  · exact Heap.block_malloc_self _ _
  · refine (Heap.block_malloc_of_ne _ _ ?_).trans (Heap.block_malloc_self _ _)
    exact Nat.ne_of_lt (Nat.lt_succ_self _)

end ObjectHeap

end Hiemal
