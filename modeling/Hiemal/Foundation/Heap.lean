import Mathlib.Algebra.BigOperators.Group.List.Basic
import Mathlib.Algebra.GroupWithZero.Nat
import Mathlib.Data.List.Nodup
import Mathlib.Data.List.Perm.Basic
import Mathlib.Logic.Function.Basic

/-!
# Heaps of blocks

A heap hands out addresses of blocks, each address once, so that an access through a
pointer to a freed block is seen. Operations on a heap are described by the blocks they
start from and the blocks they leave: nothing else changes. This module says how such
descriptions compose, and how the blocks of several owners make up a heap.
-/

namespace Hiemal
namespace Foundation

variable {Block : Type*}

/-- Blocks by their addresses; the addresses from `next` on are still to be handed
out. -/
structure Heap (Block : Type*) where
  next : Nat
  block : Nat → Option Block

namespace Heap

/-- The heap before the first allocation. -/
def empty : Heap Block where
  next := 0
  block := fun _ => none

/-- A heap with a new block, and the address of the block. -/
def malloc (heap : Heap Block) (content : Block) : Heap Block × Nat :=
  ({ next := heap.next + 1
     block := Function.update heap.block heap.next (some content) },
    heap.next)

/-- Write what is at an address. -/
def put (heap : Heap Block) (address : Nat) (content : Option Block) : Heap Block where
  next := heap.next
  block := Function.update heap.block address content

/-- Release an allocated block. -/
def free (heap : Heap Block) (address : Nat) : Option (Heap Block) :=
  (heap.block address).map fun _ => heap.put address none

/-- Overwrite an allocated block. -/
def store (heap : Heap Block) (address : Nat) (content : Block) :
    Option (Heap Block) :=
  (heap.block address).map fun _ => heap.put address (some content)

/-- The addresses of the allocated blocks. -/
def live (heap : Heap Block) : List Nat :=
  (List.range heap.next).filter fun address => (heap.block address).isSome

/-- The blocks at distinct addresses are allocated, and the addresses still to be
handed out are not. -/
structure Holds (heap : Heap Block) (cells : List Nat) : Prop where
  distinct : cells.Nodup
  allocated : ∀ address ∈ cells, (heap.block address).isSome
  beyond : ∀ address, heap.next ≤ address → heap.block address = none

/-- An operation that started from some blocks has left some others; what it did not
start from is as before. -/
structure Turns
    (heap after : Heap Block)
    (cells left : List Nat) : Prop where
  holds : after.Holds left
  next_le : heap.next ≤ after.next
  outside : ∀ address < heap.next, address ∉ cells →
    after.block address = heap.block address
  released : ∀ address, address ∈ cells ∨ heap.next ≤ address →
    address ∉ left → after.block address = none
  origin : ∀ address ∈ left, address ∈ cells ∨ heap.next ≤ address

variable {heap between after : Heap Block} {cells used left rest : List Nat}

theorem Holds.below
    (holds : heap.Holds cells)
    {address : Nat}
    (member : address ∈ cells) :
    address < heap.next := by
  by_contra beyond
  have allocated := holds.allocated address member
  rw [holds.beyond address (Nat.le_of_not_lt beyond)] at allocated
  exact Bool.noConfusion allocated

theorem Holds.perm
    (holds : heap.Holds cells)
    (same : cells.Perm left) :
    heap.Holds left where
  distinct := same.nodup_iff.mp holds.distinct
  allocated := fun address member =>
    holds.allocated address (same.mem_iff.mpr member)
  beyond := holds.beyond

theorem Holds.front
    (holds : heap.Holds (used ++ rest)) :
    heap.Holds used where
  distinct := (List.nodup_append.mp holds.distinct).1
  allocated := fun address member =>
    holds.allocated address (List.mem_append_left rest member)
  beyond := holds.beyond

/-- An operation that changes nothing. -/
theorem Holds.turns (holds : heap.Holds cells) : heap.Turns heap cells cells where
  holds := holds
  next_le := Nat.le_refl _
  outside := fun _ _ _ => rfl
  released := by
    intro address source outside
    exact holds.beyond address (source.resolve_left outside)
  origin := fun _ => Or.inl

/-- Operations one after the other. -/
theorem Turns.trans
    (first : heap.Turns between cells used)
    (second : between.Turns after used left) :
    heap.Turns after cells left where
  holds := second.holds
  next_le := Nat.le_trans first.next_le second.next_le
  outside := by
    intro address below outside
    have notUsed : address ∉ used := by
      intro member
      rcases first.origin address member with source | source
      · exact outside source
      · omega
    have belowBetween := Nat.lt_of_lt_of_le below first.next_le
    rw [second.outside address belowBetween notUsed,
      first.outside address below outside]
  released := by
    intro address source gone
    by_cases member : address ∈ used
    · exact second.released address (Or.inl member) gone
    · by_cases below : address < between.next
      · rw [second.outside address below member]
        exact first.released address source member
      · exact second.released address (Or.inr (Nat.le_of_not_lt below)) gone
  origin := by
    intro address member
    rcases second.origin address member with source | source
    · exact first.origin address source
    · exact Or.inr (Nat.le_trans first.next_le source)

/-- The order in which blocks are listed does not matter. -/
theorem Turns.perm
    (turns : heap.Turns after cells left)
    {cells' left' : List Nat}
    (before : cells.Perm cells')
    (behind : left.Perm left') :
    heap.Turns after cells' left' where
  holds := turns.holds.perm behind
  next_le := turns.next_le
  outside := fun address below outside =>
    turns.outside address below fun member => outside (before.mem_iff.mp member)
  released := by
    intro address source gone
    rw [← before.mem_iff] at source
    rw [← behind.mem_iff] at gone
    exact turns.released address source gone
  origin := by
    intro address member
    rw [← before.mem_iff]
    exact turns.origin address (behind.mem_iff.mpr member)

/-- **Frame rule.** Blocks an operation does not start from stay. -/
theorem Turns.frame
    (turns : heap.Turns after used left)
    (holds : heap.Holds (used ++ rest)) :
    heap.Turns after (used ++ rest) (left ++ rest) where
  holds :=
    { distinct := by
        have apart := List.nodup_append.mp holds.distinct
        refine List.nodup_append.mpr ⟨turns.holds.distinct, apart.2.1, ?_⟩
        intro address member other memberRest same
        rcases turns.origin address member with source | source
        · exact apart.2.2 address source other memberRest same
        · have below := holds.below (List.mem_append_right used memberRest)
          omega
      allocated := by
        intro address member
        rcases List.mem_append.mp member with member | member
        · exact turns.holds.allocated address member
        · have below := holds.below (List.mem_append_right used member)
          have notUsed : address ∉ used := fun other =>
            (List.nodup_append.mp holds.distinct).2.2 address other address member rfl
          rw [turns.outside address below notUsed]
          exact holds.allocated address (List.mem_append_right used member)
      beyond := turns.holds.beyond }
  next_le := turns.next_le
  outside := fun address below outside =>
    turns.outside address below fun member =>
      outside (List.mem_append_left rest member)
  released := by
    intro address source gone
    rw [List.mem_append, not_or] at gone
    rw [List.mem_append, or_assoc] at source
    rcases source with member | member | beyond
    · exact turns.released address (Or.inl member) gone.1
    · exact absurd member gone.2
    · exact turns.released address (Or.inr beyond) gone.1
  origin := by
    intro address member
    rcases List.mem_append.mp member with member | member
    · rcases turns.origin address member with source | source
      · exact Or.inl (List.mem_append_left rest source)
      · exact Or.inr source
    · exact Or.inl (List.mem_append_right used member)

/-- The contents of the blocks an operation does not start from stay. -/
theorem Turns.block_rest
    (turns : heap.Turns after used left)
    (holds : heap.Holds (used ++ rest))
    (address : Nat)
    (member : address ∈ rest) :
    after.block address = heap.block address := by
  apply turns.outside address
  · exact holds.below (List.mem_append_right used member)
  · intro other
    exact (List.nodup_append.mp holds.distinct).2.2 address other address member rfl

/-! ## The operations of a heap -/

@[simp] theorem next_put
    (heap : Heap Block)
    (address : Nat)
    (content : Option Block) :
    (heap.put address content).next = heap.next := rfl

@[simp] theorem block_put_self
    (heap : Heap Block)
    (address : Nat)
    (content : Option Block) :
    (heap.put address content).block address = content :=
  Function.update_self _ _ _

theorem block_put_of_ne
    (heap : Heap Block)
    {address other : Nat}
    (content : Option Block)
    (different : other ≠ address) :
    (heap.put address content).block other = heap.block other :=
  Function.update_of_ne different _ _

@[simp] theorem next_malloc (heap : Heap Block) (content : Block) :
    (heap.malloc content).1.next = heap.next + 1 := rfl

@[simp] theorem address_malloc (heap : Heap Block) (content : Block) :
    (heap.malloc content).2 = heap.next := rfl

@[simp] theorem block_malloc_self (heap : Heap Block) (content : Block) :
    (heap.malloc content).1.block heap.next = some content :=
  Function.update_self _ _ _

theorem block_malloc_of_ne
    (heap : Heap Block)
    (content : Block)
    {address : Nat}
    (other : address ≠ heap.next) :
    (heap.malloc content).1.block address = heap.block address :=
  Function.update_of_ne other _ _

/-- Allocating adds a block. -/
theorem Holds.malloc
    (holds : heap.Holds cells)
    (content : Block) :
    heap.Turns (heap.malloc content).1 cells (heap.next :: cells) where
  holds :=
    { distinct := by
        apply List.nodup_cons.mpr
        exact ⟨fun member => Nat.lt_irrefl _ (holds.below member), holds.distinct⟩
      allocated := by
        intro address member
        rcases List.mem_cons.mp member with rfl | member
        · rw [block_malloc_self]
          rfl
        · rw [block_malloc_of_ne _ _ (Nat.ne_of_lt (holds.below member))]
          exact holds.allocated address member
      beyond := by
        intro address beyond
        rw [next_malloc] at beyond
        rw [block_malloc_of_ne _ _ (by omega)]
        exact holds.beyond address (by omega) }
  next_le := Nat.le_succ _
  outside := fun _ below _ => block_malloc_of_ne _ _ (Nat.ne_of_lt below)
  released := by
    intro address source gone
    rw [List.mem_cons, not_or] at gone
    rw [block_malloc_of_ne _ _ gone.1]
    exact holds.beyond address (source.resolve_left gone.2)
  origin := by
    intro address member
    rcases List.mem_cons.mp member with rfl | member
    · exact Or.inr (Nat.le_refl _)
    · exact Or.inl member

/-- Freeing removes a block. -/
theorem Holds.free
    {address : Nat}
    (holds : heap.Holds (address :: cells)) :
    ∃ after, heap.free address = some after ∧
      heap.Turns after (address :: cells) cells := by
  obtain ⟨content, stored⟩ :=
    Option.isSome_iff_exists.mp (holds.allocated address List.mem_cons_self)
  have apart := List.nodup_cons.mp holds.distinct
  have below := holds.below List.mem_cons_self
  refine ⟨_, by rw [Heap.free, stored, Option.map_some], ?_⟩
  exact
    { holds :=
        { distinct := apart.2
          allocated := by
            intro place member
            rw [block_put_of_ne heap _ (ne_of_mem_of_not_mem member apart.1)]
            exact holds.allocated place (List.mem_cons_of_mem address member)
          beyond := by
            intro place beyond
            rw [next_put] at beyond
            rw [block_put_of_ne heap _ (by omega)]
            exact holds.beyond place beyond }
      next_le := Nat.le_refl _
      outside := by
        intro place _ outside
        exact block_put_of_ne heap _ fun same => outside (same ▸ List.mem_cons_self)
      released := by
        intro place source gone
        by_cases same : place = address
        · rw [same, block_put_self]
        · rw [block_put_of_ne heap _ same]
          apply holds.beyond place
          apply source.resolve_left
          intro member
          exact gone ((List.mem_cons.mp member).resolve_left same)
      origin := fun place member => Or.inl (List.mem_cons_of_mem address member) }

/-- Storing into a block keeps the blocks. -/
theorem Holds.store
    (holds : heap.Holds cells)
    (address : Nat)
    (member : address ∈ cells)
    (content : Block) :
    heap.store address content = some (heap.put address (some content)) ∧
      heap.Turns (heap.put address (some content)) cells cells := by
  obtain ⟨old, stored⟩ :=
    Option.isSome_iff_exists.mp (holds.allocated address member)
  have below := holds.below member
  refine ⟨by rw [Heap.store, stored, Option.map_some], ?_⟩
  exact
    { holds :=
        { distinct := holds.distinct
          allocated := by
            intro place inside
            by_cases same : place = address
            · rw [same, block_put_self]
              rfl
            · rw [block_put_of_ne heap _ same]
              exact holds.allocated place inside
          beyond := by
            intro place beyond
            rw [next_put] at beyond
            rw [block_put_of_ne heap _ (by omega)]
            exact holds.beyond place beyond }
      next_le := Nat.le_refl _
      outside := by
        intro place _ outside
        exact block_put_of_ne heap _ fun same => outside (same ▸ member)
      released := by
        intro place source gone
        rw [block_put_of_ne heap _ (ne_of_mem_of_not_mem member gone).symm]
        exact holds.beyond place (source.resolve_left gone)
      origin := fun _ => Or.inl }

/-! ## Owners -/

/-- Each allocated block has one owner, and is listed once among the cells of that
owner. -/
structure Owned (heap : Heap Block) (cells : Nat → List Nat) : Prop where
  distinct : ∀ owner, (cells owner).Nodup
  apart : ∀ first second address,
    address ∈ cells first → address ∈ cells second → first = second
  owned : ∀ address,
    (heap.block address).isSome ↔ ∃ owner, address ∈ cells owner
  beyond : ∀ address, heap.next ≤ address → heap.block address = none

variable {owners : Nat → List Nat}

theorem owned_empty : (empty : Heap Block).Owned fun _ => [] where
  distinct := fun _ => List.nodup_nil
  apart := fun _ _ _ member => absurd member List.not_mem_nil
  owned := fun address => by simp [empty]
  beyond := fun _ _ => rfl

theorem Owned.holds (owned : heap.Owned owners) (owner : Nat) :
    heap.Holds (owners owner) where
  distinct := owned.distinct owner
  allocated := fun address member => (owned.owned address).mpr ⟨owner, member⟩
  beyond := owned.beyond

/-- The blocks of the other owners stay as they are. -/
theorem Owned.block_other
    (owned : heap.Owned owners)
    {owner : Nat}
    (turns : heap.Turns after (owners owner) left)
    {other address : Nat}
    (different : other ≠ owner)
    (member : address ∈ owners other) :
    after.block address = heap.block address := by
  apply turns.outside address ((owned.holds other).below member)
  intro shared
  exact different (owned.apart other owner address member shared)

/-- **An operation of one owner.** -/
theorem Owned.turns
    (owned : heap.Owned owners)
    {owner : Nat}
    (turns : heap.Turns after (owners owner) left) :
    after.Owned (Function.update owners owner left) where
  distinct := by
    intro other
    by_cases same : other = owner
    · subst same
      rw [Function.update_self]
      exact turns.holds.distinct
    · rw [Function.update_of_ne same]
      exact owned.distinct other
  apart := by
    -- what the operation left is not another owner's
    have foreign (other address : Nat) (different : other ≠ owner)
        (member : address ∈ owners other) : address ∉ left := by
      intro taken
      rcases turns.origin address taken with source | source
      · exact different (owned.apart other owner address member source)
      · have below := (owned.holds other).below member
        omega
    intro first second address firstMember secondMember
    by_cases isFirst : first = owner <;> by_cases isSecond : second = owner
    · rw [isFirst, isSecond]
    · subst isFirst
      rw [Function.update_self] at firstMember
      rw [Function.update_of_ne isSecond] at secondMember
      exact absurd firstMember (foreign second address isSecond secondMember)
    · subst isSecond
      rw [Function.update_self] at secondMember
      rw [Function.update_of_ne isFirst] at firstMember
      exact absurd secondMember (foreign first address isFirst firstMember)
    · rw [Function.update_of_ne isFirst] at firstMember
      rw [Function.update_of_ne isSecond] at secondMember
      exact owned.apart first second address firstMember secondMember
  owned := by
    intro address
    constructor
    · intro allocated
      by_cases member : address ∈ left
      · exact ⟨owner, by rwa [Function.update_self]⟩
      by_cases source : address ∈ owners owner ∨ heap.next ≤ address
      · rw [turns.released address source member] at allocated
        exact Bool.noConfusion allocated
      rw [not_or, Nat.not_le] at source
      rw [turns.outside address source.2 source.1] at allocated
      obtain ⟨other, owns⟩ := (owned.owned address).mp allocated
      have different : other ≠ owner := by
        rintro rfl
        exact source.1 owns
      refine ⟨other, ?_⟩
      rwa [Function.update_of_ne different]
    · rintro ⟨other, owns⟩
      by_cases same : other = owner
      · subst same
        rw [Function.update_self] at owns
        exact turns.holds.allocated address owns
      · rw [Function.update_of_ne same] at owns
        rw [owned.block_other turns same owns]
        exact (owned.owned address).mpr ⟨other, owns⟩
  beyond := turns.holds.beyond

/-- **The allocated blocks** are those of the owners. -/
theorem Owned.length_live
    (owned : heap.Owned owners)
    {count : Nat}
    (only : ∀ owner, count ≤ owner → owners owner = []) :
    heap.live.length =
      ((List.range count).map fun owner => (owners owner).length).sum := by
  have listed : heap.live.Perm ((List.range count).flatMap owners) := by
    apply (List.perm_ext_iff_of_nodup ?_ ?_).mpr
    · intro address
      rw [live, List.mem_filter, List.mem_range, List.mem_flatMap]
      constructor
      · rintro ⟨_, allocated⟩
        obtain ⟨owner, owns⟩ := (owned.owned address).mp allocated
        refine ⟨owner, ?_, owns⟩
        rw [List.mem_range]
        by_contra beyond
        rw [only owner (Nat.le_of_not_lt beyond)] at owns
        exact List.not_mem_nil owns
      · rintro ⟨owner, _, owns⟩
        exact ⟨(owned.holds owner).below owns,
          (owned.owned address).mpr ⟨owner, owns⟩⟩
    · exact List.nodup_range.filter _
    · rw [List.nodup_flatMap]
      refine ⟨fun owner _ => owned.distinct owner, ?_⟩
      apply List.nodup_range.imp
      intro first second different address firstOwns secondOwns
      exact different (owned.apart first second address firstOwns secondOwns)
  rw [listed.length_eq, List.length_flatMap]

end Heap

end Foundation
end Hiemal
