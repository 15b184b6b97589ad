import Hiemal.Common.Sequence

/-!
# Accesses out of range

The list functions compare the low half of the index with the number of items and
then walk along the list by the whole index. An access out of range is rejected
when this comparison detects it; otherwise the walk reaches the end of the list
and dereferences its `NULL` link.
-/

namespace Hiemal

open Foundation

/-- An access to a list by index. -/
inductive ListAccess
  /-- `hm_list_insert(list, node, index)`; `malloc` returns `refnode`. -/
  | insert (node : NodeAddress) (index : Int) (refnode : NodeAddress)
  /-- `hm_list_remove(list, index, free_fn)`. -/
  | remove (index : Int) (freeFn : Option ListNodeFn)
  /-- `hm_list_at(list, index)`. -/
  | lookup (index : Int)
  deriving DecidableEq

/-- The access is out of the range of a list of so many items. -/
def ListAccess.OutOfRange (nItems : Nat) : ListAccess → Prop
  | .insert _ index _ => nItems < index
  | .remove index _ => nItems ≤ index ∨ nItems = 0
  | .lookup index => nItems ≤ index

/-- The access returns its error and leaves the list as it was. -/
def ListAccess.Rejects
    (clientFn : Nat → HmListNode → Option HmListNode)
    (m : ListMemory) : ListAccess → Prop
  | .insert node index refnode => hmListInsert m node index refnode = some (m, -1)
  | .remove index freeFn => hmListRemove clientFn m index freeFn = some (m, -1)
  | .lookup index => hmListAt m index = some none

/-- What is detected of the accesses out of range: those whose index has a low
half past the number of items, the removal at a negative index, and the lookup
right behind the last node of a plain list. -/
def ListAccess.Detected (m : ListMemory) : ListAccess → Prop
  | .insert _ index _ => m.list.nItems < toUnsigned 32 index
  | .remove index _ => index < 0 ∨ m.list.nItems < toUnsigned 32 index
  | .lookup index =>
      m.list.nItems < toUnsigned 32 index ∨
        (index = m.list.nItems ∧ hmSubtypeId m.list.magic = 0)

/-! ## Walks past the end -/

section Walks

variable {m : ListMemory} {nodes : List NodeAddress}

theorem seekLink_add
    (m : ListMemory)
    (first second : Nat)
    (nodeItr nodePrev : Link) :
    seekLink m (first + second) nodeItr nodePrev =
      (seekLink m first nodeItr nodePrev).bind fun cursor =>
        seekLink m second cursor.1 cursor.2 := by
  induction first generalizing nodeItr nodePrev with
  | zero => rw [Nat.zero_add, seekLink, Option.bind_some]
  | succ first inductionHypothesis =>
      rw [Nat.succ_add, seekLink, seekLink]
      cases m.readLink nodeItr with
      | none => rfl
      | some target =>
          cases target with
          | none => rfl
          | some node => exact inductionHypothesis (.next node) nodeItr

theorem followNext_add
    (m : ListMemory)
    (first second : Nat)
    (nodeItr : Option NodeAddress) :
    followNext m (first + second) nodeItr =
      (followNext m first nodeItr).bind (followNext m second) := by
  induction first generalizing nodeItr with
  | zero => rw [Nat.zero_add, followNext, Option.bind_some]
  | succ first inductionHypothesis =>
      rw [Nat.succ_add, followNext, followNext]
      cases nodeItr with
      | none => rfl
      | some node =>
          cases stored : m.nodes node with
          | none => simp [stored]
          | some content => simp [stored, inductionHypothesis]

/-- The link behind the last node is `NULL`. -/
theorem readLink_end
    (chain : Chain m.links m.list.head nodes) :
    m.readLink (linkBehind nodes) = some none := by
  rw [← List.append_nil nodes] at chain
  exact readLink_linkBehind chain

/-- The cursor reaches the link behind the last node. -/
theorem seekLink_end
    (chain : Chain m.links m.list.head nodes) :
    ∃ nodePrev,
      seekLink m nodes.length .head .head =
        some (linkBehind nodes, nodePrev) := by
  rw [← List.append_nil nodes] at chain
  obtain ⟨nodePrev, sought, _⟩ := seekLink_head chain
  exact ⟨nodePrev, sought⟩

/-- The cursor does not get past it. -/
theorem seekLink_past
    (chain : Chain m.links m.list.head nodes)
    {index : Nat}
    (past : nodes.length < index) :
    seekLink m index .head .head = none := by
  obtain ⟨more, rfl⟩ := Nat.exists_eq_add_of_lt past
  obtain ⟨nodePrev, sought⟩ := seekLink_end chain
  rw [Nat.add_assoc, seekLink_add, sought, Option.bind_some, seekLink,
    readLink_end chain]
  rfl

/-- There is no node to unlink behind the last one. -/
theorem unlinkNode_end
    (chain : Chain m.links m.list.head nodes) :
    unlinkNode m (linkBehind nodes) = none := by
  simp [unlinkNode, readLink_end chain]

/-- Following next links ends at `NULL`. -/
theorem followNext_end
    (chain : Chain m.links m.list.head nodes) :
    followNext m nodes.length m.list.head = some none := by
  have entered := chain.linked.first_eq
  rw [Option.or_none] at entered
  have fromHead : Chain m.links m.list.head ([] ++ nodes) := chain
  rw [entered, followNext_from fromHead (Nat.le_refl nodes.length),
    List.getElem?_eq_none (Nat.le_refl nodes.length)]

theorem followNext_past
    (chain : Chain m.links m.list.head nodes)
    {index : Nat}
    (past : nodes.length < index) :
    followNext m index m.list.head = none := by
  obtain ⟨more, rfl⟩ := Nat.exists_eq_add_of_lt past
  rw [Nat.add_assoc, followNext_add, followNext_end chain, Option.bind_some,
    followNext]
  rfl

end Walks

/-! ## Rejection -/

section Rejection

variable {m : ListMemory} {nodes items : List NodeAddress}
variable (clientFn : Nat → HmListNode → Option HmListNode)

/-- An insertion past the end. -/
theorem ListHolds.insert_rejects_iff
    (holds : ListHolds m nodes items)
    (node refnode : NodeAddress)
    {index : Nat}
    (past : nodes.length < index) :
    Hiemal.hmListInsert m node index refnode = some (m, -1) ↔
      m.list.nItems < toUnsigned 32 index := by
  have nonnegative : ¬(index : Int) < 0 := by omega
  by_cases detected : m.list.nItems < toUnsigned 32 (index : Int)
  · simp [Hiemal.hmListInsert, nonnegative, detected]
  · simp [Hiemal.hmListInsert, nonnegative, detected,
      seekLink_past holds.chain past]

/-- A removal at the end or past it. -/
theorem ListHolds.remove_rejects_iff
    (holds : ListHolds m nodes items)
    (freeFn : Option ListNodeFn)
    {index : Nat}
    (past : nodes.length ≤ index) :
    Hiemal.hmListRemove clientFn m index freeFn = some (m, -1) ↔
      m.list.nItems < toUnsigned 32 index := by
  have nonnegative : ¬(index : Int) < 0 := by omega
  by_cases detected : m.list.nItems < toUnsigned 32 (index : Int)
  · simp [Hiemal.hmListRemove, nonnegative, detected]
  · rcases Nat.eq_or_lt_of_le past with rfl | past
    · obtain ⟨nodePrev, sought⟩ := seekLink_end holds.chain
      simp [Hiemal.hmListRemove, nonnegative, detected, sought,
        unlinkNode_end holds.chain]
    · simp [Hiemal.hmListRemove, nonnegative, detected,
        seekLink_past holds.chain past]

/-- A removal from the end of an empty list: the index wraps around, and is
detected. -/
theorem ListHolds.remove_empty_rejects
    (holds : ListHolds m [] items)
    (freeFn : Option ListNodeFn)
    {index : Int}
    (negative : index < 0) :
    Hiemal.hmListRemove clientFn m index freeFn = some (m, -1) := by
  have count : m.list.nItems = 0 := holds.count
  have wrapped : 0 < toUnsigned 32 ((predecessor 0 : Nat) : Int) := by decide
  simp only [Hiemal.hmListRemove, if_pos negative, count, if_pos wrapped]

/-- A lookup at the end or past it. -/
theorem ListHolds.at_rejects_iff
    (holds : ListHolds m nodes items)
    {index : Nat}
    (past : nodes.length ≤ index) :
    hmListAt m index = some none ↔
      m.list.nItems < toUnsigned 32 index ∨
        ((index : Int) = m.list.nItems ∧ hmSubtypeId m.list.magic = 0) := by
  have nonnegative : ¬(index : Int) < 0 := by omega
  by_cases detected : m.list.nItems < toUnsigned 32 (index : Int)
  · simp [hmListAt, nonnegative, detected]
  · rcases Nat.eq_or_lt_of_le past with rfl | past
    · rcases holds.kind with kind | kind
      · have notReference : ¬0 = hmListRefnodeMagic := by decide
        simp [hmListAt, nonnegative, followNext_end holds.chain, kind,
          notReference, holds.count]
      · have notPlain : ¬hmListRefnodeMagic = 0 := by decide
        simp [hmListAt, nonnegative, detected, followNext_end holds.chain, kind,
          notPlain]
    · have different : ¬index = m.list.nItems := by
        rw [holds.count]
        exact Nat.ne_of_gt past
      simp [hmListAt, nonnegative, detected, followNext_past holds.chain past,
        different]

end Rejection

/-- An access out of range of a list whose nodes an `int` counts is rejected exactly
if it is detected. -/
theorem listAccess_rejects_iff_detected
    (clientFn : Nat → HmListNode → Option HmListNode)
    (m : ListMemory)
    (list : ∃ nodes items, ListHolds m nodes items ∧ nodes.length < 2 ^ 31)
    (access : ListAccess)
    (outOfRange : access.OutOfRange m.list.nItems) :
    access.Rejects clientFn m ↔ access.Detected m := by
  obtain ⟨nodes, items, holds, _⟩ := list
  rw [holds.count] at outOfRange
  cases access with
  | insert node index refnode =>
      have past : (nodes.length : Int) < index := outOfRange
      obtain ⟨position, rfl⟩ :=
        Int.eq_ofNat_of_zero_le (a := index) (by omega)
      exact holds.insert_rejects_iff node refnode (by exact_mod_cast past)
  | remove index freeFn =>
      by_cases negative : index < 0
      · have empty : nodes = [] := by
          apply List.eq_nil_of_length_eq_zero
          exact outOfRange.resolve_left (by omega)
        subst empty
        exact iff_of_true
          (holds.remove_empty_rejects clientFn freeFn negative)
          (Or.inl negative)
      · obtain ⟨position, rfl⟩ :=
          Int.eq_ofNat_of_zero_le (Int.not_lt.mp negative)
        have past : nodes.length ≤ position := by
          rcases outOfRange with past | empty
          · exact_mod_cast past
          · omega
        exact (holds.remove_rejects_iff clientFn freeFn past).trans
          (or_iff_right negative).symm
  | lookup index =>
      have past : (nodes.length : Int) ≤ index := outOfRange
      obtain ⟨position, rfl⟩ :=
        Int.eq_ofNat_of_zero_le (a := index) (by omega)
      exact holds.at_rejects_iff (by exact_mod_cast past)

/-- A list of three nodes, with an insertion past the end, a removal at an index whose
low half is past the end, and a lookup right behind the last node. -/
theorem listAccess_rejects_iff_detected_three :
    (ListAccess.insert 9 4 0).Rejects (fun _ _ => none) (evenList 3) ∧
      (ListAccess.remove (2 ^ 32 + 7) none).Rejects (fun _ _ => none)
          (evenList 3) ∧
        (ListAccess.lookup 3).Rejects (fun _ _ => none) (evenList 3) := by
  have list : ∃ nodes items, ListHolds (evenList 3) nodes items ∧
      nodes.length < 2 ^ 31 :=
    ⟨_, _, listHolds_evenList 3, by decide⟩
  refine ⟨?_, ?_, ?_⟩
  · apply (listAccess_rejects_iff_detected _ _ list _ ?_).mpr
    · show 3 < toUnsigned 32 4
      decide
    · show (3 : Int) < 4
      decide
  · apply (listAccess_rejects_iff_detected _ _ list _ ?_).mpr
    · refine Or.inr ?_
      show 3 < toUnsigned 32 (2 ^ 32 + 7)
      decide
    · exact Or.inl (by decide)
  · apply (listAccess_rejects_iff_detected _ _ list _ ?_).mpr
    · exact Or.inr ⟨rfl, hmSubtypeId_hmListInit⟩
    · show (3 : Int) ≤ 3
      decide

/-- The removal of the first node of an empty list dereferences `NULL`. -/
theorem not_listAccess_rejects_empty :
    (ListAccess.remove 0 none).OutOfRange hmListInit.nItems ∧
      ¬(ListAccess.remove 0 none).Rejects (fun _ _ => none)
        { list := hmListInit, nodes := fun _ => none } := by
  refine ⟨Or.inr rfl, ?_⟩
  intro rejects
  have fails :
      hmListRemove (fun _ _ => none)
        { list := hmListInit, nodes := fun _ => none } 0 none = none := rfl
  rw [ListAccess.Rejects, fails] at rejects
  cases rejects

end Hiemal
