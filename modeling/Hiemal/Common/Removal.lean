import Hiemal.Common.Sequence

/-!
# Removal by comparison

`hm_list_remove_where` removes the nodes for which a comparison returns zero, and
keeps the others in order. It writes the previous link of the node behind a removed
one without asking whether there is such a node, so the last node of the list must
not be among the removed ones.
-/

namespace Hiemal

open Foundation

/-! ## What is to be removed -/

section Comparisons

variable {UserData : Type} (cmpFn : UserData → NodeAddress → UserData × Int)

/-- What a comparison returns for the given nodes, called in turn. -/
def comparisons : UserData → List NodeAddress → List (NodeAddress × Int)
  | _, [] => []
  | userdata, node :: nodes =>
      let (userdata, rc) := cmpFn userdata node
      (node, rc) :: comparisons userdata nodes

/-- The nodes for which the comparison does not return zero. -/
def keptNodes (userdata : UserData) (nodes : List NodeAddress) :
    List NodeAddress :=
  ((comparisons cmpFn userdata nodes).filter fun call => call.2 ≠ 0).map Prod.fst

/-- The nodes for which the comparison returns zero. -/
def removedNodes (userdata : UserData) (nodes : List NodeAddress) :
    List NodeAddress :=
  ((comparisons cmpFn userdata nodes).filter fun call => call.2 = 0).map Prod.fst

/-- The comparison does not return zero for the last node, if there is one. -/
def KeepsLast (userdata : UserData) (nodes : List NodeAddress) : Prop :=
  ∀ call ∈ (comparisons cmpFn userdata nodes).getLast?, call.2 ≠ 0

/-- The nodes for which the comparison returns zero are removed from the list and
freed, each once, and the others are left in it, in order and well linked. -/
structure RemovesMatching
    (userdata : UserData)
    (m : ListMemory)
    (outcome : RemoveWhere UserData × Int) : Prop where
  rc_eq : outcome.2 = 0
  linked :
    linkedNodes outcome.1.m = keptNodes cmpFn userdata (linkedNodes m)
  wellLinked : WellLinked outcome.1.m
  shows : ∀ node ∈ linkedNodes outcome.1.m,
    outcome.1.m.itemOf node = m.itemOf node
  freed_eq : outcome.1.freed = removedNodes cmpFn userdata (linkedNodes m)
  freedOnce : outcome.1.freed.Nodup

variable {cmpFn} {userdata after : UserData} {node : NodeAddress}
variable {nodes : List NodeAddress} {rc : Int}

theorem comparisons_cons (compared : cmpFn userdata node = (after, rc)) :
    comparisons cmpFn userdata (node :: nodes) =
      (node, rc) :: comparisons cmpFn after nodes := by
  rw [comparisons, compared]

theorem keptNodes_cons (compared : cmpFn userdata node = (after, rc)) :
    keptNodes cmpFn userdata (node :: nodes) =
      if rc = 0 then keptNodes cmpFn after nodes
      else node :: keptNodes cmpFn after nodes := by
  rw [keptNodes, comparisons_cons compared, List.filter_cons]
  by_cases zero : rc = 0
  · simp [zero, keptNodes]
  · simp [zero, keptNodes]

theorem removedNodes_cons (compared : cmpFn userdata node = (after, rc)) :
    removedNodes cmpFn userdata (node :: nodes) =
      if rc = 0 then node :: removedNodes cmpFn after nodes
      else removedNodes cmpFn after nodes := by
  rw [removedNodes, comparisons_cons compared, List.filter_cons]
  by_cases zero : rc = 0
  · simp [zero, removedNodes]
  · simp [zero, removedNodes]

theorem map_comparisons
    (cmpFn : UserData → NodeAddress → UserData × Int)
    (userdata : UserData)
    (nodes : List NodeAddress) :
    (comparisons cmpFn userdata nodes).map Prod.fst = nodes := by
  induction nodes generalizing userdata with
  | nil => rfl
  | cons node nodes inductionHypothesis =>
      rw [comparisons, List.map_cons, inductionHypothesis]

/-- Nodes that are chosen by what a comparison returns for them. -/
theorem chosenNodes_sublist
    (cmpFn : UserData → NodeAddress → UserData × Int)
    (userdata : UserData)
    (nodes : List NodeAddress)
    (chosen : NodeAddress × Int → Bool) :
    (((comparisons cmpFn userdata nodes).filter chosen).map Prod.fst).Sublist
      nodes := by
  have part : ((comparisons cmpFn userdata nodes).filter chosen).Sublist
      (comparisons cmpFn userdata nodes) := List.filter_sublist
  have nodesPart := part.map Prod.fst
  rw [map_comparisons] at nodesPart
  exact nodesPart

theorem keptNodes_sublist
    (cmpFn : UserData → NodeAddress → UserData × Int)
    (userdata : UserData)
    (nodes : List NodeAddress) :
    (keptNodes cmpFn userdata nodes).Sublist nodes :=
  chosenNodes_sublist cmpFn userdata nodes _

/-- Each node is removed at most once. -/
theorem removedNodes_nodup
    (distinct : nodes.Nodup)
    (userdata : UserData) :
    (removedNodes cmpFn userdata nodes).Nodup :=
  distinct.sublist (chosenNodes_sublist cmpFn userdata nodes _)

/-- The last node is kept exactly when the last one of the rest is, if there are
others behind the first. -/
theorem keepsLast_cons
    (compared : cmpFn userdata node = (after, rc)) :
    KeepsLast cmpFn userdata (node :: nodes) ↔
      (nodes = [] → rc ≠ 0) ∧ KeepsLast cmpFn after nodes := by
  rw [KeepsLast, KeepsLast, comparisons_cons compared]
  cases nodes with
  | nil => simp [comparisons]
  | cons next nodes =>
      obtain ⟨later, other⟩ := cmpFn after next
      simp [comparisons]

end Comparisons

/-! ## Unlinking during the iteration -/

section Unlinking

variable {m : ListMemory} {xs ys items : List NodeAddress}
variable {old next : NodeAddress}

/-- With a node behind it, a node is unlinked as by `hm_list_remove`. -/
theorem unlinkNode_eq_unlinkWhere
    (chain : Chain m.links m.list.head (xs ++ old :: next :: ys)) :
    unlinkNode m (linkBehind xs) =
      (unlinkWhere m old (some next)).map fun after => (old, after) := by
  have known := chain.linked.links_eq
  rw [Option.or_none, Option.or_none] at known
  obtain ⟨content, stored, prev, behind⟩ := links_eq_some known
  simp only [List.head?_cons] at prev behind
  have owner := owner_allocated chain
  obtain ⟨m₁, set₁, relinks₁⟩ := writeLink_relinks owner (some next)
  have read := readLink_linkBehind chain
  have read₁ := readLink_written owner relinks₁
  have unlinks :
      unlinkWhere m old (some next) =
        (m₁.nodes old).bind fun content₁ =>
          m₁.update next fun content => { content with prev := content₁.prev } := by
    unfold linkBehind at set₁
    -- the link before is that of the node before, or the head of the list
    cases last : xs.getLast? with
    | none =>
        rw [last] at prev set₁
        simp only [unlinkWhere, stored, prev, set₁, Option.bind_eq_bind,
          Option.bind_some]
    | some before =>
        rw [last] at prev set₁
        simp only [unlinkWhere, stored, prev, set₁, Option.bind_eq_bind,
          Option.bind_some]
  simp only [unlinkNode, unlinks, read, List.head?_cons, stored, behind, set₁,
    read₁, ListMemory.writePrev, Option.bind_eq_bind, Option.bind_some]
  cases m₁.nodes old with
  | none => rfl
  | some content₁ =>
      simp only [Option.bind_some]
      cases m₁.update next fun content =>
          { content with prev := content₁.prev } with
      | none => rfl
      | some m₂ => rfl

/-- Without a node behind it, unlinking a node dereferences `NULL`. -/
theorem unlinkWhere_none (m : ListMemory) (old : NodeAddress) :
    unlinkWhere m old none = none := by
  simp [unlinkWhere]

theorem eraseIdx_append_cons
    {α : Type*}
    (before : List α)
    (old : α)
    (behind : List α) :
    (before ++ old :: behind).eraseIdx before.length = before ++ behind := by
  rw [List.eraseIdx_append_of_length_le (Nat.le_refl _), Nat.sub_self,
    List.eraseIdx_cons_zero]

/-- A matching node with another one behind it is unlinked and freed. -/
theorem ListHolds.unlinkWhere
    (clientFn : Nat → HmListNode → Option HmListNode)
    (holds : ListHolds m (xs ++ old :: next :: ys) items)
    (freeFn : ListNodeFn) :
    ∃ unlinked freed after,
      Hiemal.unlinkWhere m old (some next) = some unlinked ∧
        unlinked.freeNode clientFn freeFn old = some freed ∧
          after =
            { freed with
              list :=
                { freed.list with
                  nItems := predecessor freed.list.nItems } } ∧
            ListHolds after (xs ++ next :: ys) (items.eraseIdx xs.length) ∧
              ∀ node ∈ xs ++ next :: ys, after.itemOf node = m.itemOf node := by
  have inRange : xs.length < (xs ++ old :: next :: ys).length := by
    rw [List.length_append, List.length_cons]
    omega
  obtain ⟨node, unlinked, freed, unlinks, frees, afterHolds⟩ :=
    holds.unlinkNode clientFn inRange freeFn
  rw [List.take_left, unlinkNode_eq_unlinkWhere holds.chain,
    Option.map_eq_some_iff] at unlinks
  obtain ⟨_, unlinks, same⟩ := unlinks
  rw [Prod.mk.injEq] at same
  obtain ⟨rfl, rfl⟩ := same
  rw [eraseIdx_append_cons] at afterHolds
  refine ⟨_, freed, _, unlinks, frees, rfl, afterHolds, ?_⟩
  apply List.map_inj_left.mp
  rw [afterHolds.shows, List.eraseIdx_eq_take_drop_succ, List.map_append,
    List.map_take, List.map_drop, ← holds.shows, ← List.map_take,
    ← List.map_drop, ← List.map_append, ← List.eraseIdx_eq_take_drop_succ,
    eraseIdx_append_cons]

end Unlinking

/-! ## The iteration -/

section Iteration

variable {UserData : Type} {cmpFn : UserData → NodeAddress → UserData × Int}
variable (clientFn : Nat → HmListNode → Option HmListNode)
variable (freeFn : Option ListNodeFn)
variable {xs ys items : List NodeAddress} {node next : NodeAddress}

/-- The nodes not yet visited are entered at the next link of the visited one. -/
theorem ListHolds.next_eq
    {m : ListMemory}
    (holds : ListHolds m (xs ++ node :: ys) items) :
    ∃ content, m.nodes node = some content ∧ content.next = ys.head? := by
  have known := holds.chain.linked.links_eq
  rw [Option.or_none, Option.or_none] at known
  obtain ⟨content, stored, _, behind⟩ := links_eq_some known
  exact ⟨content, stored, behind⟩

section Rounds

variable {state : RemoveWhere UserData} {after : UserData} {rc : Int}

/-- A round for a node that stays. -/
theorem removeWhereLoop_kept
    (holds : ListHolds state.m (xs ++ node :: ys) items)
    (compared : cmpFn state.userdata node = (after, rc))
    (different : rc ≠ 0)
    (fuel : Nat) :
    removeWhereLoop clientFn cmpFn freeFn (fuel + 1) state (some node) =
      removeWhereLoop clientFn cmpFn freeFn fuel
        { state with userdata := after } ys.head? := by
  obtain ⟨content, stored, behind⟩ := holds.next_eq
  simp only [removeWhereLoop, stored, compared, if_neg different, behind,
    Option.bind_eq_bind, Option.bind_some]

/-- A round for a node that goes and is not the last one. -/
theorem removeWhereLoop_removed
    (holds : ListHolds state.m (xs ++ node :: next :: ys) items)
    (compared : cmpFn state.userdata node = (after, 0))
    (fuel : Nat) :
    ∃ m items',
      removeWhereLoop clientFn cmpFn freeFn (fuel + 1) state (some node) =
          removeWhereLoop clientFn cmpFn freeFn fuel
            { m := m
              userdata := after
              freed := state.freed ++ [node] } (some next) ∧
        ListHolds m (xs ++ next :: ys) items' ∧
          ∀ other ∈ xs ++ next :: ys, m.itemOf other = state.m.itemOf other := by
  obtain ⟨content, stored, behind⟩ := holds.next_eq
  obtain ⟨unlinked, freed, m, unlinks, frees, rfl, afterHolds, same⟩ :=
    holds.unlinkWhere clientFn (freeFn.getD .defaultNodeFree)
  refine ⟨_, _, ?_, afterHolds, same⟩
  rw [List.head?_cons] at behind
  simp only [removeWhereLoop, stored, compared, if_true, behind, unlinks,
    frees, Option.bind_eq_bind, Option.bind_some]

/-- A round for the last node, which goes. -/
theorem removeWhereLoop_last
    (holds : ListHolds state.m (xs ++ [node]) items)
    (compared : cmpFn state.userdata node = (after, 0))
    (fuel : Nat) :
    removeWhereLoop clientFn cmpFn freeFn (fuel + 1) state (some node) =
      none := by
  obtain ⟨content, stored, behind⟩ := holds.next_eq
  rw [List.head?_nil] at behind
  simp only [removeWhereLoop, stored, compared, if_true, behind,
    unlinkWhere_none, Option.bind_eq_bind, Option.bind_some, Option.bind_none]

end Rounds

/-- Run lemma: when the last node stays, the nodes that match are removed from the
unvisited ones. -/
theorem removeWhereLoop_returns
    (state : RemoveWhere UserData)
    (holds : ListHolds state.m (xs ++ ys) items)
    (keepsLast : KeepsLast cmpFn state.userdata ys)
    {fuel : Nat}
    (enough : ys.length ≤ fuel) :
    ∃ final items',
      removeWhereLoop clientFn cmpFn freeFn fuel state ys.head? = some final ∧
        ListHolds final.m (xs ++ keptNodes cmpFn state.userdata ys) items' ∧
          (∀ other ∈ xs ++ keptNodes cmpFn state.userdata ys,
            final.m.itemOf other = state.m.itemOf other) ∧
            final.freed =
              state.freed ++ removedNodes cmpFn state.userdata ys := by
  induction ys generalizing state xs items fuel with
  | nil =>
      refine ⟨state, items, by cases fuel <;> rfl, holds, fun _ _ => rfl, ?_⟩
      exact (List.append_nil state.freed).symm
  | cons node ys inductionHypothesis =>
      obtain ⟨fuel, rfl⟩ : ∃ more, fuel = more + 1 :=
        Nat.exists_eq_succ_of_ne_zero (by rw [List.length_cons] at enough; omega)
      have fuelEnough : ys.length ≤ fuel := Nat.le_of_succ_le_succ enough
      rcases compared : cmpFn state.userdata node with ⟨after, rc⟩
      rw [keepsLast_cons compared] at keepsLast
      rw [keptNodes_cons compared, removedNodes_cons compared, List.head?_cons]
      by_cases zero : rc = 0
      · subst zero
        cases ys with
        | nil => exact absurd rfl (keepsLast.1 rfl)
        | cons next ys =>
            obtain ⟨m, items₁, round, holds₁, same₁⟩ :=
              removeWhereLoop_removed clientFn freeFn holds compared fuel
            obtain ⟨final, items', returns, finalHolds, same, freed⟩ :=
              inductionHypothesis
                { m := m
                  userdata := after
                  freed := state.freed ++ [node] } holds₁ keepsLast.2 fuelEnough
            have kept :
                ∀ other ∈ xs ++ keptNodes cmpFn after (next :: ys),
                  other ∈ xs ++ next :: ys := by
              have part := keptNodes_sublist cmpFn after (next :: ys)
              exact fun other member => (part.append_left xs).subset member
            refine ⟨final, items', ?_, finalHolds, ?_, ?_⟩
            · rw [round, ← returns, List.head?_cons]
            · intro other member
              rw [same other member, same₁ other (kept other member)]
            · rw [freed, if_pos rfl, List.append_assoc, List.singleton_append]
      · rw [if_neg zero, if_neg zero,
          removeWhereLoop_kept clientFn freeFn holds compared zero]
        rw [List.append_cons] at holds ⊢
        exact inductionHypothesis { state with userdata := after } holds
          keepsLast.2 fuelEnough

/-- Run lemma: when the last node goes, `NULL` is dereferenced. -/
theorem removeWhereLoop_fails
    (state : RemoveWhere UserData)
    (holds : ListHolds state.m (xs ++ ys) items)
    (removesLast : ¬KeepsLast cmpFn state.userdata ys)
    (fuel : Nat) :
    removeWhereLoop clientFn cmpFn freeFn fuel state ys.head? = none := by
  induction ys generalizing state xs items fuel with
  | nil => exact absurd (by simp [KeepsLast, comparisons]) removesLast
  | cons node ys inductionHypothesis =>
      cases fuel with
      | zero => rfl
      | succ fuel =>
          rcases compared : cmpFn state.userdata node with ⟨after, rc⟩
          rw [keepsLast_cons compared] at removesLast
          rw [List.head?_cons]
          by_cases zero : rc = 0
          · subst zero
            cases ys with
            | nil =>
                exact removeWhereLoop_last clientFn freeFn holds compared fuel
            | cons next ys =>
                obtain ⟨m, items₁, round, holds₁, _⟩ :=
                  removeWhereLoop_removed clientFn freeFn holds compared fuel
                rw [round, ← List.head?_cons]
                apply inductionHypothesis _ holds₁
                simpa using removesLast
          · rw [removeWhereLoop_kept clientFn freeFn holds compared zero]
            rw [List.append_cons] at holds
            apply inductionHypothesis { state with userdata := after } holds
            simpa [zero] using removesLast

end Iteration

/-- On every list the nodes with comparison zero are removed exactly if the last
one is not among them. -/
theorem hmListRemoveWhere_iff_keepsLast
    {UserData : Type}
    (clientFn : Nat → HmListNode → Option HmListNode)
    (cmpFn : UserData → NodeAddress → UserData × Int)
    (freeFn : Option ListNodeFn)
    (m : ListMemory)
    (userdata : UserData)
    (list : ∃ nodes items, ListHolds m nodes items) :
    (∃ fuel outcome,
      hmListRemoveWhere clientFn cmpFn freeFn fuel m userdata = some outcome ∧
        RemovesMatching cmpFn userdata m outcome) ↔
      KeepsLast cmpFn userdata (linkedNodes m) := by
  obtain ⟨nodes, items, holds⟩ := list
  have entered := holds.chain.linked.first_eq
  rw [Option.or_none] at entered
  have unvisited : ListHolds m ([] ++ nodes) items := holds
  rw [holds.linkedNodes_eq]
  constructor
  · rintro ⟨fuel, outcome, returns, _⟩
    by_contra removesLast
    rw [hmListRemoveWhere, entered,
      removeWhereLoop_fails clientFn freeFn ⟨m, userdata, []⟩ unvisited
        removesLast] at returns
    cases returns
  · intro keepsLast
    obtain ⟨final, items', returns, finalHolds, same, freed⟩ :=
      removeWhereLoop_returns clientFn freeFn ⟨m, userdata, []⟩ unvisited
        keepsLast (Nat.le_refl nodes.length)
    rw [List.nil_append] at finalHolds same freed
    refine ⟨nodes.length, (final, 0), ?_, ?_⟩
    · rw [hmListRemoveWhere, entered, returns]
      rfl
    · exact
        { rc_eq := rfl
          linked := by rw [finalHolds.linkedNodes_eq, holds.linkedNodes_eq]
          wellLinked := finalHolds.listServes.wellLinked
          shows := by rw [finalHolds.linkedNodes_eq]; exact same
          freed_eq := by rw [freed, holds.linkedNodes_eq]
          freedOnce := by
            rw [freed]
            exact removedNodes_nodup holds.chain.distinct userdata }

/-- Every other node of a list of four is removed, by a comparison that counts its
calls. -/
theorem hmListRemoveWhere_iff_keepsLast_even :
    ∃ fuel outcome,
      hmListRemoveWhere (fun _ _ => none)
          (fun (calls : Nat) _ => (calls + 1, ((calls % 2 : Nat) : Int)))
          none fuel (evenList 4) 0 = some outcome ∧
        RemovesMatching
          (fun (calls : Nat) _ => (calls + 1, ((calls % 2 : Nat) : Int))) 0
          (evenList 4) outcome := by
  apply (hmListRemoveWhere_iff_keepsLast (fun _ _ => none)
    (fun (calls : Nat) _ => (calls + 1, ((calls % 2 : Nat) : Int))) none
    (evenList 4) 0 ⟨_, _, listHolds_evenList 4⟩).mpr
  rw [(listHolds_evenList 4).linkedNodes_eq]
  intro call last
  obtain rfl : call = (3, 1) := by
    simpa [comparisons, List.range_succ] using last.symm
  decide

/-- A plain list of the nodes `0` and `1`. -/
def twoNodeList : ListMemory where
  list := { hmListInit with head := some 0, nItems := 2 }
  nodes := fun node =>
    if node = 0 then
      some { hmReflistNodeInit with magic := hmListNodeMagic, next := some 1 }
    else if node = 1 then
      some { hmReflistNodeInit with magic := hmListNodeMagic, prev := some 0 }
    else none

/-- Removal of the last node dereferences the `NULL` link behind it. -/
theorem not_hmListRemoveWhere_last :
    ¬∃ fuel outcome,
      hmListRemoveWhere (fun _ _ => none)
          (fun _ node => ((), if node = 1 then 0 else 1)) none fuel
          twoNodeList () = some outcome ∧
        RemovesMatching (fun _ node => ((), if node = 1 then 0 else 1)) ()
          twoNodeList outcome := by
  rintro ⟨fuel, outcome, returns, _⟩
  have fails :
      hmListRemoveWhere (fun _ _ => none)
          (fun _ node => ((), if node = 1 then (0 : Int) else 1)) none fuel
          twoNodeList () = none := by
    cases fuel with
    | zero => rfl
    | succ fuel =>
        cases fuel with
        | zero => rfl
        | succ fuel => rfl
  rw [fails] at returns
  cases returns

end Hiemal
