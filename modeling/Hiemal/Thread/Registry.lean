import Hiemal.Common.Sequence

/-!
# The registry of threads

Translation of `core/thread.c` and of `thread_init` of `core/thread_unix.c`. The
threads that are created are kept in a list behind a global pointer, and joined by
a walk along it.

Allocation and the creation of a thread are taken to succeed, and every thread to
end when it is joined. Blocks are named in the order in which they are allocated.
What a new block holds is up to the environment.
-/

namespace Hiemal

open Foundation

/-- The members of `struct _thread_info` behind its node head. -/
structure ThreadInfo where
  threadId : Nat
  createdBy : String

/-- The global pointer `threads_info`, with the list it points to, the memory of the
nodes, the thread infos the nodes begin, and the number of blocks allocated. -/
structure Threads where
  threadsInfo : Option HmList
  nodes : NodeAddress → Option HmListNode
  infos : NodeAddress → Option ThreadInfo
  blocks : Nat

/-- The registry before the program starts. -/
def Threads.unset : Threads where
  threadsInfo := none
  nodes := fun _ => none
  infos := fun _ => none
  blocks := 0

/-- `*threads_info`, with the memory of its nodes. -/
def Threads.memory (t : Threads) : Option ListMemory :=
  t.threadsInfo.map fun list => { list := list, nodes := t.nodes }

def threadsInfoInit (t : Threads) : Threads × Int :=
  match t.threadsInfo with
  | none =>
      ({ t with threadsInfo := some hmListInit, blocks := t.blocks + 1 }, 0)
  | some _ => (t, -1)

/-- `threads_info_reset`; the block allocated after others holds `fresh`. -/
def threadsInfoReset (fresh : Nat → HmList) (t : Threads) : Threads × Int :=
  match t.threadsInfo with
  | none => (t, 0)
  | some _ =>
      ({ t with
          threadsInfo := some (fresh t.blocks)
          blocks := t.blocks + 1 },
        0)

/-- `HM_LIST_NODE_INIT`. -/
def hmListNodeInit : HmListNode where
  magic := hmListNodeMagic
  dataSize := 0
  freeFn := some .defaultNodeFree
  prev := none
  next := none
  node := none
  data := []

/-- `thread_init`, for the thread that `pthread_create` names `newThreadId`. A list
of references would allocate the next block. -/
def threadInit
    (t : Threads)
    (newThreadId : Nat)
    (file func : String)
    (line : Int) : Option (Threads × Int) := do
  let newThreadInfo := t.blocks
  let createdBy := file ++ ":" ++ func ++ " (" ++ toString line ++ ")"
  let info := { threadId := newThreadId, createdBy := createdBy }
  let m := (← t.memory).setNode newThreadInfo (some hmListNodeInit)
  let (m, _) ← hmListAppend m newThreadInfo (newThreadInfo + 1)
  return (
    { threadsInfo := some m.list
      nodes := m.nodes
      infos := fun node =>
        if node = newThreadInfo then some info else t.infos node
      blocks := t.blocks + 2 },
    0)

/-- `_thread_info_join`, with the thread it joins. -/
def threadInfoJoin (t : Threads) (node : NodeAddress) : Option Nat :=
  (t.infos node).map ThreadInfo.threadId

/-- The loop of `hm_list_itr`, which ends at a `NULL` next link, for a function that
does not change the list. -/
def hmListItr
    {Output : Type}
    (itrFn : NodeAddress → Option Output)
    (m : ListMemory) :
    (fuel : Nat) → Option NodeAddress → Option (List Output)
  | _, none => some []
  | 0, some _ => none
  | fuel + 1, some node => do
      let output ← itrFn node
      let content ← m.nodes node
      let outputs ← hmListItr itrFn m fuel content.next
      return output :: outputs

/-- `thread_join_all`, with the threads it joins. A list without a cycle has at most
as many nodes as blocks were allocated. -/
def threadJoinAll (t : Threads) : Option (List Nat × Int) := do
  let m ← t.memory
  let joined ← hmListItr (threadInfoJoin t) m t.blocks m.list.head
  return (joined, 0)

/-! ## Sequences of calls -/

inductive ThreadCall
  /-- `HM_THREAD_CREATE`, at a place of the source. -/
  | create (threadId : Nat) (file func : String) (line : Int)
  /-- `thread_join_all()`. -/
  | joinAll
  /-- `threads_info_reset()`. -/
  | reset
  deriving DecidableEq

/-- The outcome of a call that returns. -/
structure ThreadOutcome where
  /-- The registry after the call. -/
  threads : Threads
  /-- The threads that were joined, in order. -/
  joined : List Nat
  /-- The C return value. -/
  rc : Int

def ThreadCall.call
    (fresh : Nat → HmList)
    (t : Threads) : ThreadCall → Option ThreadOutcome
  | .create threadId file func line =>
      (threadInit t threadId file func line).map fun result =>
        { threads := result.1, joined := [], rc := result.2 }
  | .joinAll =>
      (threadJoinAll t).map fun result =>
        { threads := t, joined := result.1, rc := result.2 }
  | .reset =>
      some
        { threads := (threadsInfoReset fresh t).1
          joined := []
          rc := (threadsInfoReset fresh t).2 }

/-- Execute one call as a transition that outputs its whole outcome. -/
def threadStep
    (fresh : Nat → HmList)
    (t : Threads)
    (call : ThreadCall) : Option (Threads × ThreadOutcome) :=
  (call.call fresh t).map fun outcome => (outcome.threads, outcome)

/-! ## What is expected -/

/-- The thread that a call creates. -/
def ThreadCall.created : ThreadCall → List Nat
  | .create threadId _ _ _ => [threadId]
  | _ => []

/-- The threads created since the last join or reset, and those that a call joins. -/
def dueStep (pending : List Nat) : ThreadCall → List Nat × List Nat
  | .create threadId _ _ _ => (pending ++ [threadId], [])
  | .joinAll => ([], pending)
  | .reset => ([], [])

/-- There is a well linked list, which counts its nodes. -/
def Threads.WellLinked (t : Threads) : Prop :=
  ∃ m, t.memory = some m ∧ Hiemal.WellLinked m

/-- Whatever new blocks hold, every call after `threads_info_init` returns, the
registry stays well linked, every call joins what is due, and no thread is joined
more often than it was created. -/
def RegistryKept (calls : List ThreadCall) : Prop :=
  ∀ fresh, ∃ final outcomes,
    runSteps (threadStep fresh) (threadsInfoInit .unset).1 calls =
        some (final, outcomes) ∧
      (∀ t ∈ (threadsInfoInit .unset).1 :: outcomes.map (·.threads),
        t.WellLinked) ∧
      outcomes.map (·.joined) = (runTotal dueStep [] calls).2 ∧
      ∀ threadId,
        (outcomes.flatMap (·.joined)).count threadId ≤
          (calls.flatMap (·.created)).count threadId

/-- The number of calls of `thread_join_all` behind the first created thread. -/
def joinsAfterCreate (calls : List ThreadCall) : Nat :=
  (calls.dropWhile fun call => call.created.isEmpty).count .joinAll

/-! ## What is done -/

/-- The threads in the registry, and those that a call joins. -/
def registeredStep (registered : List Nat) : ThreadCall → List Nat × List Nat
  | .create threadId _ _ _ => (registered ++ [threadId], [])
  | .joinAll => (registered, registered)
  | .reset => ([], [])

/-- The registry is a plain list of thread infos, which name the given threads. -/
structure Registers
    (t : Threads)
    (m : ListMemory)
    (registered : List Nat) : Prop where
  memory_eq : t.memory = some m
  plain : hmSubtypeId m.list.magic = 0
  holds : ∃ nodes, ListHolds m nodes nodes ∧
    nodes.map (threadInfoJoin t) = registered.map some ∧
      (∀ node ∈ nodes, node < t.blocks)

section Steps

variable {t : Threads} {m : ListMemory} {registered : List Nat}

theorem Registers.wellLinked (registers : Registers t m registered) :
    t.WellLinked := by
  obtain ⟨nodes, holds, _⟩ := registers.holds
  exact ⟨m, registers.memory_eq, holds.listServes.wellLinked⟩

/-- The registry is empty at first. -/
theorem registers_threadsInfoInit :
    Registers (threadsInfoInit .unset).1
      { list := hmListInit, nodes := Threads.unset.nodes } [] where
  memory_eq := rfl
  plain := hmSubtypeId_hmListInit
  holds := ⟨[], listHolds_init (Or.inl rfl) _, rfl, by simp⟩

/-- A walk along linked nodes collects what the function returns on them. -/
theorem hmListItr_segment
    {Output : Type}
    {itrFn : NodeAddress → Option Output}
    {nodes : List NodeAddress}
    {outputs : List Output}
    {prev first : Option NodeAddress}
    {fuel : Nat}
    (segment : Segment m.links prev first nodes none)
    (returns : nodes.map itrFn = outputs.map some)
    (enough : nodes.length ≤ fuel) :
    hmListItr itrFn m fuel first = some outputs := by
  induction nodes generalizing prev first fuel outputs with
  | nil =>
      obtain rfl : first = none := segment
      obtain rfl : outputs = [] := by
        simpa using returns.symm
      cases fuel <;> rfl
  | cons node nodes inductionHypothesis =>
      obtain ⟨rfl, next, links, rest⟩ := segment
      obtain ⟨content, stored, _, next_eq⟩ := links_eq_some links
      cases outputs with
      | nil => cases returns
      | cons output outputs =>
          rw [List.map_cons, List.map_cons, List.cons.injEq] at returns
          cases fuel with
          | zero => exact absurd enough (Nat.not_succ_le_zero _)
          | succ fuel =>
              simp only at next_eq
              rw [← next_eq] at rest
              rw [hmListItr, returns.1, stored]
              simp only [Option.bind_eq_bind, Option.bind_some,
                inductionHypothesis rest returns.2 (Nat.le_of_succ_le_succ enough)]
              rfl

/-- The nodes of the registry are no more than the blocks. -/
theorem length_le_of_nodup
    {nodes : List NodeAddress}
    {blocks : Nat}
    (distinct : nodes.Nodup)
    (named : ∀ node ∈ nodes, node < blocks) :
    nodes.length ≤ blocks := by
  have subset : nodes ⊆ List.range blocks := fun node member =>
    List.mem_range.mpr (named node member)
  simpa using (distinct.subperm subset).length_le

/-- Joining all threads joins the registered ones. -/
theorem Registers.threadJoinAll_eq (registers : Registers t m registered) :
    threadJoinAll t = some (registered, 0) := by
  obtain ⟨nodes, holds, named, known⟩ := registers.holds
  have walked :=
    hmListItr_segment holds.chain.linked named
      (length_le_of_nodup holds.chain.distinct known)
  rw [threadJoinAll, registers.memory_eq]
  simp only [Option.bind_eq_bind, Option.bind_some, walked, Option.pure_def]

/-- Creating a thread appends it to the registry. -/
theorem Registers.threadInit_eq
    (registers : Registers t m registered)
    (threadId : Nat)
    (file func : String)
    (line : Int) :
    ∃ next nextMemory,
      threadInit t threadId file func line = some (next, 0) ∧
        Registers next nextMemory (registered ++ [threadId]) := by
  obtain ⟨nodes, holds, named, known⟩ := registers.holds
  have outside : t.blocks ∉ nodes := fun member =>
    Nat.lt_irrefl _ (known _ member)
  obtain ⟨appended, returns, appendedHolds, magic⟩ :=
    holds.appendPlain registers.plain outside hmListNodeInit (t.blocks + 1)
  let info : ThreadInfo :=
    { threadId := threadId
      createdBy := file ++ ":" ++ func ++ " (" ++ toString line ++ ")" }
  let next : Threads :=
    { threadsInfo := some appended.list
      nodes := appended.nodes
      infos := fun node => if node = t.blocks then some info else t.infos node
      blocks := t.blocks + 2 }
  refine ⟨next, appended, ?_, ?_⟩
  · rw [threadInit, registers.memory_eq]
    simp only [Option.bind_eq_bind, Option.bind_some, returns, Option.pure_def,
      next, info]
  · refine
      { memory_eq := rfl
        plain := by rw [magic]; exact registers.plain
        holds := ⟨nodes ++ [t.blocks], appendedHolds, ?_, ?_⟩ }
    · rw [List.map_append, List.map_append, ← named]
      congr 1
      · apply List.map_congr_left
        intro node member
        have other : node ≠ t.blocks := fun same => outside (same ▸ member)
        simp only [threadInfoJoin, next, if_neg other]
      · simp [threadInfoJoin, next, info]
    · intro node member
      rcases List.mem_append.mp member with older | new
      · exact Nat.lt_add_right 2 (known node older)
      · obtain rfl : node = t.blocks := List.mem_singleton.mp new
        exact Nat.lt_add_of_pos_right (by decide)

/-- A call leaves a well linked registry and joins the given threads. -/
structure JoinsServed (outcome : ThreadOutcome) (joined : List Nat) : Prop where
  wellLinked : outcome.threads.WellLinked
  joined_eq : outcome.joined = joined

/-- A call other than a reset does to the registry what it does to the registered
threads. -/
theorem threadStep_registers
    (fresh : Nat → HmList)
    (t : Threads)
    (registered : List Nat)
    (call : ThreadCall)
    (related : ∃ m, Registers t m registered)
    (noReset : call ≠ .reset) :
    ∃ next outcome,
      threadStep fresh t call = some (next, outcome) ∧
        (∃ m, Registers next m (registeredStep registered call).1) ∧
          JoinsServed outcome (registeredStep registered call).2 := by
  obtain ⟨m, registers⟩ := related
  cases call with
  | create threadId file func line =>
      obtain ⟨next, nextMemory, returns, nextRegisters⟩ :=
        registers.threadInit_eq threadId file func line
      refine ⟨next, { threads := next, joined := [], rc := 0 }, ?_,
        ⟨nextMemory, nextRegisters⟩, ⟨nextRegisters.wellLinked, rfl⟩⟩
      simp only [threadStep, ThreadCall.call, returns, Option.map_some]
  | joinAll =>
      refine ⟨t, { threads := t, joined := registered, rc := 0 }, ?_,
        ⟨m, registers⟩, ⟨registers.wellLinked, rfl⟩⟩
      simp only [threadStep, ThreadCall.call, registers.threadJoinAll_eq,
        Option.map_some]
  | reset => exact absurd rfl noReset

end Steps

/-! ## Runs -/

section Runs

variable {calls : List ThreadCall}

/-- Without a reset, every run returns, keeps the registry well linked, and joins all
registered threads at every join. -/
theorem threadStep_run
    (noReset : .reset ∉ calls)
    (fresh : Nat → HmList) :
    ∃ final outcomes,
      runSteps (threadStep fresh) (threadsInfoInit .unset).1 calls =
          some (final, outcomes) ∧
        (∀ outcome ∈ outcomes, outcome.threads.WellLinked) ∧
          outcomes.map (·.joined) = (runTotal registeredStep [] calls).2 := by
  have allowed : ∀ call ∈ calls, call ≠ .reset := fun call member same =>
    noReset (same ▸ member)
  obtain ⟨final, outcomes, ran, _, served⟩ :=
    runSteps_simulates (threadStep_registers fresh) calls
      (threadsInfoInit .unset).1 [] ⟨_, registers_threadsInfoInit⟩ allowed
  have both :
      List.Forall₂
        (fun outcome joined =>
          outcome.threads.WellLinked ∧ outcome.joined = joined)
        outcomes (runTotal registeredStep [] calls).2 :=
    served.imp fun _ _ serves => ⟨serves.wellLinked, serves.joined_eq⟩
  obtain ⟨wellLinked, joined⟩ := (List.forall₂_and_left _ _).mp both
  refine ⟨final, outcomes, ran, wellLinked, ?_⟩
  rw [← List.forall₂_eq_eq_eq, List.forall₂_map_left_iff]
  exact joined

/-- A reset leaves no well linked registry if the new block counts a node that is not
there. -/
theorem not_wellLinked_reset
    {t final : Threads}
    {outcomes : List ThreadOutcome}
    {block : HmList}
    (head : block.head = none)
    (count : block.nItems ≠ 0)
    (reset : .reset ∈ calls)
    (ran : runSteps (threadStep fun _ => block) t calls = some (final, outcomes)) :
    ∃ outcome ∈ outcomes, ¬outcome.threads.WellLinked := by
  induction calls generalizing t outcomes with
  | nil => cases reset
  | cons call calls inductionHypothesis =>
      obtain ⟨next, outcome, rest, stepped, restRan, rfl⟩ :=
        runSteps_cons_eq_some.mp ran
      rcases List.mem_cons.mp reset with rfl | later
      · refine ⟨outcome, List.mem_cons_self, ?_⟩
        rintro ⟨m, memory, linked⟩
        cases stepped
        cases list : t.threadsInfo with
        | none => simp [threadsInfoReset, list, Threads.memory] at memory
        | some old =>
            simp only [threadsInfoReset, list, Threads.memory, Option.map_some,
              Option.some.injEq] at memory
            subst memory
            have counted := linked.count
            have nothing (count : Nat) (m : ListMemory) :
                linkedFrom m count none = [] := by
              cases count <;> rfl
            rw [linkedNodes, head, nothing] at counted
            exact count counted.symm
      · obtain ⟨bad, member, broken⟩ := inductionHypothesis later restRan
        exact ⟨bad, List.mem_cons_of_mem _ member, broken⟩

/-! ## Joins that are due -/

/-- With threads registered that were joined before, the joins are right exactly if
there are none. -/
theorem registered_eq_due_of_joined
    {joined : List Nat}
    (older : joined ≠ [])
    (noReset : .reset ∉ calls)
    (pending : List Nat) :
    (runTotal registeredStep (joined ++ pending) calls).2 =
        (runTotal dueStep pending calls).2 ↔
      calls.count .joinAll = 0 := by
  induction calls generalizing pending with
  | nil => simp [runTotal]
  | cons call calls inductionHypothesis =>
      obtain ⟨other, restNoReset⟩ := List.ne_and_not_mem_of_not_mem_cons noReset
      cases call with
      | create threadId file func line =>
          have rest := inductionHypothesis restNoReset (pending ++ [threadId])
          rw [← List.append_assoc] at rest
          simpa [runTotal, registeredStep, dueStep] using rest
      | joinAll =>
          simp [runTotal, registeredStep, dueStep, older]
      | reset => exact absurd rfl other

/-- With none of the registered threads joined before, the joins are right exactly if
there is at most one. -/
theorem registered_eq_due_of_pending
    {pending : List Nat}
    (some : pending ≠ [])
    (noReset : .reset ∉ calls) :
    (runTotal registeredStep pending calls).2 =
        (runTotal dueStep pending calls).2 ↔
      calls.count .joinAll ≤ 1 := by
  induction calls generalizing pending with
  | nil => simp [runTotal]
  | cons call calls inductionHypothesis =>
      obtain ⟨other, restNoReset⟩ := List.ne_and_not_mem_of_not_mem_cons noReset
      cases call with
      | create threadId file func line =>
          have rest := @inductionHypothesis (pending ++ [threadId]) (by simp)
            restNoReset
          simpa [runTotal, registeredStep, dueStep] using rest
      | joinAll =>
          have rest := registered_eq_due_of_joined some restNoReset []
          rw [List.append_nil] at rest
          simp [runTotal, registeredStep, dueStep, rest]
      | reset => exact absurd rfl other

/-- From an empty registry on, the joins are right exactly if there is at most one
behind the first created thread. -/
theorem registered_eq_due_iff
    (noReset : .reset ∉ calls) :
    (runTotal registeredStep [] calls).2 = (runTotal dueStep [] calls).2 ↔
      joinsAfterCreate calls ≤ 1 := by
  induction calls with
  | nil => simp [runTotal, joinsAfterCreate]
  | cons call calls inductionHypothesis =>
      obtain ⟨other, restNoReset⟩ := List.ne_and_not_mem_of_not_mem_cons noReset
      cases call with
      | create threadId file func line =>
          have rest := @registered_eq_due_of_pending calls [threadId] (by simp)
            restNoReset
          simpa [runTotal, registeredStep, dueStep, joinsAfterCreate,
            ThreadCall.created] using rest
      | joinAll =>
          have rest := inductionHypothesis restNoReset
          simpa [runTotal, registeredStep, dueStep, joinsAfterCreate,
            ThreadCall.created] using rest
      | reset => exact absurd rfl other

/-- No thread is due more often than it was created. -/
theorem count_due_le
    (pending : List Nat)
    (calls : List ThreadCall)
    (threadId : Nat) :
    ((runTotal dueStep pending calls).2.flatten).count threadId ≤
      (pending ++ calls.flatMap (·.created)).count threadId := by
  induction calls generalizing pending with
  | nil => simp [runTotal]
  | cons call calls inductionHypothesis =>
      cases call with
      | create created file func line =>
          have rest := inductionHypothesis (pending ++ [created])
          simpa [runTotal, dueStep, ThreadCall.created] using rest
      | joinAll =>
          have rest := inductionHypothesis []
          simp only [runTotal, dueStep, ThreadCall.created, List.flatten_cons,
            List.flatMap_cons, List.nil_append, List.count_append] at rest ⊢
          omega
      | reset =>
          have rest := inductionHypothesis []
          simp only [runTotal, dueStep, ThreadCall.created, List.flatten_cons,
            List.flatMap_cons, List.nil_append, List.count_append] at rest ⊢
          exact Nat.le_add_left_of_le rest

/-- The registry is kept, whatever new blocks hold, exactly if it is never reset and
all threads are joined at most once behind the first created one. -/
theorem registryKept_iff (calls : List ThreadCall) :
    RegistryKept calls ↔ .reset ∉ calls ∧ joinsAfterCreate calls ≤ 1 := by
  constructor
  · intro kept
    have noReset : .reset ∉ calls := by
      intro reset
      obtain ⟨final, outcomes, ran, wellLinked, _⟩ :=
        kept fun _ => { magic := 0, head := none, nItems := 1 }
      obtain ⟨bad, member, broken⟩ :=
        not_wellLinked_reset rfl Nat.one_ne_zero reset ran
      exact broken (wellLinked _
        (List.mem_cons_of_mem _ (List.mem_map_of_mem member)))
    refine ⟨noReset, (registered_eq_due_iff noReset).mp ?_⟩
    obtain ⟨final, outcomes, ran, _, due, _⟩ := kept fun _ => hmListInit
    obtain ⟨last, others, othersRan, _, joined⟩ :=
      threadStep_run noReset fun _ => hmListInit
    rw [ran] at othersRan
    obtain ⟨rfl, rfl⟩ := Prod.mk.inj (Option.some.inj othersRan)
    exact joined.symm.trans due
  · rintro ⟨noReset, few⟩ fresh
    obtain ⟨final, outcomes, ran, wellLinked, joined⟩ :=
      threadStep_run noReset fresh
    have due := joined.trans ((registered_eq_due_iff noReset).mpr few)
    refine ⟨final, outcomes, ran, ?_, due, ?_⟩
    · rw [List.forall_mem_cons, List.forall_mem_map]
      exact ⟨registers_threadsInfoInit.wellLinked, wellLinked⟩
    · intro threadId
      rw [@List.flatMap_def _ _ outcomes, due]
      exact count_due_le [] calls threadId

/-- A thread is joined by each of two joins. -/
theorem not_registryKept_twice :
    ¬RegistryKept [.create 7 "main.c" "main" 1, .joinAll, .joinAll] := by
  intro kept
  obtain ⟨final, outcomes, ran, _, due, _⟩ := kept fun _ => hmListInit
  cases ran
  revert due
  decide

end Runs

end Hiemal
