import Hiemal.Common.Arrays
import Hiemal.Common.Sequence
import Hiemal.Event.Defs

/-!
# Polling a list of descriptors

Translation of `hm_poll_fd_list` of `core/event_unix.c`. What `poll` reports and
what the conditions return is up to the environment: a run is given one round for
each call of `poll` that returns, and waits in the next one when there are no more.

The function looks for a descriptor that is ready by the number of the descriptor,
not by what `poll` reports. This module says exactly in which runs it does not
matter.
-/

namespace Hiemal

open Foundation

/-- The members of `struct _hm_event` behind the head of the node. -/
structure HmFdEvent where
  objType : HmEventObjType
  fd : Int

/-- `POLLIN`. -/
def pollin : Nat := 1

/-- What the environment answers in one round: the `revents` of each place in the
array, and what the condition of an event returns if it is called. -/
structure PollRound where
  revents : Nat → Nat
  cond : NodeAddress → Int

/-- What can be seen of a run. -/
inductive PollAction
  /-- `poll` returns. -/
  | poll (revents : Nat → Nat)
  /-- The condition of an event returns a code. -/
  | cond (e : NodeAddress) (rc : Int)
  /-- `hm_poll_fd_list` returns a code. -/
  | ret (rc : Int)

/-- The loop that fills the array of descriptors; `some none` if an event is not one
on a descriptor. -/
def fillFds (m : ListMemory) (event : NodeAddress → HmFdEvent) :
    (remaining : Nat) → Option NodeAddress → Option (Option (List Int))
  | 0, _ => some (some [])
  | remaining + 1, e => do
      let e ← e
      let content ← m.nodes e
      if (event e).objType ≠ .fd then some none
      else
        let fds ← fillFds m event remaining content.next
        return fds.map ((event e).fd :: ·)

/-- The loop over the array after `poll` has returned: what is seen of it, and
whether it goes back to `poll_fds`. -/
def scanFds (m : ListMemory) (round : PollRound) :
    List Int → (i : Nat) → Option (List PollAction × Bool)
  | [], _ => some ([], false)
  | fd :: fds, i =>
      if hmFlagSet (toUnsigned 64 fd) pollin then do
        let e ← ← hmListAt m i
        let rc := round.cond e
        return ([.cond e rc], rc ≠ 0)
      else scanFds m round fds (i + 1)

/-- The function from `poll_fds` on. -/
def pollFds (m : ListMemory) (fds : List Int) :
    List PollRound → Option (List PollAction)
  | [] => some []
  | round :: rounds => do
      let (actions, again) ← scanFds m round fds 0
      if again then
        let rest ← pollFds m fds rounds
        return .poll round.revents :: (actions ++ rest)
      else return .poll round.revents :: (actions ++ [.ret 0])

/-- `hm_poll_fd_list`, for the given rounds; `none` if a `NULL` pointer is
dereferenced. -/
def hmPollFdList
    (m : ListMemory)
    (event : NodeAddress → HmFdEvent)
    (rounds : List PollRound) : Option (List PollAction) := do
  match ← fillFds m event m.list.nItems m.list.head with
  | none => return [.ret (-1)]
  | some fds => pollFds m fds rounds

/-! ## What is meant -/

/-- `poll` reported the descriptor of an event readable. -/
def Reported
    (events : List NodeAddress)
    (revents : Nat → Nat)
    (e : NodeAddress) : Prop :=
  ∃ place, events[place]? = some e ∧ hmFlagSet (revents place) pollin = true

/-- Conditions are called for events that the latest `poll` reported, and the
function returns 0, and only right after such a condition has returned 0. `latest` is
what the latest `poll` reported, and `ready` that the condition called last has
returned 0. -/
def AnswersPoll (events : List NodeAddress) :
    (latest : Option (Nat → Nat)) → (ready : Prop) → List PollAction → Prop
  | _, _, [] => True
  | _, _, .poll revents :: actions => AnswersPoll events (some revents) False actions
  | latest, _, .cond e rc :: actions =>
      (∃ revents, latest = some revents ∧ Reported events revents e) ∧
        AnswersPoll events latest (rc = 0) actions
  | latest, ready, .ret rc :: actions =>
      rc = 0 ∧ ready ∧ AnswersPoll events latest False actions

/-- The calls of `poll` in a run. -/
def reventsOf (actions : List PollAction) : List (Nat → Nat) :=
  actions.filterMap fun
    | .poll revents => some revents
    | _ => none

/-- The run answers what `poll` reports, and if it does not return it polls again
after every round. -/
structure PollsReady
    (events : List NodeAddress)
    (rounds : List PollRound)
    (run : Option (List PollAction)) : Prop where
  completes : ∃ actions, run = some actions
  answers : ∀ actions, run = some actions → AnswersPoll events none False actions
  pollsAgain : ∀ actions, run = some actions → (∀ rc, .ret rc ∉ actions) →
    reventsOf actions = rounds.map PollRound.revents

/-! ## What is done -/

/-- The first event with an odd descriptor, which is the one the function looks
at. -/
def firstOdd (event : NodeAddress → HmFdEvent) (events : List NodeAddress) :
    Option NodeAddress :=
  events.find? fun e => (event e).fd % 2 = 1

/-- The run on an event with an odd descriptor. -/
def oddRun (e : NodeAddress) : List PollRound → List PollAction
  | [] => []
  | round :: rounds =>
      .poll round.revents :: .cond e (round.cond e) ::
        (if round.cond e ≠ 0 then oddRun e rounds else [.ret 0])

/-- The run without an odd descriptor: the first `poll` is the last one. -/
def evenRun : List PollRound → List PollAction
  | [] => []
  | round :: _ => [.poll round.revents, .ret 0]

/-- The event is reported in every round up to the one in which its condition
returns 0. -/
def ReportedUntilZero (events : List NodeAddress) (e : NodeAddress) :
    List PollRound → Prop
  | [] => True
  | round :: rounds =>
      Reported events round.revents e ∧
        (round.cond e ≠ 0 → ReportedUntilZero events e rounds)

/-- `poll` does not return at all, or there is an odd descriptor and the first one is
reported in every round that the run comes to. -/
def FirstOddReported
    (event : NodeAddress → HmFdEvent)
    (events : List NodeAddress)
    (rounds : List PollRound) : Prop :=
  rounds = [] ∨
    ∃ e, firstOdd event events = some e ∧ ReportedUntilZero events e rounds

/-- The flag is found in the number of the descriptor. -/
theorem hmFlagSet_pollin (fd : Int) :
    hmFlagSet (toUnsigned 64 fd) pollin = decide (fd % 2 = 1) := by
  have low : toUnsigned 64 fd % 2 = 1 ↔ fd % 2 = 1 := by
    unfold toUnsigned
    omega
  rw [hmFlagSet, pollin, Nat.and_one_is_mod]
  by_cases odd : fd % 2 = 1
  · rw [low.mpr odd, decide_eq_true odd]
    rfl
  · rw [decide_eq_false odd, beq_eq_false_iff_ne]
    exact fun same => odd (low.mp same)

section

variable {m : ListMemory} {event : NodeAddress → HmFdEvent}
variable {events xs ys : List NodeAddress}

theorem fillFds_from
    (chain : Chain m.links m.list.head (xs ++ ys))
    (descriptors : ∀ e ∈ ys, (event e).objType = .fd) :
    fillFds m event ys.length ys.head? =
      some (some (ys.map fun e => (event e).fd)) := by
  induction ys generalizing xs with
  | nil => rfl
  | cons e ys inductionHypothesis =>
      obtain ⟨content, stored, _, next⟩ := links_eq_some chain.linked.links_eq
      rw [List.append_cons] at chain
      have rest := inductionHypothesis chain fun other member =>
        descriptors other (List.mem_cons_of_mem e member)
      have isFd := descriptors e List.mem_cons_self
      simp only [Option.or_none] at next
      simp [fillFds, stored, isFd, next, rest]

/-- The array is filled with the descriptors of the events. -/
theorem fillFds_eq
    (holds : ListHolds m events events)
    (descriptors : ∀ e ∈ events, (event e).objType = .fd) :
    fillFds m event m.list.nItems m.list.head =
      some (some (events.map fun e => (event e).fd)) := by
  have entered := holds.chain.linked.first_eq
  have chain : Chain m.links m.list.head ([] ++ events) := holds.chain
  rw [Option.or_none] at entered
  rw [holds.count, entered]
  exact fillFds_from chain descriptors

/-- The scan of the array calls the condition of the first event with an odd
descriptor. -/
theorem scanFds_from
    (holds : ListHolds m (xs ++ ys) (xs ++ ys))
    (round : PollRound) :
    scanFds m round (ys.map fun e => (event e).fd) xs.length =
      match firstOdd event ys with
      | none => some ([], false)
      | some e => some ([.cond e (round.cond e)], decide (round.cond e ≠ 0)) := by
  induction ys generalizing xs with
  | nil => rfl
  | cons e ys inductionHypothesis =>
      rw [List.map_cons, scanFds, hmFlagSet_pollin, firstOdd, List.find?_cons]
      by_cases odd : (event e).fd % 2 = 1
      · have inside : xs.length < (xs ++ e :: ys).length := by
          rw [List.length_append, List.length_cons]
          omega
        have found := holds.hmListAt_eq inside
        rw [List.getElem?_append_right (Nat.le_refl _), Nat.sub_self] at found
        simp [odd, found]
      · rw [List.append_cons] at holds
        have rest := inductionHypothesis holds
        rw [List.length_append, List.length_singleton] at rest
        simp only [odd, decide_false, Bool.false_eq_true, if_false]
        exact rest

/-- The run is the one on the first event with an odd descriptor, if there is one. -/
theorem pollFds_eq
    (holds : ListHolds m events events)
    (rounds : List PollRound) :
    pollFds m (events.map fun e => (event e).fd) rounds =
      some (match firstOdd event events with
        | none => evenRun rounds
        | some e => oddRun e rounds) := by
  have scans (round : PollRound) := @scanFds_from m event [] events holds round
  induction rounds with
  | nil => cases firstOdd event events <;> rfl
  | cons round rounds inductionHypothesis =>
      have scan := scans round
      rw [List.length_nil] at scan
      rw [pollFds, scan]
      cases first : firstOdd event events with
      | none => rfl
      | some e =>
          rw [first] at inductionHypothesis
          by_cases zero : round.cond e = 0
          · simp [oddRun, zero]
          · simp [oddRun, zero, inductionHypothesis]

theorem hmPollFdList_eq
    (holds : ListHolds m events events)
    (descriptors : ∀ e ∈ events, (event e).objType = .fd)
    (rounds : List PollRound) :
    hmPollFdList m event rounds =
      some (match firstOdd event events with
        | none => evenRun rounds
        | some e => oddRun e rounds) := by
  rw [hmPollFdList, fillFds_eq holds descriptors]
  exact pollFds_eq holds rounds

/-- The run on an event answers what `poll` reports exactly if the event is reported
whenever its condition is called. -/
theorem answersPoll_oddRun
    (e : NodeAddress)
    (rounds : List PollRound)
    (latest : Option (Nat → Nat))
    (ready : Prop) :
    AnswersPoll events latest ready (oddRun e rounds) ↔
      ReportedUntilZero events e rounds := by
  induction rounds generalizing latest ready with
  | nil => exact Iff.rfl
  | cons round rounds inductionHypothesis =>
      by_cases zero : round.cond e = 0
      · simp [oddRun, AnswersPoll, ReportedUntilZero, zero]
      · simp [oddRun, AnswersPoll, ReportedUntilZero, zero, inductionHypothesis]

theorem reventsOf_oddRun
    {e : NodeAddress}
    {rounds : List PollRound}
    (waits : ∀ rc, .ret rc ∉ oddRun e rounds) :
    reventsOf (oddRun e rounds) = rounds.map PollRound.revents := by
  induction rounds with
  | nil => rfl
  | cons round rounds inductionHypothesis =>
      by_cases zero : round.cond e = 0
      · exact absurd (by simp [oddRun, zero]) (waits 0)
      · have rest := inductionHypothesis fun rc member =>
          waits rc (by simp [oddRun, zero, member])
        simpa [oddRun, zero, reventsOf] using rest

theorem pollsReady_some_iff
    {rounds : List PollRound}
    {actions : List PollAction} :
    PollsReady events rounds (some actions) ↔
      AnswersPoll events none False actions ∧
        ((∀ rc, .ret rc ∉ actions) →
          reventsOf actions = rounds.map PollRound.revents) := by
  constructor
  · intro ready
    exact ⟨ready.answers actions rfl, ready.pollsAgain actions rfl⟩
  · rintro ⟨answers, pollsAgain⟩
    refine ⟨⟨actions, rfl⟩, ?_, ?_⟩
    · intro other same
      exact Option.some.inj same ▸ answers
    · intro other same
      exact Option.some.inj same ▸ pollsAgain

end

/-- On a list of events on descriptors the function serves what `poll` reports
exactly if the first odd descriptor is reported in every round it comes to, or `poll`
never returns. -/
theorem hmPollFdList_pollsReady_iff
    {m : ListMemory}
    {event : NodeAddress → HmFdEvent}
    {events : List NodeAddress}
    (holds : ListHolds m events events)
    (descriptors : ∀ e ∈ events, (event e).objType = .fd)
    (rounds : List PollRound) :
    PollsReady events rounds (hmPollFdList m event rounds) ↔
      FirstOddReported event events rounds := by
  rw [hmPollFdList_eq holds descriptors, FirstOddReported, pollsReady_some_iff]
  cases first : firstOdd event events with
  | none =>
      constructor
      · rintro ⟨answers, -⟩
        cases rounds with
        | nil => exact .inl rfl
        | cons round rounds => exact absurd answers.2.1 not_false
      · rintro (rfl | ⟨e, found, -⟩)
        · exact ⟨trivial, fun _ => rfl⟩
        · cases found
  | some e =>
      constructor
      · rintro ⟨answers, -⟩
        exact .inr ⟨e, rfl, (answersPoll_oddRun e rounds none False).mp answers⟩
      · intro served
        have reported : ReportedUntilZero events e rounds := by
          rcases served with rfl | ⟨other, same, reported⟩
          · trivial
          · exact Option.some.inj same ▸ reported
        exact ⟨(answersPoll_oddRun e rounds none False).mpr reported, reventsOf_oddRun⟩

/-- Of the descriptors 4, 3 and 7 the second is served: reported alone, its condition
asks for another round, and reported with the third it returns 0. -/
theorem hmPollFdList_pollsReady_second :
    PollsReady (List.range 3)
      [⟨fun place => if place = 1 then 1 else 0, fun _ => 5⟩,
        ⟨fun place => if place = 0 then 0 else 1, fun _ => 0⟩]
      (hmPollFdList (evenList 3) (fun e => ⟨.fd, [4, 3, 7].getD e 0⟩)
        [⟨fun place => if place = 1 then 1 else 0, fun _ => 5⟩,
          ⟨fun place => if place = 0 then 0 else 1, fun _ => 0⟩]) := by
  apply (hmPollFdList_pollsReady_iff (listHolds_evenList 3) (fun _ _ => rfl) _).mpr
  refine .inr ⟨1, rfl, ⟨1, rfl, rfl⟩, fun _ => ⟨⟨1, rfl, rfl⟩, fun again => ?_⟩⟩
  exact absurd rfl again

/-- A list of one event. -/
def singleEvent : ListMemory where
  list := { hmListInit with head := some 0, nItems := 1 }
  nodes node :=
    if node = 0 then some { hmReflistNodeInit with magic := hmListNodeMagic } else none

/-- Descriptor 4 is not: the function returns although the condition has not been
called. -/
theorem not_pollsReady_four :
    ¬PollsReady [0] [⟨fun _ => 1, fun _ => 1⟩]
      (hmPollFdList singleEvent (fun _ => ⟨.fd, 4⟩) [⟨fun _ => 1, fun _ => 1⟩]) := by
  intro ready
  have answers := ready.answers [.poll fun _ => 1, .ret 0] rfl
  exact answers.2.1

end Hiemal
