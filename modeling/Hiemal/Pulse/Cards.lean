import Hiemal.Pulse.Devices

/-!
# Two enumerations of the cards

`hm_pulse_connection_init` asks the server for its cards twice: once to count them
and once to fill the array that was allocated for as many as were counted. Cards
come and go in between. The array is filled exactly if the server has as many cards
when it answers the second time as it had when it answered the first.
-/

namespace Hiemal

open Foundation

/-- The cards of the server's answers, in order. -/
def answeredCards :
    (cards : List PaCardInfo) → List PulseInitEvent → List (List PaCardInfo)
  | _, [] => []
  | cards, .add card :: events => answeredCards (cards ++ [card]) events
  | cards, .remove position :: events =>
      answeredCards (cards.eraseIdx position) events
  | cards, .answer :: events => cards :: answeredCards cards events
  | cards, .callback :: events => answeredCards cards events

/-- All answers have the same number of cards. -/
def SameCount (answers : List (List PaCardInfo)) : Prop :=
  answers.Pairwise fun first second => first.length = second.length

instance decidableSameCount (answers : List (List PaCardInfo)) :
    Decidable (SameCount answers) :=
  inferInstanceAs (Decidable (List.Pairwise _ _))

/-- Every store has been inside the array, and once it is to be used all of its
cells are initialised. -/
def CardsSafe (state : PulseInit) (stores : List Access) : Prop :=
  (∀ range ∈ stores, range.InBounds) ∧
    ∀ devices, state.client = .done devices →
      ∀ device ∈ devices, device.isSome

/-- `hm_pulse_connection_init` at its first enumeration. -/
def pulseInitStart (cards : List PaCardInfo) : PulseInit where
  cards := cards
  client := .counting none 0

/-! ## The array while it is filled -/

/-- The first `devI` cells of an array of `size` devices have been stored to, as far
as there are that many, and cells behind it if there are not. -/
structure FilledTo
    (size : Nat)
    (devices : List (Option HmPulseDevice))
    (devI : Nat)
    (stores : List Access) : Prop where
  length_eq : devices.length = size
  filled : ∀ i, i < size → ((devices[i]?.join).isSome ↔ i < devI)
  stores_eq :
    stores =
      (List.range devI).map fun i =>
        { blockSize := size, start := i, length := 1 }

theorem filledTo_zero (size : Nat) :
    FilledTo size (List.replicate size none) 0 [] where
  length_eq := List.length_replicate
  filled := by
    intro i inside
    rw [List.getElem?_replicate, if_pos inside]
    simp
  stores_eq := rfl

section Filled

variable {size devI : Nat} {devices : List (Option HmPulseDevice)}
variable {stores : List Access}

/-- One more device is stored, inside of the array or behind it. -/
theorem FilledTo.store
    (filledTo : FilledTo size devices devI stores)
    (device : HmPulseDevice) :
    FilledTo size (Foundation.store devices devI [some device]) (devI + 1)
      (stores ++
        [{ blockSize := devices.length, start := devI, length := 1 }]) where
  length_eq := by rw [length_store, filledTo.length_eq]
  filled := by
    intro i inside
    by_cases within : devI < size
    · rw [getElem?_store (by
        rw [filledTo.length_eq, List.length_singleton]
        exact within)]
      split_ifs with here
      · obtain rfl : i = devI := by
          rw [List.length_singleton] at here
          omega
        simp
      · rw [filledTo.filled i inside]
        rw [List.length_singleton] at here
        omega
    · rw [store_of_length_le (by rw [filledTo.length_eq]; omega),
        filledTo.filled i inside]
      omega
  stores_eq := by
    rw [filledTo.stores_eq, filledTo.length_eq, List.range_succ, List.map_append,
      List.map_singleton]

/-- The stores are inside of the array exactly if there are no more than it has
cells. -/
theorem FilledTo.inBounds_iff (filledTo : FilledTo size devices devI stores) :
    (∀ range ∈ stores, range.InBounds) ↔ devI ≤ size := by
  rw [filledTo.stores_eq]
  simp only [List.forall_mem_map, List.mem_range, Access.InBounds]
  constructor
  · intro inBounds
    by_contra beyond
    exact absurd (inBounds size (Nat.lt_of_not_le beyond)) (Nat.not_succ_le_self _)
  · intro enough i inside
    omega

/-- All cells are initialised exactly if there are at least as many stores. -/
theorem FilledTo.forall_isSome_iff
    (filledTo : FilledTo size devices devI stores) :
    (∀ device ∈ devices, device.isSome) ↔ size ≤ devI := by
  have cell (i : Nat) (inside : i < devices.length) :
      devices[i].isSome ↔ i < devI := by
    have stored := filledTo.filled i (filledTo.length_eq ▸ inside)
    rwa [List.getElem?_eq_getElem inside, Option.join_some] at stored
  rw [List.forall_mem_iff_getElem]
  constructor
  · intro filled
    by_contra short
    have inside : devI < devices.length := by
      rw [filledTo.length_eq]
      omega
    exact absurd ((cell devI inside).mp (filled devI inside))
      (Nat.lt_irrefl devI)
  · intro enough i inside
    apply (cell i inside).mpr
    rw [filledTo.length_eq] at inside
    omega

end Filled

/-! ## Runs -/

/-- What the answers so far and the stores so far have to do with where the client
is. -/
def CountedAndFilled
    (answers : List (List PaCardInfo))
    (stores : List Access) : CardEnumeration → Prop
  | .counting none i => answers = [] ∧ stores = [] ∧ i = 0
  | .counting (some left) i =>
      ∃ first, answers = [first] ∧ stores = [] ∧ i + left.length = first.length
  | .filling none devices devI =>
      ∃ first, answers = [first] ∧ FilledTo first.length devices devI stores ∧
        devI = 0
  | .filling (some left) devices devI =>
      ∃ first second, answers = [first, second] ∧
        FilledTo first.length devices devI stores ∧
          devI + left.length = second.length
  | .done devices =>
      ∃ first second, answers = [first, second] ∧
        FilledTo first.length devices second.length stores

section Runs

variable {answers : List (List PaCardInfo)} {stores touched : List Access}
variable {state next final : PulseInit}

/-- An answer is one more, and begins to be handled. -/
theorem CountedAndFilled.answer
    {client nextClient : CardEnumeration}
    (counted : CountedAndFilled answers stores client)
    {cards : List PaCardInfo}
    (answered : answerCards cards client = some nextClient) :
    CountedAndFilled (answers ++ [cards]) stores nextClient := by
  cases client with
  | counting answer i =>
      cases answer with
      | none =>
          cases answered
          obtain ⟨rfl, rfl, rfl⟩ := counted
          exact ⟨cards, rfl, rfl, Nat.zero_add _⟩
      | some left => cases answered
  | filling answer devices devI =>
      cases answer with
      | none =>
          cases answered
          obtain ⟨first, rfl, filledTo, rfl⟩ := counted
          exact ⟨first, cards, rfl, filledTo, Nat.zero_add _⟩
      | some left => cases answered
  | done devices => cases answered

/-- Handling a part of an answer counts a card or stores a device. -/
theorem CountedAndFilled.handle
    {client nextClient : CardEnumeration}
    (counted : CountedAndFilled answers stores client)
    (handled : handleCard client = some (nextClient, touched)) :
    CountedAndFilled answers (stores ++ touched) nextClient := by
  cases client with
  | counting answer i =>
      rcases answer with - | - | ⟨card, left⟩
      · cases handled
      · cases handled
        obtain ⟨first, rfl, rfl, length⟩ := counted
        rw [List.length_nil, Nat.add_zero] at length
        subst length
        exact ⟨first, rfl, filledTo_zero _, rfl⟩
      · cases handled
        obtain ⟨first, rfl, rfl, length⟩ := counted
        refine ⟨first, rfl, rfl, ?_⟩
        rw [List.length_cons] at length
        omega
  | filling answer devices devI =>
      rcases answer with - | - | ⟨card, left⟩
      · cases handled
      · cases handled
        obtain ⟨first, second, rfl, filledTo, length⟩ := counted
        rw [List.length_nil, Nat.add_zero] at length
        subst length
        rw [List.append_nil]
        exact ⟨first, second, rfl, filledTo⟩
      · cases handled
        obtain ⟨first, second, rfl, filledTo, length⟩ := counted
        refine ⟨first, second, rfl, filledTo.store (hmPulseDeviceOf card), ?_⟩
        rw [List.length_cons] at length
        omega
  | done devices => cases handled

/-- Step lemma: an event keeps answers and stores in step with the client. -/
theorem CountedAndFilled.step
    (counted : CountedAndFilled answers stores state.client)
    {event : PulseInitEvent}
    (stepped : pulseInitStep state event = some (next, touched)) :
    ∃ further,
      CountedAndFilled (answers ++ further) (stores ++ touched) next.client ∧
        ∀ events,
          answeredCards state.cards (event :: events) =
            further ++ answeredCards next.cards events := by
  cases event with
  | add card =>
      cases stepped
      exact ⟨[], by simpa using counted, fun events => rfl⟩
  | remove position =>
      cases stepped
      exact ⟨[], by simpa using counted, fun events => rfl⟩
  | answer =>
      obtain ⟨client, answered, equal⟩ := Option.map_eq_some_iff.mp stepped
      cases equal
      exact ⟨[state.cards], by simpa using counted.answer answered,
        fun events => rfl⟩
  | callback =>
      obtain ⟨⟨client, ranges⟩, handled, equal⟩ :=
        Option.map_eq_some_iff.mp stepped
      cases equal
      exact ⟨[], by simpa using counted.handle handled, fun events => rfl⟩

/-- Run lemma: so does a run. -/
theorem CountedAndFilled.run
    {events : List PulseInitEvent}
    {outputs : List (List Access)}
    (counted : CountedAndFilled answers stores state.client)
    (ran : runSteps pulseInitStep state events = some (final, outputs)) :
    CountedAndFilled (answers ++ answeredCards state.cards events)
      (stores ++ outputs.flatten) final.client := by
  induction events generalizing state answers stores outputs with
  | nil =>
      cases ran
      simpa [answeredCards] using counted
  | cons event events inductionHypothesis =>
      obtain ⟨next, touched, rest, stepped, restRan, rfl⟩ :=
        runSteps_cons_eq_some.mp ran
      obtain ⟨further, nextCounted, answered⟩ := counted.step stepped
      have last := inductionHypothesis nextCounted restRan
      rw [answered, List.flatten_cons, ← List.append_assoc,
        ← List.append_assoc]
      exact last

theorem sameCount_pair_iff (first second : List PaCardInfo) :
    SameCount [first, second] ↔ first.length = second.length := by
  simp [SameCount]

/-- Before the array is to be used, it only matters where has been stored. -/
theorem cardsSafe_of_not_done
    (inBounds : ∀ range ∈ stores, range.InBounds)
    (notDone : ∀ devices, state.client ≠ .done devices) :
    CardsSafe state stores :=
  ⟨inBounds, fun devices done => absurd done (notDone devices)⟩

/-- Answers of one length are handled safely. -/
theorem CountedAndFilled.safe
    (counted : CountedAndFilled answers stores state.client)
    (same : SameCount answers) :
    CardsSafe state stores := by
  generalize here : state.client = client at counted
  cases client with
  | counting answer i =>
      apply cardsSafe_of_not_done
      · obtain rfl : stores = [] := by
          rcases answer with - | left
          · exact counted.2.1
          · obtain ⟨first, _, none, _⟩ := counted
            exact none
        simp
      · simp [here]
  | filling answer devices devI =>
      apply cardsSafe_of_not_done
      · rcases answer with - | left
        · obtain ⟨first, _, filledTo, rfl⟩ := counted
          exact filledTo.inBounds_iff.mpr (Nat.zero_le _)
        · obtain ⟨first, second, rfl, filledTo, length⟩ := counted
          apply filledTo.inBounds_iff.mpr
          rw [sameCount_pair_iff] at same
          omega
      · simp [here]
  | done devices =>
      obtain ⟨first, second, rfl, filledTo⟩ := counted
      rw [sameCount_pair_iff] at same
      refine ⟨filledTo.inBounds_iff.mpr same.ge, ?_⟩
      intro used done
      rw [here] at done
      cases done
      exact filledTo.forall_isSome_iff.mpr same.le

/-- What is safe when the array is to be used had answers of one length. -/
theorem CountedAndFilled.sameCount
    {devices : List (Option HmPulseDevice)}
    (counted : CountedAndFilled answers stores state.client)
    (done : state.client = .done devices)
    (safe : CardsSafe state stores) :
    SameCount answers := by
  rw [done] at counted
  obtain ⟨first, second, rfl, filledTo⟩ := counted
  rw [sameCount_pair_iff]
  exact Nat.le_antisymm (filledTo.forall_isSome_iff.mp (safe.2 devices done))
    (filledTo.inBounds_iff.mp safe.1)

/-- In every state reached, whatever happens on the server, the callback has stored
only inside of the array, and the array is initialised when it is used, if the
server has as many cards at its second answer as at its first; and for a connection
that is set up, only then. -/
theorem cardsSafe_iff_sameCount
    {cards : List PaCardInfo}
    {events : List PulseInitEvent}
    {outputs : List (List Access)}
    (ran :
      runSteps pulseInitStep (pulseInitStart cards) events =
        some (final, outputs)) :
    (SameCount (answeredCards cards events) →
        CardsSafe final outputs.flatten) ∧
      ∀ devices, final.client = .done devices →
        CardsSafe final outputs.flatten →
          SameCount (answeredCards cards events) := by
  have start :
      CountedAndFilled [] [] (pulseInitStart cards).client :=
    ⟨rfl, rfl, rfl⟩
  have counted := start.run ran
  exact ⟨counted.safe, fun devices => counted.sameCount⟩

/-- One card is replaced by another between the two answers. -/
theorem cardsSafe_iff_sameCount_replaced :
    ∃ final outputs devices,
      runSteps pulseInitStep (pulseInitStart [{ name := ['a'], index := 0 }])
          [.answer, .callback, .callback, .remove 0,
            .add { name := ['b'], index := 1 }, .answer, .callback,
            .callback] =
        some (final, outputs) ∧
      CardsSafe final outputs.flatten ∧
        final.client = .done devices ∧
          SameCount
            (answeredCards [{ name := ['a'], index := 0 }]
              [.answer, .callback, .callback, .remove 0,
                .add { name := ['b'], index := 1 }, .answer, .callback,
                .callback]) := by
  have ran : runSteps pulseInitStep (pulseInitStart [{ name := ['a'], index := 0 }])
      [.answer, .callback, .callback, .remove 0,
        .add { name := ['b'], index := 1 }, .answer, .callback, .callback] =
    some (_, _) := rfl
  obtain ⟨safe, sameCount⟩ := cardsSafe_iff_sameCount ran
  have allSafe := safe (by decide)
  exact ⟨_, _, _, ran, allSafe, rfl, sameCount _ rfl allSafe⟩

/-- A card plugged in between the two answers is stored behind the array, and one
that is unplugged leaves its cell as it was allocated. -/
theorem not_cardsSafe_plugged :
    (∃ final outputs,
      runSteps pulseInitStep (pulseInitStart [])
          [.answer, .callback, .add { name := ['a'], index := 0 }, .answer,
            .callback, .callback] =
        some (final, outputs) ∧
      ¬CardsSafe final outputs.flatten) ∧
    ∃ final outputs,
      runSteps pulseInitStep (pulseInitStart [{ name := ['a'], index := 0 }])
          [.answer, .callback, .callback, .remove 0, .answer, .callback] =
        some (final, outputs) ∧
      ¬CardsSafe final outputs.flatten := by
  constructor
  · refine ⟨_, _, rfl, ?_⟩
    rintro ⟨inBounds, _⟩
    exact absurd inBounds (by decide)
  · refine ⟨_, _, rfl, ?_⟩
    rintro ⟨_, filled⟩
    exact absurd (filled [none] rfl none (List.mem_singleton_self _))
      (by decide)

end Runs

end Hiemal
