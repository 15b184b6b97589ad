/-!
# Loops that may not end

The body of a loop either continues with a new state or stops with a result. A
loop ends with a result if some number of iterations stops with it; iterating the
body is proved to end or not to end through the rules below.
-/

namespace Hiemal
namespace Foundation

universe u v

/-- What one iteration of a loop does. -/
inductive LoopStep (State : Type u) (Result : Type v)
  | goOn (state : State)
  | stop (result : Result)

variable {State : Type u} {Result : Type v}

/-- Iterate the body, at most `fuel` times. -/
def runLoop (body : State → LoopStep State Result) :
    (fuel : Nat) → State → Option Result
  | 0, _ => none
  | fuel + 1, state =>
      match body state with
      | .goOn next => runLoop body fuel next
      | .stop result => some result

/-- The loop ends with a result. -/
def LoopEnds
    (body : State → LoopStep State Result)
    (state : State)
    (result : Result) : Prop :=
  ∃ fuel, runLoop body fuel state = some result

section

variable {body : State → LoopStep State Result}
variable {state next : State} {result other : Result}

/-- A loop that stops at once ends with what it stops with. -/
theorem loopEnds_iff_of_stop (stops : body state = .stop result) :
    LoopEnds body state other ↔ other = result := by
  constructor
  · rintro ⟨fuel, ran⟩
    cases fuel with
    | zero => cases ran
    | succ fuel =>
        rw [runLoop, stops] at ran
        cases ran
        rfl
  · rintro rfl
    exact ⟨1, by rw [runLoop, stops]⟩

/-- A loop that goes on ends as it does from there. -/
theorem loopEnds_iff_of_goOn (goes : body state = .goOn next) :
    LoopEnds body state result ↔ LoopEnds body next result := by
  constructor
  · rintro ⟨fuel, ran⟩
    cases fuel with
    | zero => cases ran
    | succ fuel =>
        rw [runLoop, goes] at ran
        exact ⟨fuel, ran⟩
  · rintro ⟨fuel, ran⟩
    exact ⟨fuel + 1, by rw [runLoop, goes]; exact ran⟩

/-- Induction on a loop that ends. -/
theorem LoopEnds.induction
    {motive : State → Prop}
    (ends : LoopEnds body state result)
    (stop : ∀ state, body state = .stop result → motive state)
    (goOn : ∀ state next, body state = .goOn next →
      LoopEnds body next result → motive next → motive state) :
    motive state := by
  obtain ⟨fuel, ran⟩ := ends
  induction fuel generalizing state with
  | zero => cases ran
  | succ fuel inductionHypothesis =>
      rw [runLoop] at ran
      split at ran
      · rename_i next goes
        exact goOn state next goes ⟨fuel, ran⟩ (inductionHypothesis ran)
      · rename_i last stops
        cases ran
        exact stop state stops

/-- A loop that goes on from every state of an invariant to another one does not
end. -/
theorem not_loopEnds_of_invariant
    (invariant : State → Prop)
    (goesOn : ∀ state, invariant state →
      ∃ next, body state = .goOn next ∧ invariant next)
    (start : invariant state) :
    ¬LoopEnds body state result := by
  intro ends
  apply ends.induction (motive := fun state => ¬invariant state) _ _ start
  · intro state stops holds
    obtain ⟨next, goes, _⟩ := goesOn state holds
    rw [stops] at goes
    cases goes
  · intro state next goes _ inductionHypothesis holds
    obtain ⟨other, goesOther, otherHolds⟩ := goesOn state holds
    rw [goes] at goesOther
    cases goesOther
    exact inductionHypothesis otherHolds

/-- A loop ends if what it goes on with from the states of an invariant is smaller
every time. -/
theorem loopEnds_of_measure
    (invariant : State → Prop)
    {good : Result → Prop}
    (measure : State → Nat)
    (steps : ∀ state, invariant state →
      (∃ result, body state = .stop result ∧ good result) ∨
        ∃ next, body state = .goOn next ∧ invariant next ∧
          measure next < measure state)
    (start : invariant state) :
    ∃ result, LoopEnds body state result ∧ good result := by
  induction size : measure state using Nat.strongRecOn generalizing state with
  | ind size inductionHypothesis =>
      rcases steps state start with
        ⟨result, stops, fine⟩ | ⟨next, goes, nextStart, smaller⟩
      · exact ⟨result, (loopEnds_iff_of_stop stops).mpr rfl, fine⟩
      · obtain ⟨result, ends, fine⟩ :=
          inductionHypothesis (measure next) (by omega) nextStart rfl
        exact ⟨result, (loopEnds_iff_of_goOn goes).mpr ends, fine⟩

end

end Foundation
end Hiemal
