import Mathlib.Data.List.Basic
import Mathlib.Data.List.Forall2

/-!
# Runs of output-producing transition functions

A partial step function consumes one input, may fail to return, and otherwise
yields a new state and an output. This module runs such a function over a list
of inputs, runs a total step function in the same way, and transports facts
about one step to facts about whole runs: a forward simulation between the two
kinds of step function, and rules for runs in which every output is good.
-/

namespace Hiemal
namespace Foundation

universe u v w x y

variable {State : Type u} {Input : Type v} {Output : Type w}
variable {Abstract : Type x} {AbstractOutput : Type y}

/-- Run a partial step function over a list of inputs, collecting the outputs.
The run is `none` as soon as one step is. -/
def runSteps
    (step : State → Input → Option (State × Output)) :
    State → List Input → Option (State × List Output)
  | state, [] => some (state, [])
  | state, input :: inputs => do
      let (next, output) ← step state input
      let (final, outputs) ← runSteps step next inputs
      some (final, output :: outputs)

/-- Run a total step function over a list of inputs, collecting the outputs. -/
def runTotal
    (step : Abstract → Input → Abstract × AbstractOutput) :
    Abstract → List Input → Abstract × List AbstractOutput
  | state, [] => (state, [])
  | state, input :: inputs =>
      let (next, output) := step state input
      let (final, outputs) := runTotal step next inputs
      (final, output :: outputs)

/-- A nonempty run returns exactly when its first step and the rest of the run
return. -/
theorem runSteps_cons_eq_some
    {step : State → Input → Option (State × Output)}
    {state final : State}
    {input : Input}
    {inputs : List Input}
    {outputs : List Output} :
    runSteps step state (input :: inputs) = some (final, outputs) ↔
      ∃ next output rest,
        step state input = some (next, output) ∧
          runSteps step next inputs = some (final, rest) ∧
            outputs = output :: rest := by
  simp only [runSteps, Option.bind_eq_bind, Option.bind_eq_some_iff,
    Option.some.injEq, Prod.mk.injEq, Prod.exists]
  constructor
  · rintro ⟨next, output, stepped, last, rest, ran, rfl, rfl⟩
    exact ⟨next, output, rest, stepped, ran, rfl⟩
  · rintro ⟨next, output, rest, stepped, ran, rfl⟩
    exact ⟨next, output, stepped, final, rest, ran, rfl, rfl⟩

/-- A run whose first step returns has the given outputs exactly if the step has the
first of them and the rest of the run has the others. -/
theorem exists_runSteps_cons_iff
    {step : State → Input → Option (State × Output)}
    {state next : State}
    {input : Input}
    {first : Output}
    (stepped : step state input = some (next, first))
    (inputs : List Input)
    (output : Output)
    (outputs : List Output) :
    (∃ final,
      runSteps step state (input :: inputs) =
        some (final, output :: outputs)) ↔
      first = output ∧
        ∃ final, runSteps step next inputs = some (final, outputs) := by
  constructor
  · rintro ⟨final, ran⟩
    obtain ⟨_, _, rest, steppedHere, restRan, split⟩ :=
      runSteps_cons_eq_some.mp ran
    rw [stepped] at steppedHere
    cases steppedHere
    cases split
    exact ⟨rfl, final, restRan⟩
  · rintro ⟨rfl, final, restRan⟩
    exact ⟨final, runSteps_cons_eq_some.mpr
      ⟨next, first, outputs, stepped, restRan, rfl⟩⟩

/-- A run may be continued by another. -/
theorem runSteps_append
    {step : State → Input → Option (State × Output)}
    {state between final : State}
    {before after : List Input}
    {first second : List Output}
    (ran : runSteps step state before = some (between, first))
    (continued : runSteps step between after = some (final, second)) :
    runSteps step state (before ++ after) = some (final, first ++ second) := by
  induction before generalizing state first with
  | nil =>
      cases ran
      exact continued
  | cons input before inductionHypothesis =>
      obtain ⟨next, head, rest, stepped, restRan, rfl⟩ :=
        runSteps_cons_eq_some.mp ran
      exact runSteps_cons_eq_some.mpr
        ⟨next, head, rest ++ second, stepped, inductionHypothesis restRan, rfl⟩

/-- A run may be extended by one more step. -/
theorem runSteps_concat
    {step : State → Input → Option (State × Output)}
    {state between final : State}
    {inputs : List Input}
    {outputs : List Output}
    {input : Input}
    {output : Output}
    (ran : runSteps step state inputs = some (between, outputs))
    (stepped : step between input = some (final, output)) :
    runSteps step state (inputs ++ [input]) =
      some (final, outputs ++ [output]) :=
  runSteps_append ran
    (runSteps_cons_eq_some.mpr ⟨final, output, [], stepped, rfl, rfl⟩)

/-- A run puts out its first outputs on its first inputs, and the others after. -/
theorem runSteps_split
    {step : State → Input → Option (State × Output)}
    {state final : State}
    {inputs : List Input}
    {first second : List Output}
    (ran : runSteps step state inputs = some (final, first ++ second)) :
    ∃ before after between, inputs = before ++ after ∧
      runSteps step state before = some (between, first) ∧
        runSteps step between after = some (final, second) := by
  induction first generalizing state inputs with
  | nil => exact ⟨[], inputs, state, rfl, rfl, ran⟩
  | cons output first inductionHypothesis =>
      cases inputs with
      | nil => cases ran
      | cons input inputs =>
          obtain ⟨next, head, rest, stepped, restRan, split⟩ :=
            runSteps_cons_eq_some.mp ran
          rw [List.cons_append, List.cons.injEq] at split
          obtain ⟨rfl, rfl⟩ := split
          obtain ⟨before, after, between, rfl, beforeRan, afterRan⟩ :=
            inductionHypothesis restRan
          exact ⟨input :: before, after, between, rfl,
            runSteps_cons_eq_some.mpr
              ⟨next, output, first, stepped, beforeRan, rfl⟩,
            afterRan⟩

/-- A map of states and outputs that every step goes along with takes runs to
runs. -/
theorem runSteps_hom
    {Image : Type x}
    {ImageOutput : Type y}
    {step : State → Input → Option (State × Output)}
    {imageStep : Image → Input → Option (Image × ImageOutput)}
    {image : State → Image}
    {imageOutput : Output → ImageOutput}
    (steps : ∀ state input,
      imageStep (image state) input =
        (step state input).map (Prod.map image imageOutput))
    (state : State)
    (inputs : List Input) :
    runSteps imageStep (image state) inputs =
      (runSteps step state inputs).map (Prod.map image (List.map imageOutput)) := by
  induction inputs generalizing state with
  | nil => rfl
  | cons input inputs inductionHypothesis =>
      rw [runSteps, runSteps, steps]
      cases stepped : step state input with
      | none => rfl
      | some ran =>
          obtain ⟨next, output⟩ := ran
          simp only [Option.map_some, Option.bind_eq_bind, Option.bind_some,
            Prod.map_apply, inductionHypothesis]
          cases runSteps step next inputs with
          | none => rfl
          | some rest => rfl

/-- Related computations continue to related ones. -/
theorem rel_bind
    {α α' β β' : Type*}
    {related : α → α' → Prop}
    {relatedAfter : β → β' → Prop}
    {first : Option α}
    {firstOther : Option α'}
    {rest : α → Option β}
    {restOther : α' → Option β'}
    (firsts : Option.Rel related first firstOther)
    (rests : ∀ value other, related value other →
      Option.Rel relatedAfter (rest value) (restOther other)) :
    Option.Rel relatedAfter (first.bind rest) (firstOther.bind restOther) := by
  cases firsts with
  | none => exact .none
  | some both => exact rests _ _ both

/-- Functions of related values are related where they are pointwise. -/
theorem rel_map
    {α α' β β' : Type*}
    {related : α → α' → Prop}
    {relatedAfter : β → β' → Prop}
    {first : Option α}
    {firstOther : Option α'}
    {convert : α → β}
    {convertOther : α' → β'}
    (firsts : Option.Rel related first firstOther)
    (converts : ∀ value other, related value other →
      relatedAfter (convert value) (convertOther other)) :
    Option.Rel relatedAfter (first.map convert) (firstOther.map convertOther) := by
  cases firsts with
  | none => exact .none
  | some both => exact .some (converts _ _ both)

/-- A run that returns does so on its first inputs. -/
theorem isSome_runSteps_of_append
    {step : State → Input → Option (State × Output)}
    {state : State}
    {first second : List Input}
    (ran : (runSteps step state (first ++ second)).isSome) :
    (runSteps step state first).isSome := by
  induction first generalizing state with
  | nil => rfl
  | cons input inputs inductionHypothesis =>
      obtain ⟨⟨final, outputs⟩, returned⟩ := Option.isSome_iff_exists.mp ran
      obtain ⟨next, output, rest, stepped, restRan, rfl⟩ :=
        runSteps_cons_eq_some.mp returned
      obtain ⟨⟨last, firsts⟩, firstRan⟩ :=
        Option.isSome_iff_exists.mp
          (inductionHypothesis (Option.isSome_of_eq_some restRan))
      exact Option.isSome_of_eq_some
        (runSteps_cons_eq_some.mpr
          ⟨next, output, firsts, stepped, firstRan, rfl⟩)

/-- Every state reached in the run meets a condition before its next input. -/
def AlongRun
    (step : State → Input → Option (State × Output))
    (condition : State → Input → Prop) :
    State → List Input → Prop
  | _, [] => True
  | state, input :: inputs =>
      condition state input ∧
        ∀ next output, step state input = some (next, output) →
          AlongRun step condition next inputs

/-- A run whose first step blocks meets the condition if its first input does. -/
theorem alongRun_cons_none
    {step : State → Input → Option (State × Output)}
    {condition : State → Input → Prop}
    {state : State}
    {input : Input}
    {inputs : List Input}
    (blocked : step state input = none) :
    condition state input ↔ AlongRun step condition state (input :: inputs) := by
  simp [AlongRun, blocked]

/-- A run whose first step returns meets the condition if its first input and the
rest of the run do. -/
theorem alongRun_cons_some
    {step : State → Input → Option (State × Output)}
    {condition : State → Input → Prop}
    {state next : State}
    {output : Output}
    {input : Input}
    {inputs : List Input}
    (stepped : step state input = some (next, output)) :
    condition state input ∧ AlongRun step condition next inputs ↔
      AlongRun step condition state (input :: inputs) := by
  simp [AlongRun, stepped]

/-- A decidable condition is decidable along a run. -/
instance decidableAlongRun
    (step : State → Input → Option (State × Output))
    (condition : State → Input → Prop)
    [∀ state input, Decidable (condition state input)]
    (state : State) :
    (inputs : List Input) → Decidable (AlongRun step condition state inputs)
  | [] => isTrue trivial
  | input :: inputs =>
      match stepped : step state input with
      | none => decidable_of_iff _ (alongRun_cons_none stepped)
      | some (next, _) =>
          haveI := decidableAlongRun step condition next inputs
          decidable_of_iff _ (alongRun_cons_some stepped)

/-- Forward simulation: if related states stay related under every input the
state admits, the partial step returns there and the two outputs of the step
match, then a run all of whose inputs are admitted returns and matches the total
run output by output. -/
theorem runSteps_simulates_along
    {step : State → Input → Option (State × Output)}
    {abstractStep : Abstract → Input → Abstract × AbstractOutput}
    {related : State → Abstract → Prop}
    {admissible : State → Input → Prop}
    {matching : Output → AbstractOutput → Prop}
    (simulates : ∀ state abstract input,
      related state abstract → admissible state input →
        ∃ next output, step state input = some (next, output) ∧
          related next (abstractStep abstract input).1 ∧
          matching output (abstractStep abstract input).2)
    (inputs : List Input)
    (state : State)
    (abstract : Abstract)
    (start : related state abstract)
    (along : AlongRun step admissible state inputs) :
    ∃ final outputs, runSteps step state inputs = some (final, outputs) ∧
      related final (runTotal abstractStep abstract inputs).1 ∧
      List.Forall₂ matching outputs
        (runTotal abstractStep abstract inputs).2 := by
  induction inputs generalizing state abstract with
  | nil => exact ⟨state, [], rfl, start, List.Forall₂.nil⟩
  | cons input inputs inductionHypothesis =>
      obtain ⟨admitted, rest⟩ := along
      obtain ⟨next, output, stepped, nextRelated, outputMatches⟩ :=
        simulates state abstract input start admitted
      obtain ⟨final, outputs, ran, finalRelated, outputsMatch⟩ :=
        inductionHypothesis next (abstractStep abstract input).1 nextRelated
          (rest next output stepped)
      exact ⟨final, output :: outputs,
        runSteps_cons_eq_some.mpr ⟨next, output, outputs, stepped, ran, rfl⟩,
        finalRelated, List.Forall₂.cons outputMatches outputsMatch⟩

/-- Two conditions along a run. -/
theorem AlongRun.and
    {step : State → Input → Option (State × Output)}
    {first second : State → Input → Prop}
    {inputs : List Input}
    {state : State}
    (alongFirst : AlongRun step first state inputs)
    (alongSecond : AlongRun step second state inputs) :
    AlongRun step (fun state input => first state input ∧ second state input)
      state inputs := by
  induction inputs generalizing state with
  | nil => trivial
  | cons input inputs inductionHypothesis =>
      refine ⟨⟨alongFirst.1, alongSecond.1⟩, ?_⟩
      intro next output stepped
      exact inductionHypothesis (alongFirst.2 next output stepped)
        (alongSecond.2 next output stepped)

/-- A family of conditions is met along a run if each of them is. -/
theorem alongRun_forall_iff
    {Index : Type y}
    {step : State → Input → Option (State × Output)}
    {condition : Index → State → Input → Prop}
    {inputs : List Input}
    {state : State} :
    (∀ index, AlongRun step (condition index) state inputs) ↔
      AlongRun step (fun state input => ∀ index, condition index state input)
        state inputs := by
  induction inputs generalizing state with
  | nil => simp [AlongRun]
  | cons input inputs inductionHypothesis =>
      constructor
      · intro along
        refine ⟨fun index => (along index).1, fun next output stepped => ?_⟩
        exact inductionHypothesis.mp fun index =>
          (along index).2 next output stepped
      · intro along index
        refine ⟨along.1 index, fun next output stepped => ?_⟩
        exact inductionHypothesis.mpr (along.2 next output stepped) index

/-- A condition on the inputs alone is met along the run when all inputs meet
it. -/
theorem alongRun_of_forall
    {step : State → Input → Option (State × Output)}
    {admissible : Input → Prop}
    {inputs : List Input}
    (allAdmissible : ∀ input ∈ inputs, admissible input)
    (state : State) :
    AlongRun step (fun _ => admissible) state inputs := by
  induction inputs generalizing state with
  | nil => trivial
  | cons input inputs inductionHypothesis =>
      rw [List.forall_mem_cons] at allAdmissible
      exact ⟨allAdmissible.1,
        fun next _ _ => inductionHypothesis allAdmissible.2 next⟩

/-- What a step that returns from an admitted state requires of its input, a run
that returns requires of all its inputs. -/
theorem AlongRun.forall_of_returns
    {step : State → Input → Option (State × Output)}
    {admissible : State → Input → Prop}
    {required : Input → Prop}
    (requires : ∀ state input, admissible state input →
      (step state input).isSome → required input)
    {inputs : List Input}
    {state : State}
    (along : AlongRun step admissible state inputs)
    (returns : (runSteps step state inputs).isSome) :
    ∀ input ∈ inputs, required input := by
  induction inputs generalizing state with
  | nil => simp
  | cons input inputs inductionHypothesis =>
      obtain ⟨⟨final, outputs⟩, ran⟩ := Option.isSome_iff_exists.mp returns
      obtain ⟨next, output, rest, stepped, restRan, _⟩ :=
        runSteps_cons_eq_some.mp ran
      rw [List.forall_mem_cons]
      exact ⟨requires state input along.1 (Option.isSome_of_eq_some stepped),
        inductionHypothesis (along.2 next output stepped)
          (Option.isSome_of_eq_some restRan)⟩

/-- Forward simulation under a condition on the inputs alone. -/
theorem runSteps_simulates
    {step : State → Input → Option (State × Output)}
    {abstractStep : Abstract → Input → Abstract × AbstractOutput}
    {related : State → Abstract → Prop}
    {admissible : Input → Prop}
    {matching : Output → AbstractOutput → Prop}
    (simulates : ∀ state abstract input,
      related state abstract → admissible input →
        ∃ next output, step state input = some (next, output) ∧
          related next (abstractStep abstract input).1 ∧
          matching output (abstractStep abstract input).2)
    (inputs : List Input)
    (state : State)
    (abstract : Abstract)
    (start : related state abstract)
    (allAdmissible : ∀ input ∈ inputs, admissible input) :
    ∃ final outputs, runSteps step state inputs = some (final, outputs) ∧
      related final (runTotal abstractStep abstract inputs).1 ∧
      List.Forall₂ matching outputs
        (runTotal abstractStep abstract inputs).2 :=
  runSteps_simulates_along simulates inputs state abstract start
    (alongRun_of_forall allAdmissible state)

/-- What holds of the output of every step that returns holds of every output of
a run that returns. -/
theorem runSteps_forall_output
    {step : State → Input → Option (State × Output)}
    {property : Output → Prop}
    (steps : ∀ state input next output,
      step state input = some (next, output) → property output)
    {state final : State}
    {inputs : List Input}
    {outputs : List Output}
    (ran : runSteps step state inputs = some (final, outputs)) :
    ∀ output ∈ outputs, property output := by
  induction inputs generalizing state outputs with
  | nil =>
      cases ran
      simp
  | cons input inputs inductionHypothesis =>
      obtain ⟨next, output, rest, stepped, restRan, rfl⟩ :=
        runSteps_cons_eq_some.mp ran
      exact List.forall_mem_cons.mpr
        ⟨steps state input next output stepped, inductionHypothesis restRan⟩

/-- What every step on an admissible input preserves holds at the end of a run on
admissible inputs. -/
theorem runSteps_invariant
    {step : State → Input → Option (State × Output)}
    {invariant : State → Prop}
    {admissible : Input → Prop}
    (preserves : ∀ state input next output, invariant state →
      admissible input → step state input = some (next, output) →
        invariant next)
    {state final : State}
    {inputs : List Input}
    {outputs : List Output}
    (start : invariant state)
    (allAdmissible : ∀ input ∈ inputs, admissible input)
    (ran : runSteps step state inputs = some (final, outputs)) :
    invariant final := by
  induction inputs generalizing state outputs with
  | nil =>
      cases ran
      exact start
  | cons input inputs inductionHypothesis =>
      obtain ⟨next, output, rest, stepped, restRan, rfl⟩ :=
        runSteps_cons_eq_some.mp ran
      rw [List.forall_mem_cons] at allAdmissible
      exact inductionHypothesis
        (preserves state input next output start allAdmissible.1 stepped)
        allAdmissible.2 restRan

/-- Conveyance rule: if every step hands out from the front of what the state holds
and takes in at its end, so does a run. -/
theorem runSteps_conveys
    {α : Type*}
    {step : State → Input → Option (State × Output)}
    {condition : State → Input → Prop}
    {holds : State → List α → Prop}
    {leaving entering : Output → List α}
    (conveys : ∀ state input next output held, holds state held →
      condition state input → step state input = some (next, output) →
        ∃ left, holds next left ∧
          leaving output ++ left = held ++ entering output)
    {state final : State}
    {inputs : List Input}
    {outputs : List Output}
    {held : List α}
    (start : holds state held)
    (along : AlongRun step condition state inputs)
    (ran : runSteps step state inputs = some (final, outputs)) :
    ∃ left, holds final left ∧
      outputs.flatMap leaving ++ left = held ++ outputs.flatMap entering := by
  induction inputs generalizing state outputs held with
  | nil =>
      cases ran
      exact ⟨held, start, by simp⟩
  | cons input inputs inductionHypothesis =>
      obtain ⟨next, output, rest, stepped, restRan, rfl⟩ :=
        runSteps_cons_eq_some.mp ran
      obtain ⟨met, restAlong⟩ := along
      obtain ⟨between, nextHolds, first⟩ :=
        conveys state input next output held start met stepped
      obtain ⟨left, finalHolds, later⟩ :=
        inductionHypothesis nextHolds (restAlong next output stepped) restRan
      refine ⟨left, finalHolds, ?_⟩
      rw [List.flatMap_cons, List.flatMap_cons, List.append_assoc, later,
        ← List.append_assoc, first, List.append_assoc]

/-- Every step of the run returns, and its output is good for the state before
it. -/
def RunsWith
    (step : State → Input → Option (State × Output))
    (good : State → Output → Prop) :
    State → List Input → Prop
  | _, [] => True
  | state, input :: inputs =>
      ∃ next output, step state input = some (next, output) ∧
        good state output ∧ RunsWith step good next inputs

section Rules

variable {step : State → Input → Option (State × Output)}
variable {good : State → Output → Prop}

/-- A run with good outputs returns them. -/
theorem RunsWith.returns
    {state : State}
    {inputs : List Input}
    (runs : RunsWith step good state inputs) :
    ∃ final outputs, runSteps step state inputs = some (final, outputs) ∧
      ∀ output ∈ outputs, ∃ before, good before output := by
  induction inputs generalizing state with
  | nil => exact ⟨state, [], rfl, by simp⟩
  | cons input inputs inductionHypothesis =>
      obtain ⟨next, output, stepped, outputGood, rest⟩ := runs
      obtain ⟨final, outputs, ran, outputsGood⟩ := inductionHypothesis rest
      exact ⟨final, output :: outputs,
        runSteps_cons_eq_some.mpr ⟨next, output, outputs, stepped, ran, rfl⟩,
        List.forall_mem_cons.mpr ⟨⟨state, outputGood⟩, outputsGood⟩⟩

/-- If every step returns a good output, so does every run. -/
theorem runsWith_of_forall
    (always : ∀ state input, ∃ next output,
      step state input = some (next, output) ∧ good state output)
    (inputs : List Input)
    (state : State) :
    RunsWith step good state inputs := by
  induction inputs generalizing state with
  | nil => trivial
  | cons input inputs inductionHypothesis =>
      obtain ⟨next, output, stepped, outputGood⟩ := always state input
      exact ⟨next, output, stepped, outputGood, inductionHypothesis next⟩

/-- Step-to-run rule: if every state that meets the condition returns a good
output, then a run that meets the condition throughout has good outputs. -/
theorem AlongRun.runsWith
    {condition : State → Input → Prop}
    (sufficient : ∀ state input, condition state input →
      ∃ next output, step state input = some (next, output) ∧
        good state output)
    {inputs : List Input}
    {state : State}
    (along : AlongRun step condition state inputs) :
    RunsWith step good state inputs := by
  induction inputs generalizing state with
  | nil => trivial
  | cons input inputs inductionHypothesis =>
      obtain ⟨met, rest⟩ := along
      obtain ⟨next, output, stepped, outputGood⟩ := sufficient state input met
      exact ⟨next, output, stepped, outputGood,
        inductionHypothesis (rest next output stepped)⟩

/-- Exact step-to-run rule: if the states that return a good output are exactly
those that meet the condition, the same holds of runs. -/
theorem runsWith_iff_alongRun
    {condition : State → Input → Prop}
    (exactly : ∀ state input,
      (∃ next output, step state input = some (next, output) ∧
        good state output) ↔ condition state input)
    (inputs : List Input)
    (state : State) :
    RunsWith step good state inputs ↔
      AlongRun step condition state inputs := by
  constructor
  · intro runs
    induction inputs generalizing state with
    | nil => trivial
    | cons input inputs inductionHypothesis =>
        obtain ⟨next, output, stepped, outputGood, rest⟩ := runs
        refine ⟨(exactly state input).mp ⟨next, output, stepped, outputGood⟩,
          ?_⟩
        intro other otherOutput otherStepped
        rw [stepped] at otherStepped
        cases otherStepped
        exact inductionHypothesis next rest
  · exact AlongRun.runsWith fun state input => (exactly state input).mpr

/-- Exact rule under an invariant: if good outputs depend on the input alone,
and good steps keep the invariant, a run has good outputs exactly when all its
inputs are admissible. -/
theorem runsWith_iff_forall
    {invariant : State → Prop}
    {admissible : Input → Prop}
    (exactly : ∀ state input, invariant state →
      ((∃ next output, step state input = some (next, output) ∧
        good state output) ↔ admissible input))
    (preserves : ∀ state input next output, invariant state →
      step state input = some (next, output) → good state output →
        invariant next)
    (inputs : List Input)
    (state : State)
    (start : invariant state) :
    RunsWith step good state inputs ↔
      ∀ input ∈ inputs, admissible input := by
  induction inputs generalizing state with
  | nil => simp [RunsWith]
  | cons input inputs inductionHypothesis =>
      have rest {next : State} {output : Output}
          (stepped : step state input = some (next, output))
          (outputGood : good state output) :=
        inductionHypothesis next
          (preserves state input next output start stepped outputGood)
      rw [List.forall_mem_cons, ← exactly state input start]
      constructor
      · rintro ⟨next, output, stepped, outputGood, runs⟩
        exact ⟨⟨next, output, stepped, outputGood⟩,
          (rest stepped outputGood).mp runs⟩
      · rintro ⟨⟨next, output, stepped, outputGood⟩, allAdmissible⟩
        exact ⟨next, output, stepped, outputGood,
          (rest stepped outputGood).mpr allAdmissible⟩

end Rules

end Foundation
end Hiemal
