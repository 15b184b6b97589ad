import Hiemal.Stream.Defs
import Hiemal.Util.Time

/-!
# How long a stream runs

`hm_stream_run` compares the milliseconds that `elapsed_time_ms` reports with `msec`
before each iteration. This module puts the clock into the loop and shows when it
stops: exactly the iterations are run that begin before the deadline.
-/

namespace Hiemal

open Foundation

variable {Source Dsp Sink : Type}

/-- What is read at the end of an iteration: the clock, and the contents of
reallocated cells. -/
structure ClockReading where
  clock : TimeSpec
  fresh : ℕ → ℕ → UInt8

/-- The end of an iteration of a run that began at `start`. -/
def clockTick (start : TimeSpec) (reading : ClockReading) : Option Tick :=
  (elapsedTimeMs start reading.clock).map
    fun elapsedTime => { elapsedTime := elapsedTime, fresh := reading.fresh }

/-- `hm_stream_run`, with the readings of the clock at the end of each iteration. -/
def hmStreamRunClocked
    (stream : HmStream Source Dsp Sink)
    (state : OpStates Source Dsp Sink)
    (msec : ℕ)
    (start : TimeSpec)
    (readings : List ClockReading) :
    Option (OpStates Source Dsp Sink × List Iteration) :=
  (readings.mapM (clockTick start)).bind (hmStreamRun stream state msec)

/-- The end of an iteration, with the whole milliseconds since `start`. -/
def wholeTick (start : TimeSpec) (reading : ClockReading) : Tick where
  elapsedTime := (reading.clock.nanoseconds - start.nanoseconds).toNat / 1000000
  fresh := reading.fresh

/-- The nanoseconds from `start` to where each iteration begins. -/
def beginnings (start : TimeSpec) (readings : List ClockReading) : List ℕ :=
  0 :: readings.map
    fun reading => (reading.clock.nanoseconds - start.nanoseconds).toNat

/-- The clock does not run backwards, and is read within the range in which elapsed
milliseconds are integers of type `double`. -/
structure ClockRuns (start : TimeSpec) (readings : List ClockReading) : Prop where
  startValid : start.Valid
  valid : ∀ reading ∈ readings, reading.clock.Valid
  forward : ∀ reading ∈ readings, start.nanoseconds ≤ reading.clock.nanoseconds
  sorted :
    readings.Pairwise fun first second =>
      first.clock.nanoseconds ≤ second.clock.nanoseconds
  bounded :
    ∀ reading ∈ readings,
      reading.clock.nanoseconds < start.nanoseconds + 1000000 * 2 ^ 53

/-- The loop runs a prefix of its iterations, up to the first elapsed time that is
not below `msec`. -/
theorem ticksWithin_eq_take
    (msec elapsedTime : ℕ)
    (ticks : List Tick)
    (sorted : (elapsedTime :: ticks.map Tick.elapsedTime).Pairwise (· ≤ ·)) :
    ∃ count,
      ticksWithin msec elapsedTime ticks = ticks.take count ∧
        ∀ index beginning,
          index < ticks.length →
          (elapsedTime :: ticks.map Tick.elapsedTime)[index]? = some beginning →
            (index < count ↔ beginning < msec) := by
  induction ticks generalizing elapsedTime with
  | nil => exact ⟨0, rfl, fun _ _ inside => absurd inside (Nat.not_lt_zero _)⟩
  | cons tick ticks ih =>
      by_cases running : elapsedTime < msec
      · obtain ⟨count, runs, prefixed⟩ := ih tick.elapsedTime sorted.of_cons
        refine ⟨count + 1, ?_, ?_⟩
        · rw [ticksWithin, if_pos running, List.take_succ_cons, runs]
        · intro index beginning inside begins
          cases index with
          | zero =>
              rw [List.getElem?_cons_zero, Option.some_inj] at begins
              rw [← begins]
              exact iff_of_true (Nat.succ_pos count) running
          | succ index =>
              rw [Nat.add_lt_add_iff_right]
              apply prefixed index beginning (Nat.lt_of_succ_lt_succ inside)
              rwa [List.getElem?_cons_succ, List.map_cons] at begins
      · -- every later elapsed time is at least as large
        refine ⟨0, ?_, ?_⟩
        · rw [ticksWithin, if_neg running, List.take_zero]
        · intro index beginning _ begins
          apply iff_of_false (Nat.not_lt_zero index)
          have listed := List.mem_of_getElem? begins
          rcases List.mem_cons.mp listed with rfl | later
          · exact running
          · have after := List.rel_of_pairwise_cons sorted later
            omega

/-- Numbers that lie apart grow with their position. -/
theorem add_mul_le_of_isChain
    {spacing first : ℕ}
    {rest : List ℕ}
    (spaced : (first :: rest).IsChain fun before after => before + spacing ≤ after)
    (index value : ℕ)
    (found : (first :: rest)[index]? = some value) :
    first + index * spacing ≤ value := by
  induction rest generalizing first index with
  | nil =>
      cases index with
      | zero =>
          rw [List.getElem?_cons_zero, Option.some_inj] at found
          omega
      | succ index =>
          rw [List.getElem?_cons_succ, List.getElem?_nil] at found
          cases found
  | cons second rest ih =>
      rw [List.isChain_cons_cons] at spaced
      cases index with
      | zero =>
          rw [List.getElem?_cons_zero, Option.some_inj] at found
          omega
      | succ index =>
          rw [List.getElem?_cons_succ] at found
          have later := ih spaced.2 index found
          have apart := spaced.1
          rw [Nat.add_mul, Nat.one_mul]
          omega

section Runs

variable {start : TimeSpec} {readings : List ClockReading}

/-- The milliseconds read at the end of an iteration. -/
theorem clockTick_eq
    (runs : ClockRuns start readings)
    {reading : ClockReading}
    (listed : reading ∈ readings) :
    clockTick start reading = some (wholeTick start reading) := by
  have forward := runs.forward reading listed
  have bounded := runs.bounded reading listed
  have exact :=
    @elapsedTimeMs_eq start reading.clock
      (reading.clock.nanoseconds - start.nanoseconds).toNat
      runs.startValid (runs.valid reading listed) (by omega)
      (Nat.div_lt_of_lt_mul (by omega))
  rw [clockTick, exact, Option.map_some, wholeTick]

/-- The ticks of a run of the clock. -/
theorem mapM_clockTick
    (runs : ClockRuns start readings) :
    readings.mapM (clockTick start) =
      some (readings.map (wholeTick start)) := by
  have ticks := fun reading => @clockTick_eq start readings runs reading
  clear runs
  induction readings with
  | nil => rfl
  | cons reading readings ih =>
      rw [List.mapM_cons, ticks reading List.mem_cons_self,
        ih fun other listed => ticks other (List.mem_cons_of_mem reading listed)]
      rfl

/-- In order, the iterations begin later and later. -/
theorem beginnings_pairwise
    (runs : ClockRuns start readings) :
    (beginnings start readings).Pairwise (· ≤ ·) := by
  apply List.Pairwise.cons
  · intro beginning _
    exact Nat.zero_le beginning
  · rw [List.pairwise_map]
    apply runs.sorted.imp
    intro first second ordered
    omega

/-- **A stream runs until the deadline.** Exactly the iterations are run that begin
less than `msec` milliseconds after the start. When each iteration sleeps for a
millisecond at least, there are at most `msec` of them. -/
theorem hmStreamRun_untilDeadline
    (stream : HmStream Source Dsp Sink)
    (state : OpStates Source Dsp Sink)
    (msec : ℕ)
    (runs : ClockRuns start readings) :
    ∃ count,
      hmStreamRunClocked stream state msec start readings =
          runSteps (hmStreamIterate stream) state
            ((readings.map (wholeTick start)).take count) ∧
        (∀ index beginning,
          index < readings.length →
          (beginnings start readings)[index]? = some beginning →
            (index < count ↔ beginning < msec * 1000000)) ∧
        ((beginnings start readings).IsChain
            (fun before after => before + 1000000 ≤ after) →
          min count readings.length ≤ msec) := by
  have elapsedTimes :
      0 :: (readings.map (wholeTick start)).map Tick.elapsedTime =
        (beginnings start readings).map (· / 1000000) := by
    rw [beginnings, List.map_cons, List.map_map, List.map_map]
    rfl
  have sorted :
      ((beginnings start readings).map (· / 1000000)).Pairwise (· ≤ ·) := by
    rw [List.pairwise_map]
    apply (beginnings_pairwise runs).imp
    intro first second ordered
    exact Nat.div_le_div_right ordered
  rw [← elapsedTimes] at sorted
  obtain ⟨count, taken, prefixed⟩ := ticksWithin_eq_take msec 0 _ sorted
  rw [elapsedTimes, List.length_map] at prefixed
  have deadline (index beginning : ℕ) :
      index < readings.length →
        (beginnings start readings)[index]? = some beginning →
          (index < count ↔ beginning < msec * 1000000) := by
    intro inside begins
    have elapsed :
        ((beginnings start readings).map (· / 1000000))[index]? =
          some (beginning / 1000000) := by
      rw [List.getElem?_map, begins, Option.map_some]
    rw [prefixed index _ inside elapsed,
      Nat.div_lt_iff_lt_mul (by decide : 0 < 1000000)]
  refine ⟨count, ?_, deadline, ?_⟩
  · rw [hmStreamRunClocked, mapM_clockTick runs, Option.bind_some, hmStreamRun, taken]
  · intro spaced
    rcases Nat.eq_zero_or_pos (min count readings.length) with none | some
    · omega
    · -- the last iteration begins before the deadline
      have bound :
          min count readings.length - 1 < (beginnings start readings).length := by
        rw [beginnings, List.length_cons, List.length_map]
        omega
      have begins := List.getElem?_eq_getElem bound
      have early := (deadline _ _ (by omega) begins).mp (by omega)
      have late := add_mul_le_of_isChain spaced _ _ begins
      omega

/-- Within two milliseconds, the third iteration is not begun. -/
theorem hmStreamRun_untilDeadline_third :
    ∃ count,
      hmStreamRunClocked
          { src := fileSourceOp (fun unread => Fin.ofNat _ unread.length) .s16le
            dsp := none
            sink := fileSinkOp .s16le }
          ({ src := [1, 2, 3], dsp := (), sink := [] } : OpStates (List UInt8) Unit (List UInt8))
          2 ⟨5, 999000000⟩
          [⟨⟨6, 500000⟩, fun _ _ => 0⟩, ⟨⟨6, 1500000⟩, fun _ _ => 0⟩,
            ⟨⟨6, 2500000⟩, fun _ _ => 0⟩] =
        runSteps
          (hmStreamIterate
            { src := fileSourceOp (fun unread => Fin.ofNat _ unread.length) .s16le
              dsp := none
              sink := fileSinkOp .s16le })
          ({ src := [1, 2, 3], dsp := (), sink := [] } : OpStates (List UInt8) Unit (List UInt8))
          ([⟨1, fun _ _ => 0⟩, ⟨2, fun _ _ => 0⟩, ⟨3, fun _ _ => 0⟩].take count) ∧
        1 < count ∧ ¬2 < count := by
  have runs :
      ClockRuns ⟨5, 999000000⟩
        [⟨⟨6, 500000⟩, fun _ _ => 0⟩, ⟨⟨6, 1500000⟩, fun _ _ => 0⟩,
          ⟨⟨6, 2500000⟩, fun _ _ => 0⟩] := by
    constructor <;> simp [TimeSpec.Valid, TimeSpec.nanoseconds]
  obtain ⟨count, ran, deadline, _⟩ :=
    hmStreamRun_untilDeadline
      { src := fileSourceOp (fun unread => Fin.ofNat _ unread.length) .s16le
        dsp := none
        sink := fileSinkOp .s16le }
      ({ src := [1, 2, 3], dsp := (), sink := [] } : OpStates (List UInt8) Unit (List UInt8))
      2 runs
  refine ⟨count, ran, ?_, ?_⟩
  · exact (deadline 1 1500000 (by decide) rfl).mpr (by decide)
  · exact fun third => absurd ((deadline 2 2500000 (by decide) rfl).mp third) (by decide)

end Runs

end Hiemal
