import Hiemal.Buffer.Room
import Hiemal.Foundation.Fragments
import Hiemal.Io.RoundTrip
import Hiemal.Pulse.Defs

/-!
# Reading a record stream into buffers

A read takes bytes from the fragments at the head of the record stream until the
request, cut to the room in the buffer, is met. It drops every fragment it has taken
from, so what a fragment holds behind the end of the request is lost to the reads
after it.
-/

namespace Hiemal

open Foundation

/-! ## The loop -/

section Loop

variable {capacity nBytes : Nat} {buf : Buffer} {items : List UInt8}

/-- One fragment, or none, and the rest of the loop. -/
theorem pulseReadLoop_cons
    (more : nBytes ≠ 0)
    (arrived : List (List UInt8))
    (arrivals : List (List (List UInt8)))
    (queued : List (List UInt8))
    (buf : Buffer)
    (totalBytesRead : Int) :
    pulseReadLoop (arrived :: arrivals) queued buf nBytes totalBytesRead =
      let paBuf := (queued ++ arrived).headD []
      let nBytesRead := min nBytes paBuf.length
      (bufferWrite buf paBuf nBytesRead).bind fun call =>
        (pulseReadLoop arrivals (queued ++ arrived).tail call.buf
            (nBytes - nBytesRead)
            (toSigned 32 (totalBytesRead + nBytesRead))).map fun rest =>
          { rest with recorded := paBuf.take nBytesRead ++ rest.recorded } := by
  have clamp (length : Nat) :
      (if nBytes < length then nBytes else length) = min nBytes length := by
    split <;> omega
  rw [pulseReadLoop, if_neg more]
  dsimp only
  rw [clamp]
  generalize min nBytes _ = nBytesRead
  cases bufferWrite buf _ nBytesRead with
  | none => rfl
  | some call =>
      simp only [Option.bind_eq_bind, Option.bind_some]
      cases pulseReadLoop _ _ _ _ _ <;> rfl

/-- Taking from the fragment at the head of what is queued, if there is one, before
the others. -/
theorem takeFragments_head
    (more : nBytes ≠ 0)
    (queued later : List (List UInt8)) :
    takeFragments (queued ++ later) nBytes =
      let paBuf := queued.headD []
      let rest :=
        takeFragments (queued.tail ++ later)
          (nBytes - min nBytes paBuf.length)
      (paBuf.take (min nBytes paBuf.length) ++ rest.1, rest.2) := by
  cases queued with
  | nil => simp
  | cons fragment queued =>
      have left :
          nBytes - min nBytes fragment.length = nBytes - fragment.length := by
        omega
      have same : fragment.take (min nBytes fragment.length) =
          fragment.take nBytes := by
        rw [List.take_eq_take_iff]
        omega
      simp only [List.headD_cons, List.tail_cons, List.cons_append, left, same]
      apply Prod.ext
      · exact fst_takeFragments_cons more fragment (queued ++ later)
      · exact snd_takeFragments_cons more fragment (queued ++ later)

/-- A loop that ends has appended the request to the buffer, taken from the
fragments of the stream. -/
theorem pulseReadLoop_reads
    (capacityBound : capacity < 2 ^ 32)
    {arrivals : List (List (List UInt8))}
    {queued : List (List UInt8)}
    {room : Nat}
    {total : Int}
    {call : PulseRead}
    (offers : BufferOffers capacity buf items room)
    (free : buf.m.locked = false)
    (fits : nBytes ≤ room)
    (returns :
      pulseReadLoop arrivals queued buf nBytes (toSigned 32 total) =
        some call) :
    BufferHolds capacity call.buf (items ++ call.recorded) ∧
      call.buf.m.locked = false ∧
        takeFragments (queued ++ arrivals.flatten) nBytes =
            (call.recorded, call.stream.fragments) ∧
          call.recorded.length = nBytes ∧
            call.rc = toSigned 32 (total + nBytes) := by
  induction arrivals generalizing queued buf items nBytes room total call with
  | nil =>
      rw [pulseReadLoop] at returns
      split_ifs at returns with done
      cases returns
      subst done
      simp [offers.holds, free, RecordStream.fragments]
  | cons arrived arrivals inductionHypothesis =>
      by_cases done : nBytes = 0
      · subst done
        rw [pulseReadLoop, if_pos rfl] at returns
        cases returns
        simp [offers.holds, free, RecordStream.fragments]
      rw [pulseReadLoop_cons done] at returns
      rw [List.flatten_cons, ← List.append_assoc, takeFragments_head done]
      dsimp only at returns ⊢
      generalize (queued ++ arrived).headD [] = paBuf at returns ⊢
      generalize chosen : min nBytes paBuf.length = nBytesRead at returns ⊢
      have inside : nBytesRead ≤ paBuf.length := by omega
      have within : min nBytesRead room = nBytesRead := by omega
      obtain ⟨written, writes, moves⟩ :=
        offers.bufferWrite capacityBound free inside
      rw [within] at moves
      rw [writes, Option.bind_some] at returns
      obtain ⟨rest, ran, rfl⟩ := Option.map_eq_some_iff.mp returns
      rw [toSigned, toSigned, Int.bmod_add_bmod, ← toSigned] at ran
      obtain ⟨holds, unlocked, taken, length, rc⟩ :=
        inductionHypothesis moves.after moves.free (by omega) ran
      refine ⟨?_, unlocked, ?_, ?_, ?_⟩
      · rw [← List.append_assoc]
        exact holds
      · rw [taken]
      · rw [List.length_append, List.length_take, length]
        omega
      · rw [rc]
        congr 1
        omega

end Loop

/-! ## Runs of reads -/

/-- The destination is a buffer between two calls. -/
def ReadRequest.Supplied (request : ReadRequest) : Prop :=
  request.buf.bufLenBytes < 2 ^ 32 ∧
    BufferIdle request.buf.bufLenBytes request.buf

/-- The number of bytes a request asks for, cut to the room there is. -/
def ReadRequest.count (request : ReadRequest) : Nat :=
  min request.nBytes (bufferNWriteBytes request.buf)

/-- The request ends where a fragment does, and an `int` holds its size. -/
def FragmentsMeet (stream : RecordStream) (request : ReadRequest) : Prop :=
  MeetsBoundary stream.fragments request.count ∧ request.count < 2 ^ 31

instance decidableFragmentsMeet
    (stream : RecordStream)
    (request : ReadRequest) :
    Decidable (FragmentsMeet stream request) :=
  inferInstanceAs (Decidable (_ ∧ _))

/-- A read appends the bytes it records to its buffer and leaves the mutex free. -/
def Appends (request : ReadRequest) (call : PulseRead) : Prop :=
  call.buf.m.locked = false ∧
    ∃ items,
      BufferHolds request.buf.bufLenBytes request.buf items ∧
        BufferHolds request.buf.bufLenBytes call.buf (items ++ call.recorded)

/-- What a run of reads has recorded is a prefix of the fragments, what is left of
them is what comes behind it, and every read returned the number of bytes it
appended. -/
structure NoneSkipped
    (start final : RecordStream)
    (calls : List PulseRead) : Prop where
  recorded_eq :
    calls.flatMap (·.recorded) <+: start.fragments.flatten
  left_eq :
    final.fragments.flatten =
      start.fragments.flatten.drop (calls.flatMap (·.recorded)).length
  returned : ∀ call ∈ calls, call.rc = call.recorded.length

/-- What a read that returns has done to its buffer and to the stream. -/
theorem pulseReadStep_reads
    {stream next : RecordStream}
    {request : ReadRequest}
    {call : PulseRead}
    (supplied : request.Supplied)
    (stepped : pulseReadStep stream request = some (next, call)) :
    Appends request call ∧
      takeFragments stream.fragments request.count =
          (call.recorded, next.fragments) ∧
        call.recorded.length = request.count ∧
          call.rc = toSigned 32 request.count := by
  obtain ⟨capacityBound, ⟨items, holds⟩, free⟩ := supplied
  obtain ⟨returned, returns, equal⟩ := Option.map_eq_some_iff.mp stepped
  cases equal
  have within := holds.bufferNWriteBytes_le capacityBound
  rw [hmPulseIoRead, clampRequest_eq _ (by omega), ← toSigned_zero 32]
    at returns
  obtain ⟨after, unlocked, taken, length, rc⟩ :=
    pulseReadLoop_reads capacityBound ⟨holds, rfl⟩ free
      (Nat.min_le_right _ _) returns
  rw [Int.zero_add] at rc
  exact ⟨⟨unlocked, items, holds, after⟩, taken, length, rc⟩

section Runs

variable {stream next start final : RecordStream} {request : ReadRequest}
variable {requests : List ReadRequest} {call : PulseRead}
variable {calls : List PulseRead}

/-- No byte is recorded twice, by one read. -/
theorem length_pulseReadStep_le
    (supplied : request.Supplied)
    (stepped : pulseReadStep stream request = some (next, call)) :
    call.recorded.length + next.fragments.flatten.length ≤
      stream.fragments.flatten.length := by
  obtain ⟨_, taken, _, _⟩ := pulseReadStep_reads supplied stepped
  have bound := length_takeFragments_le stream.fragments request.count
  rwa [taken] at bound

/-- No byte is recorded twice, by a run of reads. -/
theorem length_pulseReads_le
    (supplied : ∀ request ∈ requests, request.Supplied)
    (ran : runSteps pulseReadStep start requests = some (final, calls)) :
    (calls.flatMap (·.recorded)).length + final.fragments.flatten.length ≤
      start.fragments.flatten.length := by
  induction requests generalizing start calls with
  | nil =>
      cases ran
      simp
  | cons request requests inductionHypothesis =>
      obtain ⟨next, call, rest, stepped, restRan, rfl⟩ :=
        runSteps_cons_eq_some.mp ran
      rw [List.forall_mem_cons] at supplied
      have first := length_pulseReadStep_le supplied.1 stepped
      have later := inductionHypothesis supplied.2 restRan
      rw [List.flatMap_cons, List.length_append]
      omega

/-- A read skips nothing exactly if its request ends where a fragment does, and
returns the number of bytes exactly if an `int` holds it. -/
theorem fragmentsMeet_iff
    (supplied : request.Supplied)
    (stepped : pulseReadStep stream request = some (next, call)) :
    FragmentsMeet stream request ↔
      call.recorded.length + next.fragments.flatten.length =
          stream.fragments.flatten.length ∧
        call.rc = call.recorded.length := by
  obtain ⟨_, taken, length, rc⟩ := pulseReadStep_reads supplied stepped
  have there := length_takeFragments stream.fragments request.count
  rw [taken] at there
  have bounded : request.count < 2 ^ 32 :=
    Nat.lt_of_le_of_lt (Nat.min_le_right _ _)
      (Nat.lt_of_le_of_lt
        (supplied.2.holds.choose_spec.bufferNWriteBytes_le supplied.1)
        supplied.1)
  have returned :
      call.rc = call.recorded.length ↔ request.count < 2 ^ 31 := by
    rw [rc, length, toSigned_eq_natCast_iff 31 bounded]
    exact and_iff_right rfl
  rw [FragmentsMeet, returned]
  apply and_congr_left'
  constructor
  · intro meets
    have kept := congrArg List.length meets.append_eq
    rwa [taken, List.length_append] at kept
  · intro kept
    apply meetsBoundary_of_length_eq
    · omega
    · rwa [taken]

/-- Reads whose requests all end where fragments do leave nothing out. -/
theorem noneSkipped_of_alongRun
    (supplied : ∀ request ∈ requests, request.Supplied)
    (along : AlongRun pulseReadStep FragmentsMeet start requests)
    (ran : runSteps pulseReadStep start requests = some (final, calls)) :
    calls.flatMap (·.recorded) ++ final.fragments.flatten =
        start.fragments.flatten ∧
      ∀ call ∈ calls, call.rc = call.recorded.length := by
  induction requests generalizing start calls with
  | nil =>
      cases ran
      simp
  | cons request requests inductionHypothesis =>
      obtain ⟨next, call, rest, stepped, restRan, rfl⟩ :=
        runSteps_cons_eq_some.mp ran
      rw [List.forall_mem_cons] at supplied
      obtain ⟨met, restAlong⟩ := along
      obtain ⟨_, taken, _, _⟩ := pulseReadStep_reads supplied.1 stepped
      obtain ⟨later, laterReturned⟩ :=
        inductionHypothesis supplied.2 (restAlong next call stepped) restRan
      have first := met.1.append_eq
      rw [taken] at first
      refine ⟨?_, List.forall_mem_cons.mpr
        ⟨((fragmentsMeet_iff supplied.1 stepped).mp met).2, laterReturned⟩⟩
      rw [List.flatMap_cons, List.append_assoc, later, first]

/-- Reads that leave nothing out have requests that end where fragments do. -/
theorem alongRun_of_length_eq
    (supplied : ∀ request ∈ requests, request.Supplied)
    (ran : runSteps pulseReadStep start requests = some (final, calls))
    (kept :
      (calls.flatMap (·.recorded)).length + final.fragments.flatten.length =
        start.fragments.flatten.length)
    (returned : ∀ call ∈ calls, call.rc = call.recorded.length) :
    AlongRun pulseReadStep FragmentsMeet start requests := by
  induction requests generalizing start calls with
  | nil => trivial
  | cons request requests inductionHypothesis =>
      obtain ⟨next, call, rest, stepped, restRan, rfl⟩ :=
        runSteps_cons_eq_some.mp ran
      rw [List.forall_mem_cons] at supplied returned
      rw [List.flatMap_cons, List.length_append] at kept
      have first := length_pulseReadStep_le supplied.1 stepped
      have later := length_pulseReads_le supplied.2 restRan
      refine (alongRun_cons_some stepped).mp ⟨?_, ?_⟩
      · exact (fragmentsMeet_iff supplied.1 stepped).mpr
          ⟨by omega, returned.1⟩
      · exact inductionHypothesis supplied.2 restRan (by omega) returned.2

/-- Every read of a run appends what it records. -/
theorem pulseReads_append
    (supplied : ∀ request ∈ requests, request.Supplied)
    (ran : runSteps pulseReadStep start requests = some (final, calls)) :
    List.Forall₂ Appends requests calls := by
  induction requests generalizing start calls with
  | nil =>
      cases ran
      exact .nil
  | cons request requests inductionHypothesis =>
      obtain ⟨next, call, rest, stepped, restRan, rfl⟩ :=
        runSteps_cons_eq_some.mp ran
      rw [List.forall_mem_cons] at supplied
      exact .cons (pulseReadStep_reads supplied.1 stepped).1
        (inductionHypothesis supplied.2 restRan)

/-- The bytes a run of reads appends to its buffers are a prefix of the fragments
with nothing skipped, and their numbers are returned, exactly if every request, cut
to the room in its buffer, ends where a fragment does and fits an `int`. -/
theorem pulseReads_noneSkipped_iff
    (supplied : ∀ request ∈ requests, request.Supplied)
    (ran : runSteps pulseReadStep start requests = some (final, calls)) :
    List.Forall₂ Appends requests calls ∧
      (NoneSkipped start final calls ↔
        AlongRun pulseReadStep FragmentsMeet start requests) := by
  refine ⟨pulseReads_append supplied ran, ?_, ?_⟩
  · rintro ⟨⟨behind, front⟩, left, returned⟩
    apply alongRun_of_length_eq supplied ran _ returned
    rw [← front, List.drop_left] at left
    rw [left, ← front, List.length_append]
  · intro along
    obtain ⟨whole, returned⟩ := noneSkipped_of_alongRun supplied along ran
    exact
      { recorded_eq := ⟨_, whole⟩
        left_eq := by rw [← whole, List.drop_left]
        returned := returned }

/-- Two reads take whole fragments: one of two bytes, then two of three bytes. -/
theorem pulseReads_noneSkipped_whole :
    ∃ final calls,
      runSteps pulseReadStep
          { queued := [], arrivals := [[[1, 2]], [], [[3, 4], [5]], []] }
          [{ buf := bufferInit 4 .ring, nBytes := 2 },
            { buf := bufferInit 3 .linear, nBytes := 5 }] =
        some (final, calls) ∧
      List.Forall₂ Appends
          [{ buf := bufferInit 4 .ring, nBytes := 2 },
            { buf := bufferInit 3 .linear, nBytes := 5 }] calls ∧
        (NoneSkipped
            { queued := [], arrivals := [[[1, 2]], [], [[3, 4], [5]], []] }
            final calls ↔
          AlongRun pulseReadStep FragmentsMeet
            { queued := [], arrivals := [[[1, 2]], [], [[3, 4], [5]], []] }
            [{ buf := bufferInit 4 .ring, nBytes := 2 },
              { buf := bufferInit 3 .linear, nBytes := 5 }]) := by
  have supplied (size : Nat) (type : BufferType) (nBytes : Nat)
      (bounded : size < 2 ^ 32) :
      ReadRequest.Supplied
        { buf := bufferInit size type, nBytes := nBytes } :=
    ⟨bounded, bufferIdle_bufferInit size type⟩
  obtain ⟨⟨final, calls⟩, ran⟩ := Option.isSome_iff_exists.mp
    (show
      (runSteps pulseReadStep
        { queued := [], arrivals := [[[1, 2]], [], [[3, 4], [5]], []] }
        [{ buf := bufferInit 4 .ring, nBytes := 2 },
          { buf := bufferInit 3 .linear, nBytes := 5 }]).isSome by
      decide +kernel)
  exact ⟨final, calls, ran,
    pulseReads_noneSkipped_iff (by simp [supplied]) ran⟩

/-- A fragment that is longer than the request loses its end: the second read goes
on with the second fragment. -/
theorem not_noneSkipped_straddling :
    (runSteps pulseReadStep
        { queued := [], arrivals := [[[1, 2, 3]], [[4, 5]]] }
        [{ buf := bufferInit 4 .ring, nBytes := 2 },
          { buf := bufferInit 4 .ring, nBytes := 2 }]).map
          (fun (_, calls) => calls.flatMap (·.recorded)) =
        some [1, 2, 4, 5] ∧
      ¬[1, 2, 4, 5] <+: [[1, 2, 3], [4, 5]].flatten := by
  decide +kernel

end Runs

end Hiemal
