import Hiemal.Buffer.Room
import Hiemal.Pulse.Capture
import Hiemal.Pulse.Playback

/-!
# Streams between devices

Translation of `SOURCE_OP(io_device)` and `SINK_OP(io_device)`, over the transfers of
the PulseAudio backend. Both pass their bytes through a linear buffer that lives as
long as the call. A stream between two devices of the same format plays what it
records, iteration by iteration.
-/

namespace Hiemal

open Foundation

/-- What `SOURCE_OP(io_device)` leaves behind. -/
structure IoDeviceSourceRun where
  stream : RecordStream
  dest : List UInt8
  /-- The bytes taken from the record stream. -/
  recorded : List UInt8
  rc : ℤ

/-- `SOURCE_OP(io_device)`. -/
def runIoDeviceSource
    (stream : RecordStream)
    (dest : List UInt8)
    (nBytes : ℕ) : Option IoDeviceSourceRun := do
  let buf := bufferInit nBytes .linear
  let read ← hmPulseIoRead stream buf nBytes
  let call ← bufferRead read.buf (some dest) nBytes
  return {
    stream := read.stream
    dest := call.dest.getD dest
    recorded := read.recorded
    rc := call.rc }

/-- `SINK_OP(io_device)`. -/
def runIoDeviceSink
    (writableSizes : List ℕ)
    (src : List UInt8)
    (nBytes : ℕ)
    (fresh : ℕ → UInt8) : Option PulseWrite := do
  let buf := bufferInit nBytes .linear
  let call ← bufferWrite buf src nBytes
  hmPulseIoWrite writableSizes call.buf nBytes fresh

/-- What an iteration takes from outside: the counts the two devices report, the sizes
reported as writable while it plays, and the cells of the block behind `pa_buf`. -/
structure DeviceTick where
  bytesReadable : ℕ
  bytesWritable : ℕ
  writableSizes : List ℕ
  fresh : ℕ → UInt8

/-- The bytes an iteration of `hm_stream_run` passes from one device to the other. -/
def DeviceTick.bytesAvailable (tick : DeviceTick) : ℕ :=
  if tick.bytesReadable < tick.bytesWritable then tick.bytesReadable
  else tick.bytesWritable

/-- What happened in one iteration between two devices. -/
structure DeviceIteration where
  recorded : List UInt8
  played : List UInt8
  /-- The value that the sink op returns. -/
  rc : ℤ

/-- One iteration of `hm_stream_run` without a dsp op, between two devices whose
sample formats agree. The ops take their byte counts as `unsigned int`. -/
def hmStreamIterateDevices
    (stream : RecordStream)
    (tick : DeviceTick) : Option (RecordStream × DeviceIteration) := do
  let buf := List.replicate tick.bytesAvailable 0
  let source ← runIoDeviceSource stream buf (tick.bytesAvailable % 2 ^ 32)
  let sink ←
    runIoDeviceSink tick.writableSizes source.dest (tick.bytesAvailable % 2 ^ 32)
      tick.fresh
  return (source.stream,
    { recorded := source.recorded
      played := sink.writes.flatMap (·.chunk)
      rc := sink.rc })

/-! ## The ops -/

section Ops

variable {nBytes : ℕ}

/-- The source op fills the block with the next bytes of the record stream. -/
theorem runIoDeviceSource_eq
    (bounded : nBytes < 2 ^ 31)
    {stream : RecordStream}
    {dest : List UInt8}
    (length : dest.length = nBytes)
    {source : IoDeviceSourceRun}
    (returns : runIoDeviceSource stream dest nBytes = some source) :
    source.dest = source.recorded ∧
      source.recorded.length = nBytes ∧
        takeFragments stream.fragments nBytes =
            (source.recorded, source.stream.fragments) ∧
          source.rc = nBytes := by
  have cells : nBytes < 2 ^ 32 := bounded.trans (by decide)
  have offers := bufferOffers_bufferInit cells .linear
  simp only [runIoDeviceSource, Option.bind_eq_bind, Option.bind_eq_some_iff] at returns
  obtain ⟨read, reads, call, takes, equal⟩ := returns
  cases equal
  rw [hmPulseIoRead, clampRequest_eq _ (by rw [offers.room_eq]; omega),
    offers.room_eq, Nat.min_self, ← toSigned_zero 32] at reads
  obtain ⟨holds, free, taken, recordedLength, _⟩ :=
    pulseReadLoop_reads cells offers rfl le_rfl reads
  rw [List.nil_append] at holds
  obtain ⟨other, again, moves⟩ := holds.bufferRead_block cells free length
  obtain rfl : other = call := Option.some.inj (again.symm.trans takes)
  have whole : read.recorded.take nBytes = read.recorded :=
    List.take_of_length_le (Nat.le_of_eq recordedLength)
  have filled : other.dest.getD dest = read.recorded := by
    rw [moves.dest_eq, whole]
    exact store_of_length_eq (recordedLength.trans length.symm)
  have rc : other.rc = nBytes := by
    rw [moves.rc_eq, whole, recordedLength]
    exact toSigned_of_lt 31 bounded
  exact ⟨filled, recordedLength, taken, rc⟩

/-- The sink op plays the block it is given, in chunks the server has room for. -/
theorem runIoDeviceSink_eq
    (bounded : nBytes < 2 ^ 31)
    {src : List UInt8}
    (length : src.length = nBytes)
    {writableSizes : List ℕ}
    {fresh : ℕ → UInt8}
    {sink : PulseWrite}
    (returns : runIoDeviceSink writableSizes src nBytes fresh = some sink) :
    sink.writes.flatMap (·.chunk) = src ∧
      (∀ write ∈ sink.writes, write.chunk.length ≤ write.writable) ∧
        sink.rc = nBytes := by
  have cells : nBytes < 2 ^ 32 := bounded.trans (by decide)
  have offers := bufferOffers_bufferInit cells .linear
  obtain ⟨call, writes, moves⟩ :=
    offers.bufferWrite cells rfl (Nat.le_of_eq length.symm)
  simp only [runIoDeviceSink, writes, Option.bind_eq_bind, Option.bind_some] at returns
  obtain ⟨chunks, fits, _, _, rc⟩ :=
    hmPulseIoWrite_writes cells moves.after.holds moves.free bounded returns
  have whole : src.take nBytes = src :=
    List.take_of_length_le (Nat.le_of_eq length)
  rw [Nat.min_self, List.nil_append, whole] at chunks rc
  rw [whole] at chunks
  rw [length, Nat.min_self] at rc
  exact ⟨chunks, fits, rc⟩

end Ops

/-! ## Runs -/

section Runs

variable {stream next start final : RecordStream} {tick : DeviceTick}
variable {iteration : DeviceIteration}

theorem DeviceTick.bytesAvailable_eq (tick : DeviceTick) :
    tick.bytesAvailable = min tick.bytesReadable tick.bytesWritable := by
  unfold DeviceTick.bytesAvailable
  split <;> omega

/-- An iteration plays what it records, as many bytes as both devices report. -/
structure CopiesBetween
    (stream next : RecordStream)
    (tick : DeviceTick)
    (iteration : DeviceIteration) : Prop where
  played_eq : iteration.played = iteration.recorded
  count_eq : iteration.played.length = min tick.bytesReadable tick.bytesWritable
  rc_eq : iteration.rc = iteration.played.length
  taken :
    takeFragments stream.fragments tick.bytesAvailable =
      (iteration.recorded, next.fragments)

theorem hmStreamIterateDevices_copies
    (bounded : tick.bytesAvailable < 2 ^ 31)
    (stepped : hmStreamIterateDevices stream tick = some (next, iteration)) :
    CopiesBetween stream next tick iteration := by
  have unsigned : tick.bytesAvailable % 2 ^ 32 = tick.bytesAvailable :=
    Nat.mod_eq_of_lt (bounded.trans (by decide))
  simp only [hmStreamIterateDevices, unsigned, Option.bind_eq_bind,
    Option.bind_eq_some_iff] at stepped
  obtain ⟨source, sources, sink, sinks, equal⟩ := stepped
  cases equal
  obtain ⟨filled, length, taken, _⟩ :=
    runIoDeviceSource_eq bounded List.length_replicate sources
  rw [filled] at sinks
  obtain ⟨played, _, rc⟩ := runIoDeviceSink_eq bounded length sinks
  exact
    { played_eq := played
      count_eq := by rw [played, length, tick.bytesAvailable_eq]
      rc_eq := by rw [rc, played, length]
      taken := taken }

/-- **A stream between devices plays what it records.** In every run, each iteration
plays as many bytes as both devices report; all bytes played are in the order of the
record stream, none twice; and none is left out when every iteration ends where a
fragment does. -/
theorem hmStreamDevices_copy
    {ticks : List DeviceTick}
    (bounded : ∀ tick ∈ ticks, tick.bytesAvailable < 2 ^ 31)
    {iterations : List DeviceIteration}
    (ran : runSteps hmStreamIterateDevices start ticks = some (final, iterations)) :
    List.Forall₂
        (fun tick iteration =>
          iteration.played = iteration.recorded ∧
            iteration.played.length = min tick.bytesReadable tick.bytesWritable ∧
              iteration.rc = iteration.played.length)
        ticks iterations ∧
      (iterations.flatMap (·.played) ++ final.fragments.flatten).Sublist
        start.fragments.flatten ∧
      (AlongRun hmStreamIterateDevices
          (fun stream tick => MeetsBoundary stream.fragments tick.bytesAvailable)
          start ticks →
        iterations.flatMap (·.played) ++ final.fragments.flatten =
          start.fragments.flatten) := by
  induction ticks generalizing start iterations with
  | nil =>
      cases ran
      exact ⟨.nil, List.Sublist.refl _, fun _ => rfl⟩
  | cons tick ticks ih =>
      obtain ⟨next, iteration, rest, stepped, restRan, rfl⟩ :=
        runSteps_cons_eq_some.mp ran
      rw [List.forall_mem_cons] at bounded
      have copies := hmStreamIterateDevices_copies bounded.1 stepped
      obtain ⟨each, ordered, whole⟩ := ih bounded.2 restRan
      have first := takeFragments_sublist start.fragments tick.bytesAvailable
      rw [copies.taken, ← copies.played_eq] at first
      refine ⟨.cons ⟨copies.played_eq, copies.count_eq, copies.rc_eq⟩ each, ?_, ?_⟩
      · rw [List.flatMap_cons, List.append_assoc]
        exact (ordered.append_left iteration.played).trans first
      · rintro ⟨meets, along⟩
        have kept := meets.append_eq
        rw [copies.taken, ← copies.played_eq] at kept
        rw [List.flatMap_cons, List.append_assoc,
          whole (along next iteration stepped), kept]

/-- Two bytes are played one by one, then one byte. -/
theorem hmStreamDevices_copy_three :
    ∃ final iterations,
      runSteps hmStreamIterateDevices
          { queued := [], arrivals := [[[5, 6]], [[7]]] }
          [{ bytesReadable := 2, bytesWritable := 9, writableSizes := [1, 0, 1]
             fresh := fun _ => 0 },
            { bytesReadable := 4, bytesWritable := 1, writableSizes := [1]
              fresh := fun _ => 0 }] =
        some (final, iterations) ∧
      (iterations.flatMap (·.played) ++ final.fragments.flatten).Sublist
        [5, 6, 7] := by
  obtain ⟨⟨final, iterations⟩, ran⟩ := Option.isSome_iff_exists.mp
    (show
      (runSteps hmStreamIterateDevices
        { queued := [], arrivals := [[[5, 6]], [[7]]] }
        [{ bytesReadable := 2, bytesWritable := 9, writableSizes := [1, 0, 1]
           fresh := fun _ => 0 },
          { bytesReadable := 4, bytesWritable := 1, writableSizes := [1]
            fresh := fun _ => 0 }]).isSome by
      decide +kernel)
  have copied := hmStreamDevices_copy (by simp [DeviceTick.bytesAvailable]) ran
  exact ⟨final, iterations, ran, copied.2.1⟩

end Runs

end Hiemal
