import Hiemal.Pulse.Capture
import Hiemal.Pulse.Playback

/-!
# A buffer between two devices

`device_io_read_ext` appends what a device records to a buffer, and
`device_io_write_ext` plays what is in one. In between, the program reads and writes
the buffer itself. Whatever the order of these uses, and whatever the server does
meanwhile, the buffer passes each byte on once and in order.
-/

namespace Hiemal

open Foundation

/-- A use of the buffer. With a transfer to the playback device come the sizes that
the server reports as writable, and the cells of the block allocated for it. -/
inductive DeviceUse
  | write (src : List UInt8) (nBytes : ℕ)
  | read (dest : List UInt8) (nBytes : ℕ)
  /-- `device_io_read_ext`, from the recording device. -/
  | record (nBytes : ℕ)
  /-- `device_io_write_ext`, to the playback device. -/
  | play (nBytes : ℕ) (writableSizes : List ℕ) (fresh : ℕ → UInt8)

/-- The record stream and the buffer. -/
structure BetweenDevices where
  stream : RecordStream
  buf : Buffer

/-- What a use has passed on. -/
structure Passage where
  /-- The bytes put into the buffer. -/
  entered : List UInt8
  /-- The bytes taken out of the buffer, to the caller's block or to the playback
  stream. -/
  left : List UInt8
  /-- The bytes taken from the record stream. -/
  captured : List UInt8
  rc : ℤ

/-- Execute one use. -/
def betweenDevicesStep (state : BetweenDevices) :
    DeviceUse → Option (BetweenDevices × Passage)
  | .write src nBytes =>
      (bufferWrite state.buf src nBytes).map fun call =>
        ({ state with buf := call.buf },
          { entered := src.take call.rc.toNat
            left := []
            captured := []
            rc := call.rc })
  | .read dest nBytes =>
      (bufferRead state.buf (some dest) nBytes).map fun call =>
        ({ state with buf := call.buf },
          { entered := []
            left := (call.dest.getD dest).take call.rc.toNat
            captured := []
            rc := call.rc })
  | .record nBytes =>
      (hmPulseIoRead state.stream state.buf nBytes).map fun call =>
        ({ stream := call.stream, buf := call.buf },
          { entered := call.recorded
            left := []
            captured := call.recorded
            rc := call.rc })
  | .play nBytes writableSizes fresh =>
      (hmPulseIoWrite writableSizes state.buf nBytes fresh).map fun call =>
        ({ state with buf := call.buf },
          { entered := []
            left := call.writes.flatMap (·.chunk)
            captured := []
            rc := call.rc })

/-- The caller's blocks are as large as the calls on them say, and the request for a
transfer to the playback device is an `int`. -/
def DeviceUse.Supplied : DeviceUse → Prop
  | .write src nBytes => nBytes ≤ src.length
  | .read dest nBytes => nBytes ≤ dest.length
  | .record _ => True
  | .play nBytes _ _ => nBytes < 2 ^ 31

section Uses

variable {capacity : ℕ} {state next final : BetweenDevices} {items : List UInt8}

/-- One use takes the oldest bytes out of the buffer and puts others behind the rest,
and takes what it records from the record stream in order. -/
structure PassesOn
    (capacity : ℕ)
    (before after : BetweenDevices)
    (items rest : List UInt8)
    (passage : Passage) : Prop where
  holds : BufferHolds capacity after.buf rest
  free : after.buf.m.locked = false
  order : passage.left ++ rest = items ++ passage.entered
  captures :
    (passage.captured ++ after.stream.fragments.flatten).Sublist
      before.stream.fragments.flatten
  returned : passage.rc = (passage.entered.length + passage.left.length : ℕ)

theorem passesOn_write
    (capacityBound : capacity < 2 ^ 31)
    (holds : BufferHolds capacity state.buf items)
    (free : state.buf.m.locked = false)
    {src : List UInt8}
    {nBytes : ℕ}
    (supplied : nBytes ≤ src.length)
    {passage : Passage}
    (stepped : betweenDevicesStep state (.write src nBytes) = some (next, passage)) :
    ∃ rest, PassesOn capacity state next items rest passage := by
  have cells : capacity < 2 ^ 32 := capacityBound.trans (by decide)
  obtain ⟨call, returns, moves⟩ :=
    holds.call cells free (.write src nBytes) supplied
  simp only [BufferIo.call] at returns
  rw [betweenDevicesStep, returns, Option.map_some, Option.some_inj,
    Prod.mk.injEq] at stepped
  obtain ⟨rfl, rfl⟩ := stepped
  have room := holds.bufferNWriteBytes_le cells
  have count : call.rc = (min nBytes (bufferNWriteBytes state.buf) : ℕ) := by
    rw [moves.rc_eq]
    exact toSigned_of_lt 31 (by simp only [BufferIo.count]; omega)
  refine ⟨_, moves.after, moves.free, ?_, List.Sublist.refl _, ?_⟩
  · rw [count, Int.toNat_natCast]
    rfl
  · have entered :
        (src.take (min nBytes (bufferNWriteBytes state.buf))).length =
          min nBytes (bufferNWriteBytes state.buf) := by
      rw [List.length_take]
      omega
    rw [count, Int.toNat_natCast, entered, List.length_nil, Nat.add_zero]

theorem passesOn_read
    (capacityBound : capacity < 2 ^ 31)
    (holds : BufferHolds capacity state.buf items)
    (free : state.buf.m.locked = false)
    {dest : List UInt8}
    {nBytes : ℕ}
    (supplied : nBytes ≤ dest.length)
    {passage : Passage}
    (stepped : betweenDevicesStep state (.read dest nBytes) = some (next, passage)) :
    ∃ rest, PassesOn capacity state next items rest passage := by
  have cells : capacity < 2 ^ 32 := capacityBound.trans (by decide)
  obtain ⟨call, returns, moves⟩ :=
    holds.call cells free (.read (some dest) nBytes) (by
      rintro block ⟨⟩
      exact supplied)
  simp only [BufferIo.call] at returns
  rw [betweenDevicesStep, returns, Option.map_some, Option.some_inj,
    Prod.mk.injEq] at stepped
  obtain ⟨rfl, rfl⟩ := stepped
  have bounded := holds.length_le
  have count : call.rc = (items.take nBytes).length := by
    rw [moves.rc_eq, BufferIo.count, holds.bufferNReadBytes_eq cells,
      List.length_take]
    exact toSigned_of_lt 31 (by omega)
  have delivers :
      (call.dest.getD dest).take call.rc.toNat = items.take nBytes := by
    rw [count, Int.toNat_natCast, moves.dest_eq]
    have fits : 0 + (items.take nBytes).length ≤ dest.length := by
      rw [List.length_take]
      omega
    have front := load_store_same fits
    rwa [load_zero] at front
  refine ⟨_, moves.after, moves.free, ?_, List.Sublist.refl _, ?_⟩
  · rw [delivers, List.append_nil]
    exact List.take_append_drop nBytes items
  · rw [delivers, count, List.length_nil, Nat.zero_add]

theorem passesOn_record
    (capacityBound : capacity < 2 ^ 31)
    (holds : BufferHolds capacity state.buf items)
    (free : state.buf.m.locked = false)
    {nBytes : ℕ}
    {passage : Passage}
    (stepped : betweenDevicesStep state (.record nBytes) = some (next, passage)) :
    ∃ rest, PassesOn capacity state next items rest passage := by
  have cells : capacity < 2 ^ 32 := capacityBound.trans (by decide)
  obtain ⟨call, returns, equal⟩ := Option.map_eq_some_iff.mp stepped
  rw [Prod.mk.injEq] at equal
  obtain ⟨rfl, rfl⟩ := equal
  have within := holds.bufferNWriteBytes_le cells
  rw [hmPulseIoRead, clampRequest_eq _ (by omega), ← toSigned_zero 32] at returns
  obtain ⟨after, unlocked, taken, length, rc⟩ :=
    pulseReadLoop_reads cells ⟨holds, rfl⟩ free (Nat.min_le_right _ _) returns
  have count : call.rc = (min nBytes (bufferNWriteBytes state.buf) : ℕ) := by
    rw [rc, Int.zero_add]
    exact toSigned_of_lt 31 (by omega)
  refine ⟨_, after, unlocked, rfl, ?_, ?_⟩
  · have kept :=
      takeFragments_sublist (state.stream.queued ++ state.stream.arrivals.flatten)
        (min nBytes (bufferNWriteBytes state.buf))
    rwa [taken] at kept
  · rw [count, length, List.length_nil, Nat.add_zero]

theorem passesOn_play
    (capacityBound : capacity < 2 ^ 31)
    (holds : BufferHolds capacity state.buf items)
    (free : state.buf.m.locked = false)
    {nBytes : ℕ}
    (supplied : nBytes < 2 ^ 31)
    {writableSizes : List ℕ}
    {fresh : ℕ → UInt8}
    {passage : Passage}
    (stepped :
      betweenDevicesStep state (.play nBytes writableSizes fresh) =
        some (next, passage)) :
    ∃ rest, PassesOn capacity state next items rest passage := by
  have cells : capacity < 2 ^ 32 := capacityBound.trans (by decide)
  obtain ⟨call, returns, equal⟩ := Option.map_eq_some_iff.mp stepped
  rw [Prod.mk.injEq] at equal
  obtain ⟨rfl, rfl⟩ := equal
  obtain ⟨chunks, _, after, unlocked, rc⟩ :=
    hmPulseIoWrite_writes cells holds free supplied returns
  refine ⟨_, after, unlocked, ?_, List.Sublist.refl _, ?_⟩
  · rw [chunks, List.append_nil]
    exact List.take_append_drop nBytes items
  · rw [chunks, rc, List.length_take, List.length_nil, Nat.zero_add]

/-- Every use passes on. -/
theorem betweenDevicesStep_passesOn
    (capacityBound : capacity < 2 ^ 31)
    (holds : BufferHolds capacity state.buf items)
    (free : state.buf.m.locked = false)
    {use : DeviceUse}
    (supplied : use.Supplied)
    {passage : Passage}
    (stepped : betweenDevicesStep state use = some (next, passage)) :
    ∃ rest, PassesOn capacity state next items rest passage := by
  cases use with
  | write src nBytes => exact passesOn_write capacityBound holds free supplied stepped
  | read dest nBytes => exact passesOn_read capacityBound holds free supplied stepped
  | record nBytes => exact passesOn_record capacityBound holds free stepped
  | play nBytes writableSizes fresh =>
      exact passesOn_play capacityBound holds free supplied stepped

/-- **A buffer between two devices is a queue.** In every run of uses, the bytes that
leave the buffer are those that were in it and those that enter it, in order, up to
what it still holds; those recorded keep the order of the record stream, none twice;
and every use returns the number of bytes it passed on. -/
theorem betweenDevices_pass
    (capacityBound : capacity < 2 ^ 31)
    (holds : BufferHolds capacity state.buf items)
    (free : state.buf.m.locked = false)
    {uses : List DeviceUse}
    (supplied : ∀ use ∈ uses, use.Supplied)
    {passages : List Passage}
    (ran : runSteps betweenDevicesStep state uses = some (final, passages)) :
    ∃ rest,
      BufferHolds capacity final.buf rest ∧
        final.buf.m.locked = false ∧
        passages.flatMap (·.left) ++ rest =
          items ++ passages.flatMap (·.entered) ∧
        (passages.flatMap (·.captured) ++ final.stream.fragments.flatten).Sublist
          state.stream.fragments.flatten ∧
        ∀ passage ∈ passages,
          passage.rc = (passage.entered.length + passage.left.length : ℕ) := by
  induction uses generalizing state items passages with
  | nil =>
      cases ran
      refine ⟨items, holds, free, ?_, List.Sublist.refl _, ?_⟩
      · simp only [List.flatMap_nil, List.nil_append, List.append_nil]
      · intro passage listed
        cases listed
  | cons use uses ih =>
      obtain ⟨next, passage, later, stepped, laterRan, rfl⟩ :=
        runSteps_cons_eq_some.mp ran
      rw [List.forall_mem_cons] at supplied
      obtain ⟨between, passes⟩ :=
        betweenDevicesStep_passesOn capacityBound holds free supplied.1 stepped
      obtain ⟨rest, after, unlocked, order, captures, returned⟩ :=
        ih passes.holds passes.free supplied.2 laterRan
      refine ⟨rest, after, unlocked, ?_, ?_, ?_⟩
      · rw [List.flatMap_cons, List.flatMap_cons, List.append_assoc, order,
          ← List.append_assoc, passes.order, List.append_assoc]
      · rw [List.flatMap_cons, List.append_assoc]
        exact (captures.append_left passage.captured).trans passes.captures
      · exact List.forall_mem_cons.mpr ⟨passes.returned, returned⟩

/-- Two bytes are recorded and one is written before two of the three are played. -/
theorem betweenDevices_pass_mixed :
    ∃ final passages rest,
      runSteps betweenDevicesStep
          { stream := { queued := [], arrivals := [[[5, 6], [7]]] }
            buf := bufferInit 4 .ring }
          [.record 2, .write [8] 1, .play 2 [0, 1, 1] fun _ => 0] =
        some (final, passages) ∧
      BufferHolds 4 final.buf rest ∧
        passages.flatMap (·.left) ++ rest =
          [] ++ passages.flatMap (·.entered) ∧
        (passages.flatMap (·.captured) ++ final.stream.fragments.flatten).Sublist
          [5, 6, 7] := by
  obtain ⟨⟨final, passages⟩, ran⟩ := Option.isSome_iff_exists.mp
    (show
      (runSteps betweenDevicesStep
        { stream := { queued := [], arrivals := [[[5, 6], [7]]] }
          buf := bufferInit 4 .ring }
        [.record 2, .write [8] 1, .play 2 [0, 1, 1] fun _ => 0]).isSome by
      decide +kernel)
  obtain ⟨rest, after, _, order, captures, _⟩ :=
    betweenDevices_pass (by decide) (bufferHolds_bufferInit 4 .ring) rfl
      (by simp [DeviceUse.Supplied]) ran
  exact ⟨final, passages, rest, ran, after, order, captures⟩

end Uses

end Hiemal
