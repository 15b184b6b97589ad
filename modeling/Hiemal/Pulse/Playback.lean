import Hiemal.Io.RoundTrip
import Hiemal.Pulse.Defs

/-!
# Writing a buffer to a playback stream

Whatever sizes the server reports, the chunks written to the stream are the bytes
read from the buffer, cut where the server says. The write returns once the
reported sizes add up to the number of bytes.
-/

namespace Hiemal

open Foundation

/-! ## The loop -/

section Loop

variable {paBuf : List UInt8}

@[simp] theorem pulseWriteLoop_zero
    (writableSizes : List Nat)
    (paBufItr : Nat)
    (bytesWritten : Int) :
    pulseWriteLoop paBuf writableSizes 0 paBufItr bytesWritten =
      some ([], bytesWritten) := by
  cases writableSizes <;> simp [pulseWriteLoop]

/-- The loop waits while nothing is writable. -/
theorem pulseWriteLoop_wait
    (writableSizes : List Nat)
    (nBytes paBufItr : Nat)
    (bytesWritten : Int) :
    pulseWriteLoop paBuf (0 :: writableSizes) nBytes paBufItr bytesWritten =
      pulseWriteLoop paBuf writableSizes nBytes paBufItr bytesWritten := by
  rcases Nat.eq_zero_or_pos nBytes with rfl | more
  · rw [pulseWriteLoop_zero, pulseWriteLoop_zero]
  · rw [pulseWriteLoop, if_neg (by omega), if_pos rfl]

/-- One chunk, and the rest of the loop. -/
theorem pulseWriteLoop_write
    {writableBytes nBytes : Nat}
    (writable : writableBytes ≠ 0)
    (more : nBytes ≠ 0)
    (writableSizes : List Nat)
    (paBufItr : Nat)
    (bytesWritten : Int) :
    pulseWriteLoop paBuf (writableBytes :: writableSizes) nBytes paBufItr
        bytesWritten =
      let count := min nBytes writableBytes
      (pulseWriteLoop paBuf writableSizes (nBytes - count) (paBufItr + count)
          (toSigned 32 (bytesWritten + count))).map fun (writes, total) =>
        ({ writable := writableBytes, chunk := load paBuf paBufItr count } ::
          writes, total) := by
  have clamp :
      (if nBytes < writableBytes then nBytes else writableBytes) =
        min nBytes writableBytes := by
    split <;> omega
  rw [pulseWriteLoop, if_neg more, if_neg writable, clamp]
  dsimp only
  generalize min nBytes writableBytes = count
  cases pulseWriteLoop paBuf writableSizes (nBytes - count) (paBufItr + count)
      (toSigned 32 (bytesWritten + count)) <;> rfl

/-- A loop that ends has written the next bytes of the block, in chunks the server
had room for. -/
theorem pulseWriteLoop_writes
    {writableSizes : List Nat}
    {nBytes paBufItr written : Nat}
    {writes : List StreamWrite}
    {bytesWritten : Int}
    (inside : paBufItr + nBytes ≤ paBuf.length)
    (bounded : written + nBytes < 2 ^ 31)
    (returns :
      pulseWriteLoop paBuf writableSizes nBytes paBufItr written =
        some (writes, bytesWritten)) :
    writes.flatMap (·.chunk) = load paBuf paBufItr nBytes ∧
      (∀ write ∈ writes, write.chunk.length ≤ write.writable) ∧
        bytesWritten = (written + nBytes : Nat) := by
  induction writableSizes generalizing nBytes paBufItr written writes with
  | nil =>
      rw [pulseWriteLoop] at returns
      split_ifs at returns with done
      cases returns
      simp [done]
  | cons writableBytes writableSizes inductionHypothesis =>
      by_cases done : nBytes = 0
      · subst done
        rw [pulseWriteLoop_zero] at returns
        cases returns
        simp
      by_cases waits : writableBytes = 0
      · subst waits
        rw [pulseWriteLoop_wait] at returns
        exact inductionHypothesis inside bounded returns
      · rw [pulseWriteLoop_write waits done] at returns
        generalize chosen : min nBytes writableBytes = count at returns
        obtain ⟨⟨later, total⟩, ran, equal⟩ := Option.map_eq_some_iff.mp returns
        obtain ⟨rfl, rfl⟩ := Prod.mk.inj equal
        have stored :
            toSigned 32 ((written : Int) + count) = (written + count : Nat) :=
          toSigned_of_lt 31 (by omega : written + count < 2 ^ 31)
        rw [stored] at ran
        obtain ⟨chunks, fits, totalEq⟩ :=
          inductionHypothesis (by omega) (by omega) ran
        have whole : count + (nBytes - count) = nBytes := by omega
        refine ⟨?_, List.forall_mem_cons.mpr ⟨?_, fits⟩, ?_⟩
        · rw [List.flatMap_cons, chunks, load_append_load, whole]
        · rw [length_load (by omega), ← chosen]
          exact Nat.min_le_right nBytes writableBytes
        · rw [totalEq, Nat.add_assoc, whole]

/-- The loop ends exactly if the reported sizes add up to the number of bytes. -/
theorem pulseWriteLoop_isSome_iff
    (writableSizes : List Nat)
    (nBytes paBufItr : Nat)
    (bytesWritten : Int) :
    (pulseWriteLoop paBuf writableSizes nBytes paBufItr bytesWritten).isSome ↔
      nBytes ≤ writableSizes.sum := by
  induction writableSizes generalizing nBytes paBufItr bytesWritten with
  | nil =>
      rw [pulseWriteLoop, List.sum_nil, Nat.le_zero]
      split_ifs with done <;> simp [done]
  | cons writableBytes writableSizes inductionHypothesis =>
      rw [List.sum_cons]
      by_cases done : nBytes = 0
      · simp [done]
      by_cases waits : writableBytes = 0
      · subst waits
        rw [pulseWriteLoop_wait, inductionHypothesis, Nat.zero_add]
      · rw [pulseWriteLoop_write waits done, Option.isSome_map,
          inductionHypothesis]
        omega

end Loop

/-! ## Whole writes -/

section Writes

variable {capacity : Nat} {buf : Buffer} {items : List UInt8}

/-- What a write reads from its buffer: the request is cut to the bytes held, which
are at the beginning of the block behind `pa_buf`. -/
theorem hmPulseIoWrite_eq
    (capacityBound : capacity < 2 ^ 32)
    (holds : BufferHolds capacity buf items)
    (free : buf.m.locked = false)
    {nBytes : Nat}
    (bounded : nBytes < 2 ^ 31)
    (writableSizes : List Nat)
    (fresh : Nat → UInt8) :
    ∃ call paBuf,
      hmPulseIoWrite writableSizes buf nBytes fresh =
          (pulseWriteLoop paBuf writableSizes (min nBytes items.length) 0 0).map
            (fun (writes, bytesWritten) =>
              { buf := call, writes := writes, rc := bytesWritten }) ∧
        BufferHolds capacity call (items.drop nBytes) ∧
          call.m.locked = false ∧
            paBuf.length = nBytes ∧
              load paBuf 0 (min nBytes items.length) = items.take nBytes := by
  have blockLength := length_resize [] nBytes fresh
  obtain ⟨call, returns, moves⟩ :=
    holds.bufferRead_block capacityBound free blockLength
  have count : call.rc = (min nBytes items.length : Nat) := by
    rw [moves.rc_eq, List.length_take]
    exact toSigned_of_lt 31 (by omega)
  have clamp : clampRequest nBytes call.rc = min nBytes items.length := by
    rw [count, clampRequest, toUnsigned_of_lt 32 (by omega)]
    split <;> omega
  have filled :
      load (store (resize [] nBytes fresh) 0 (items.take nBytes)) 0
          (min nBytes items.length) =
        items.take nBytes := by
    have whole :
        load (store (resize [] nBytes fresh) 0 (items.take nBytes)) 0
            (items.take nBytes).length =
          items.take nBytes :=
      load_store_same (by rw [blockLength, List.length_take]; omega)
    rwa [List.length_take] at whole
  refine ⟨call.buf, store (resize [] nBytes fresh) 0 (items.take nBytes), ?_,
    moves.after, moves.free, ?_, filled⟩
  · rw [hmPulseIoWrite]
    simp only [returns, Option.bind_eq_bind, Option.bind_some, clamp,
      moves.dest_eq, Option.getD_some]
    cases pulseWriteLoop _ _ _ _ _ <;> rfl
  · rw [length_store, blockLength]

/-- A write returns exactly if the server reports enough room in the end. -/
theorem hmPulseIoWrite_isSome_iff
    (capacityBound : capacity < 2 ^ 32)
    (holds : BufferHolds capacity buf items)
    (free : buf.m.locked = false)
    {nBytes : Nat}
    (bounded : nBytes < 2 ^ 31)
    (writableSizes : List Nat)
    (fresh : Nat → UInt8) :
    (hmPulseIoWrite writableSizes buf nBytes fresh).isSome ↔
      min nBytes items.length ≤ writableSizes.sum := by
  obtain ⟨after, paBuf, equal, _⟩ :=
    hmPulseIoWrite_eq capacityBound holds free bounded writableSizes fresh
  rw [equal, Option.isSome_map, pulseWriteLoop_isSome_iff]

/-- If a write returns, the chunks passed to the stream are the bytes removed from
the buffer, in order, each within the writable size reported for it, and their
number is returned. -/
theorem hmPulseIoWrite_writes
    (capacityBound : capacity < 2 ^ 32)
    (holds : BufferHolds capacity buf items)
    (free : buf.m.locked = false)
    {nBytes : Nat}
    (bounded : nBytes < 2 ^ 31)
    {writableSizes : List Nat}
    {fresh : Nat → UInt8}
    {call : PulseWrite}
    (returns : hmPulseIoWrite writableSizes buf nBytes fresh = some call) :
    call.writes.flatMap (·.chunk) = items.take nBytes ∧
      (∀ write ∈ call.writes, write.chunk.length ≤ write.writable) ∧
        BufferHolds capacity call.buf (items.drop nBytes) ∧
          call.buf.m.locked = false ∧
            call.rc = (min nBytes items.length : Nat) := by
  obtain ⟨after, paBuf, equal, afterHolds, afterFree, length, filled⟩ :=
    hmPulseIoWrite_eq capacityBound holds free bounded writableSizes fresh
  rw [equal] at returns
  obtain ⟨⟨writes, total⟩, ran, rfl⟩ := Option.map_eq_some_iff.mp returns
  have ran :
      pulseWriteLoop paBuf writableSizes (min nBytes items.length) 0
          (0 : Nat) =
        some (writes, total) :=
    ran
  obtain ⟨chunks, fits, totalEq⟩ :=
    pulseWriteLoop_writes (by omega) (by omega) ran
  rw [filled] at chunks
  rw [Nat.zero_add] at totalEq
  exact ⟨chunks, fits, afterHolds, afterFree, totalEq⟩

/-- Two of three bytes, written one by one. -/
theorem hmPulseIoWrite_writes_two :
    ∃ call,
      hmPulseIoWrite [0, 1, 0, 5]
          { bufferInitExt 3 .ring [7, 8, 9] with state := .full } 2
          (fun _ => 0) =
        some call ∧
      call.writes.flatMap (·.chunk) = [7, 8] ∧
        (∀ write ∈ call.writes, write.chunk.length ≤ write.writable) ∧
          BufferHolds 3 call.buf [9] ∧
            call.buf.m.locked = false ∧ call.rc = (2 : Nat) := by
  have holds :
      BufferHolds 3 { bufferInitExt 3 .ring [7, 8, 9] with state := .full }
        [7, 8, 9] :=
    bufferHolds_full rfl
  obtain ⟨call, returns⟩ := Option.isSome_iff_exists.mp
    ((hmPulseIoWrite_isSome_iff (by decide) holds rfl
      (by decide : 2 < 2 ^ 31) [0, 1, 0, 5] fun _ => 0).mpr (by decide))
  exact ⟨call, returns,
    hmPulseIoWrite_writes (by decide) holds rfl (by decide) returns⟩

end Writes

end Hiemal
