import Hiemal.Buffer.Held
import Hiemal.Io.Defs

/-!
# Writing a file and reading it back

A sink call appends the memory of its caller to the file, and a source call hands
out the next bytes of it, so what was written in chunks of any sizes is read back
in chunks of any other sizes, in order and to the last byte.
-/

namespace Hiemal

open Foundation

/-! ## Buffers over the memory of a caller -/

section Area

variable {capacity : Nat} {area : List UInt8}

/-- The first write to a ring buffer over the memory of a caller stores its data at
the beginning of the memory. -/
theorem bufferWrite_bufferInitExt
    (capacityBound : capacity < 2 ^ 32)
    {nBytes : Nat}
    (fits : nBytes ≤ capacity)
    (src : List UInt8) :
    ∃ call,
      bufferWrite (bufferInitExt capacity .ring area) src nBytes = some call ∧
        call.buf.buf = store area 0 (src.take nBytes) := by
  by_cases none : nBytes = 0
  · subst none
    refine ⟨_, rfl, ?_⟩
    rw [signalWrite_buf]
    simp [returnEarly, bufferInitExt]
  · let held : Buffer :=
      { bufferInitExt capacity .ring area with m := { locked := true } }
    have clamp : prepareBufWrite held nBytes = nBytes := by
      rw [prepareBufWrite_eq]
      exact Nat.min_eq_left fits
    have linear : rbufLinearBytesWrite held = capacity := by
      have whole := toUnsigned_of_lt 32 capacityBound
      simpa [rbufLinearBytesWrite, held, bufferInitExt, toUnsigned] using whole
    have returns : rbufWrite (bufferInitExt capacity .ring area) src nBytes =
        some (rbufWriteHeld held src nBytes) := by
      rw [rbufWrite, lockedTransfer, if_neg (by simp [bufferInitExt]),
        if_neg none]
      exact congrArg (fun count => some (rbufWriteHeld held src count)) clamp
    refine ⟨_, by
      simp only [bufferWrite, bufferInitExt] at returns ⊢
      rw [returns, Option.map_some], ?_⟩
    rw [signalWrite_buf, rbufWriteHeld, linear]
    dsimp only
    rw [if_neg (Nat.not_lt.mpr fits)]
    exact setBufferState_buf _ 'w'

end Area

/-! ## Single calls -/

/-- The clamp is a minimum, also through the conversion to `int`. -/
theorem clampRequest_eq
    (nBytes : Nat)
    {available : Nat}
    (bounded : available < 2 ^ 32) :
    clampRequest nBytes (toSigned 32 available) = min nBytes available := by
  rw [clampRequest, toUnsigned_toSigned 32 bounded]
  split_ifs <;> omega

/-- The bytes behind the offset of a file shorter than `2 ^ 31` bytes. -/
theorem fdBytesAvailable_eq
    {fd : OpenFile}
    (inside : fd.offset ≤ fd.content.length)
    (small : fd.content.length < 2 ^ 31) :
    fdBytesAvailable fd =
      toSigned 32 ((fd.content.length - fd.offset : Nat) : Int) := by
  rw [fdBytesAvailable, toSigned_of_lt 31 small,
    toSigned_of_lt 31 (by omega : fd.offset < 2 ^ 31), Nat.cast_sub inside]

/-- The sink takes what the buffer holds, up to the request, and writes it to the
descriptor. -/
theorem sinkFdImpl_returns
    {capacity : Nat}
    {src : Buffer}
    {items : List UInt8}
    (capacityBound : capacity < 2 ^ 32)
    (holds : BufferHolds capacity src items)
    (unlocked : src.m.locked = false)
    (nBytes : Nat)
    (fd : OpenFile)
    (fresh : Nat → UInt8) :
    ∃ call,
      sinkFdImpl nBytes src fd fresh = some call ∧
        call.fd = fd.write (items.take nBytes) ∧
          call.rc = toSigned 32 (min nBytes items.length : Nat) := by
  let count := min nBytes items.length
  let tmpBuf := resize [] count fresh
  have clamp :
      clampRequest nBytes (toSigned 32 (bufferNReadBytes src)) = count := by
    have within := holds.length_le
    rw [holds.bufferNReadBytes_eq capacityBound,
      clampRequest_eq nBytes (by omega)]
  have tmpLength : tmpBuf.length = count := length_resize [] count fresh
  have taken : (items.take count).length = count := by
    rw [List.length_take]
    omega
  obtain ⟨call, returns, moves⟩ :=
    holds.bufferRead_block capacityBound unlocked tmpLength
  have filled : call.dest = some (items.take count) := by
    rw [moves.dest_eq, store_resize_nil taken fresh]
  have emitted : items.take count = items.take nBytes := by
    rw [List.take_eq_take_iff]
    omega
  refine ⟨
    { fd := fd.write (items.take nBytes)
      buf := call.buf
      rc := toSigned 32 count }, ?_, by dsimp only, by dsimp only [count]⟩
  rw [sinkFdImpl]
  simp only [clamp, returns, filled, Option.bind_eq_bind, Option.bind_some,
    Option.getD_some, tmpBuf]
  rw [List.take_of_length_le (Nat.le_of_eq taken), emitted]
  rfl

/-- The data of a `sink_fd` call. -/
def FdRequest.data (request : FdRequest) : List UInt8 :=
  request.buf.take request.nBytes

/-- A sink call writes the memory of its caller to the descriptor. -/
theorem sinkFd_returns
    (fd : OpenFile)
    {request : FdRequest}
    (supplied : request.Supplied) :
    sinkFd fd request =
      some (fd.write request.data, toSigned 32 request.nBytes) := by
  obtain ⟨enough, bounded⟩ := supplied
  have length : request.data.length = request.nBytes :=
    List.length_take_of_le enough
  obtain ⟨call, returns, written, rc⟩ :=
    sinkFdImpl_returns bounded (bufferHolds_full length) rfl request.nBytes fd
      request.fresh
  rw [List.take_of_length_le (Nat.le_of_eq length)] at written
  rw [length, Nat.min_self] at rc
  simp only [FdRequest.data] at returns written ⊢
  simp only [sinkFd, returns, Option.bind_eq_bind, Option.bind_some, written, rc]
  rfl

/-- The source writes the next bytes of the file, up to the request, to the memory
its buffer is over. -/
theorem srcFdImpl_returns
    {fd advanced : OpenFile}
    {nBytes : Nat}
    {data : List UInt8}
    (inside : fd.offset ≤ fd.content.length)
    (small : fd.content.length < 2 ^ 31)
    (bounded : nBytes < 2 ^ 32)
    (read : fd.read nBytes = (advanced, data))
    (area : List UInt8)
    (fresh : Nat → UInt8) :
    ∃ call,
      srcFdImpl nBytes fd (bufferInitExt nBytes .ring area) fresh =
          some call ∧
        call.fd = advanced ∧
          call.rc = data.length ∧ call.buf.buf = store area 0 data := by
  have length := length_read fd nBytes
  rw [read] at length
  have clamp :
      clampRequest nBytes (fdBytesAvailable fd) =
        min nBytes (fd.content.length - fd.offset) := by
    rw [fdBytesAvailable_eq inside small, clampRequest_eq _ (by omega)]
  obtain ⟨call, returns, written⟩ :=
    bufferWrite_bufferInitExt bounded
      (Nat.min_le_left nBytes (fd.content.length - fd.offset)) data
  rw [List.take_of_length_le (Nat.le_of_eq length)] at written
  refine ⟨{ fd := advanced, buf := call.buf, rc := data.length }, ?_, by
    dsimp only, by dsimp only, written⟩
  have rc :
      toSigned 32 (min nBytes (fd.content.length - fd.offset) : Nat) =
        (data.length : Int) := by
    rw [length, toSigned_of_lt 31 (by omega)]
  rw [srcFdImpl]
  simp only [clamp, read_clamped, read, store_resize_nil length fresh,
    returns, rc, Option.bind_eq_bind, Option.bind_some]
  rfl

/-- A source call advances the descriptor, returns the number of bytes read and puts
them at the beginning of its caller's memory. -/
theorem srcFd_returns
    {fd advanced : OpenFile}
    {request : FdRequest}
    {data : List UInt8}
    (inside : fd.offset ≤ fd.content.length)
    (small : fd.content.length < 2 ^ 31)
    (supplied : request.Supplied)
    (read : fd.read request.nBytes = (advanced, data)) :
    srcFd fd request =
      some (advanced,
        { rc := data.length, buf := store request.buf 0 data }) := by
  obtain ⟨enough, bounded⟩ := supplied
  have length := length_read fd request.nBytes
  rw [read] at length
  obtain ⟨call, returns, moved, rc, written⟩ :=
    srcFdImpl_returns inside small bounded read
      (request.buf.take request.nBytes) request.fresh
  have whole :
      call.buf.buf ++ request.buf.drop request.nBytes =
        store request.buf 0 data := by
    rw [written]
    apply store_take_append_drop _ enough
    rw [length]
    exact Nat.min_le_left _ _
  simp only [srcFd, returns, moved, rc, whole, Option.bind_eq_bind,
    Option.bind_some]
  rfl

/-! ## Runs of calls -/

/-- A run of sink calls at the end of a file appends the memory of its callers. -/
theorem sinkFd_run
    {writes : List FdRequest}
    (supplied : ∀ request ∈ writes, request.Supplied)
    (content : List UInt8) :
    runSteps sinkFd { content := content, offset := content.length } writes =
      some
        ({ content := content ++ writes.flatMap FdRequest.data
           offset := (content ++ writes.flatMap FdRequest.data).length },
          writes.map fun request => toSigned 32 request.nBytes) := by
  induction writes generalizing content with
  | nil => simp [runSteps]
  | cons request writes inductionHypothesis =>
      rw [List.forall_mem_cons] at supplied
      rw [runSteps, sinkFd_returns _ supplied.1, write_at_end]
      simp only [Option.bind_eq_bind, Option.bind_some,
        inductionHypothesis supplied.2, List.flatMap_cons, List.append_assoc,
        List.map_cons]

/-- The reply that hands out a chunk. -/
def SrcFdReply.filled
    (request : FdRequest)
    (chunk : List UInt8) : SrcFdReply where
  rc := chunk.length
  buf := store request.buf 0 chunk

/-- A run of source calls cuts what is left of the file at the requested counts. -/
theorem srcFd_run
    {reads : List FdRequest}
    (supplied : ∀ request ∈ reads, request.Supplied)
    {fd : OpenFile}
    (inside : fd.offset ≤ fd.content.length)
    (small : fd.content.length < 2 ^ 31) :
    ∃ final,
      runSteps srcFd fd reads =
        some (final,
          List.zipWith SrcFdReply.filled reads
            ((reads.map FdRequest.nBytes).splitLengths
              (fd.content.drop fd.offset))) := by
  induction reads generalizing fd with
  | nil => exact ⟨fd, rfl⟩
  | cons request reads inductionHypothesis =>
      rw [List.forall_mem_cons] at supplied
      obtain ⟨advanced, data, read⟩ :
          ∃ advanced data, fd.read request.nBytes = (advanced, data) :=
        ⟨_, _, rfl⟩
      obtain ⟨front, content, rest⟩ := read_eq read
      have length := length_read fd request.nBytes
      rw [read] at length
      have offset : advanced.offset = fd.offset + data.length := by
        cases read
        rfl
      obtain ⟨final, ran⟩ :=
        inductionHypothesis supplied.2
          (by rw [content, offset, length]; omega : advanced.offset ≤
            advanced.content.length)
          (by rw [content]; exact small)
      refine ⟨final, ?_⟩
      rw [runSteps, srcFd_returns inside small supplied.1 read]
      simp only [Option.bind_eq_bind, Option.bind_some, ran, rest]
      rw [List.map_cons, List.splitLengths_cons, List.zipWith_cons_cons, ← front,
        SrcFdReply.filled]

/-- Each request is at most as long as all that is written. -/
theorem nBytes_le_written
    {writes : List FdRequest}
    {request : FdRequest}
    (supplied : request.Supplied)
    (member : request ∈ writes) :
    request.nBytes ≤ (writes.flatMap FdRequest.data).length := by
  have length : request.data.length = request.nBytes :=
    List.length_take_of_le supplied.1
  rw [← length, List.length_flatMap]
  exact List.single_le_sum (by simp) _ (List.mem_map_of_mem member)

/-- What was written to an empty file in chunks of any sizes is, after rewinding,
read back in chunks of any sizes. The chunks handed out are consecutive parts of the
content; each has the requested length, or what remains where that is less, and is
at the beginning of the memory of its caller, the rest of which is unchanged. -/
theorem fd_roundTrip
    (writes reads : List FdRequest)
    (writesSupplied : ∀ request ∈ writes, request.Supplied)
    (readsSupplied : ∀ request ∈ reads, request.Supplied)
    (small : (writes.flatMap FdRequest.data).length < 2 ^ 31) :
    let content := writes.flatMap FdRequest.data
    let sizes := reads.map FdRequest.nBytes
    let chunks := sizes.splitLengths content
    ∃ written final,
      runSteps sinkFd OpenFile.empty writes =
          some (written, writes.map fun request => (request.nBytes : Int)) ∧
        written.content = content ∧
        runSteps srcFd written.rewind reads =
          some (final, List.zipWith SrcFdReply.filled reads chunks) ∧
        chunks.flatten = content.take sizes.sum ∧
        ∀ index chunk, chunks[index]? = some chunk →
          ∃ request, reads[index]? = some request ∧
            chunk.length =
              min request.nBytes
                (content.length - (sizes.take index).sum) := by
  intro content sizes chunks
  have codes :
      (writes.map fun request => toSigned 32 request.nBytes) =
        writes.map fun request => (request.nBytes : Int) := by
    apply List.map_congr_left
    intro request member
    have bound := nBytes_le_written (writesSupplied request member) member
    exact toSigned_of_lt 31 (by omega)
  have wrote := sinkFd_run writesSupplied []
  rw [codes] at wrote
  obtain ⟨final, ran⟩ :=
    srcFd_run readsSupplied
      (show (OpenFile.mk content 0).offset ≤ content.length from
        Nat.zero_le _) small
  refine ⟨_, final, wrote, rfl, ran,
    flatten_splitLengths_eq_take sizes content, ?_⟩
  intro index chunk cut
  simp only [chunks] at cut
  rw [getElem?_splitLengths, List.getElem?_map, Option.map_map] at cut
  obtain ⟨request, found, rfl⟩ := Option.map_eq_some_iff.mp cut
  refine ⟨request, found, ?_⟩
  simp only [Function.comp_apply, load, List.length_take, List.length_drop]

/-- Five bytes written as two and three, and read back as one, none, three and, with
one left, four. -/
theorem fd_roundTrip_five :
    let request (nBytes : Nat) : FdRequest :=
      { nBytes := nBytes, buf := [1, 2, 3, 4, 5], fresh := fun _ => 0 }
    ∃ written final,
      runSteps sinkFd OpenFile.empty [request 2, request 3] =
          some (written, [2, 3]) ∧
        written.content = [1, 2, 1, 2, 3] ∧
        runSteps srcFd written.rewind
            [request 1, request 0, request 3, request 4] =
          some (final,
            [⟨1, [1, 2, 3, 4, 5]⟩, ⟨0, [1, 2, 3, 4, 5]⟩,
              ⟨3, [2, 1, 2, 4, 5]⟩, ⟨1, [3, 2, 3, 4, 5]⟩]) := by
  intro request
  obtain ⟨written, final, wrote, content, read, _⟩ :=
    fd_roundTrip [request 2, request 3]
      [request 1, request 0, request 3, request 4]
      (by simp [request, FdRequest.Supplied])
      (by simp [request, FdRequest.Supplied])
      (by simp [request, FdRequest.data])
  exact ⟨written, final, wrote, content, read⟩

end Hiemal
