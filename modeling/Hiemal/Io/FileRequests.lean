import Hiemal.Io.RoundTrip
import Hiemal.Ops.FileSource

/-!
# Successive calls of the file source

`src_file` reduces its request to what is left behind the offset of the descriptor
and then reads from the stream, whose descriptor is at the end of the last block
read ahead. What is buffered in the stream is delivered only as far as there is as
much behind the descriptor.
-/

namespace Hiemal

open Foundation

/-- The outcome of a source over a stream: the stream, the buffer and the C return
value. -/
structure FileCall where
  f : FileStream
  buf : Buffer
  rc : Int

/-- `src_file_impl`; `fresh` are the cells of the temporary block. -/
def srcFileImpl
    (blockSize nBytes : Nat)
    (f : FileStream)
    (buf : Buffer)
    (fresh : Nat → UInt8) : Option FileCall := do
  let nBytes := clampRequest nBytes (fdBytesAvailable f.fd)
  let tmpBuf := resize [] nBytes fresh
  let (f, data) := fread blockSize f nBytes
  let tmpBuf := store tmpBuf 0 data
  let call ← bufferWrite buf tmpBuf nBytes
  return { f := f, buf := call.buf, rc := toSigned 32 nBytes }

/-- `src_file`. The buffer handle covers the first `n_bytes` cells of the caller's
memory. -/
def srcFile (blockSize : Nat) (f : FileStream) (request : FdRequest) :
    Option (FileStream × SrcFdReply) := do
  let area := request.buf.take request.nBytes
  let dest := bufferInitExt request.nBytes .ring area
  let call ← srcFileImpl blockSize request.nBytes f dest request.fresh
  return (call.f,
    { rc := call.rc
      buf := call.buf.buf ++ request.buf.drop request.nBytes })

/-- The calls deliver the file in order: each returns what it was asked for or, at
the end of the file, what is not delivered yet, and has these bytes at the beginning
of its caller's memory. -/
def DeliversFile
    (blockSize : Nat)
    (content : List UInt8)
    (requests : List FdRequest) : Prop :=
  ∃ final,
    runSteps (srcFile blockSize) (fopen content) requests =
      some (final,
        List.zipWith SrcFdReply.filled requests
          ((requests.map FdRequest.nBytes).splitLengths content))

/-- Before the end of the file, every request starts where a block does or asks for
no more than there is behind the blocks of the bytes requested before it. -/
def WithinBlocks (blockSize length : Nat) : (before : Nat) → List Nat → Prop
  | _, [] => True
  | before, nBytes :: sizes =>
      (before < length →
        blockSize ∣ before ∨ nBytes ≤ length - wholeBlocks blockSize before) ∧
        WithinBlocks blockSize length (before + nBytes) sizes

instance decidableWithinBlocks
    (blockSize length : Nat) :
    (before : Nat) → (sizes : List Nat) →
      Decidable (WithinBlocks blockSize length before sizes)
  | _, [] => isTrue trivial
  | before, nBytes :: sizes =>
      @instDecidableAnd _ _ inferInstance
        (decidableWithinBlocks blockSize length (before + nBytes) sizes)

/-! ## Single calls -/

section Calls

variable {blockSize delivered : Nat} {content : List UInt8} {f : FileStream}

/-- The blocks of some bytes end with them exactly where a block does. -/
theorem wholeBlocks_eq_self_iff
    (positive : 0 < blockSize)
    (nBytes : Nat) :
    wholeBlocks blockSize nBytes = nBytes ↔ blockSize ∣ nBytes := by
  constructor
  · intro same
    rw [← same]
    exact Nat.dvd_mul_right blockSize _
  · rintro ⟨count, rfl⟩
    apply Nat.le_antisymm
    · exact (wholeBlocks_le_iff positive _ _).mpr (Nat.le_refl _)
    · exact le_wholeBlocks positive _

/-- The number of bytes a call delivers: the request, reduced to what is behind the
blocks read. -/
theorem ReadTo.clampRequest_eq
    (readTo : ReadTo blockSize content delivered f)
    (small : content.length < 2 ^ 31)
    (nBytes : Nat) :
    clampRequest nBytes (fdBytesAvailable f.fd) =
      min nBytes (content.length - wholeBlocks blockSize delivered) := by
  have inside : f.fd.offset ≤ f.fd.content.length := by
    rw [readTo.content_eq, readTo.offset_eq]
    exact Nat.min_le_right _ _
  have smallFile : f.fd.content.length < 2 ^ 31 := by
    rwa [readTo.content_eq]
  have left :
      f.fd.content.length - f.fd.offset =
        content.length - wholeBlocks blockSize delivered := by
    rw [readTo.content_eq, readTo.offset_eq]
    omega
  rw [fdBytesAvailable_eq inside smallFile, left,
    Hiemal.clampRequest_eq _ (by omega)]

/-- The source delivers the next bytes of the file, as many as are behind the blocks
read, to the memory its buffer is over. -/
theorem ReadTo.srcFileImpl
    (positive : 0 < blockSize)
    (readTo : ReadTo blockSize content delivered f)
    (small : content.length < 2 ^ 31)
    {nBytes count : Nat}
    (bounded : nBytes < 2 ^ 32)
    (clamped :
      min nBytes (content.length - wholeBlocks blockSize delivered) = count)
    (area : List UInt8)
    (fresh : Nat → UInt8) :
    ∃ call,
      Hiemal.srcFileImpl blockSize nBytes f (bufferInitExt nBytes .ring area)
          fresh = some call ∧
        ReadTo blockSize content (delivered + count) call.f ∧
          call.rc = count ∧
            call.buf.buf =
              store area 0 ((content.drop delivered).take count) := by
  have covers := le_wholeBlocks positive delivered
  have within := readTo.within
  have there : delivered + count ≤ content.length := by omega
  obtain ⟨nextReadTo, read⟩ := readTo.fread positive there
  have length : ((content.drop delivered).take count).length = count := by
    rw [List.length_take, List.length_drop]
    omega
  obtain ⟨call, returns, written⟩ :=
    @bufferWrite_bufferInitExt nBytes area bounded count (by omega)
      ((content.drop delivered).take count)
  rw [List.take_of_length_le (Nat.le_of_eq length)] at written
  have rc : toSigned 32 count = (count : Int) :=
    toSigned_of_lt 31 (by omega : count < 2 ^ 31)
  refine ⟨
    { f := (Hiemal.fread blockSize f count).1, buf := call.buf, rc := count },
    ?_, nextReadTo, rfl, written⟩
  rw [Hiemal.srcFileImpl]
  simp only [readTo.clampRequest_eq small, clamped, read,
    store_resize_nil length, returns, rc, Option.bind_eq_bind,
    Option.bind_some]
  rfl

/-- A call returns how many bytes it delivers, and puts them at the beginning of its
caller's memory. -/
theorem ReadTo.srcFile
    (positive : 0 < blockSize)
    (readTo : ReadTo blockSize content delivered f)
    (small : content.length < 2 ^ 31)
    {request : FdRequest}
    (supplied : request.Supplied)
    {count : Nat}
    (clamped :
      min request.nBytes (content.length - wholeBlocks blockSize delivered) =
        count) :
    ∃ next,
      Hiemal.srcFile blockSize f request =
          some (next,
            SrcFdReply.filled request ((content.drop delivered).take count)) ∧
        ReadTo blockSize content (delivered + count) next := by
  obtain ⟨enough, bounded⟩ := supplied
  have covers := le_wholeBlocks positive delivered
  have length : ((content.drop delivered).take count).length = count := by
    rw [List.length_take, List.length_drop]
    omega
  obtain ⟨call, returns, nextReadTo, rc, written⟩ :=
    readTo.srcFileImpl positive small bounded clamped
      (request.buf.take request.nBytes) request.fresh
  have whole :
      call.buf.buf ++ request.buf.drop request.nBytes =
        store request.buf 0 ((content.drop delivered).take count) := by
    rw [written]
    apply store_take_append_drop _ enough
    omega
  refine ⟨call.f, ?_, nextReadTo⟩
  rw [Hiemal.srcFile]
  simp only [returns, rc, whole, Option.bind_eq_bind, Option.bind_some,
    Option.pure_def, SrcFdReply.filled, length]

end Calls

/-! ## Runs of calls -/

section Runs

variable {blockSize : Nat} {content : List UInt8}

/-- Of a request behind some bytes, what is behind their blocks is all there is
exactly if they end where a block does or the request asks for no more. -/
theorem min_behind_blocks_iff
    (positive : 0 < blockSize)
    (nBytes before length : Nat) :
    min nBytes (length - wholeBlocks blockSize (min before length)) =
        min nBytes (length - before) ↔
      (before < length →
        blockSize ∣ before ∨
          nBytes ≤ length - wholeBlocks blockSize before) := by
  by_cases short : before < length
  · have covers := le_wholeBlocks positive before
    rw [Nat.min_eq_left (Nat.le_of_lt short),
      ← wholeBlocks_eq_self_iff positive]
    omega
  · have covers := le_wholeBlocks positive length
    rw [Nat.min_eq_right (Nat.le_of_not_lt short)]
    omega

/-- A reply is that to a request exactly if it delivers as many bytes as the request
asks for and are left. -/
theorem filled_eq_filled_iff
    (request : FdRequest)
    {before count : Nat}
    (there : min before content.length + count ≤ content.length) :
    SrcFdReply.filled request
          ((content.drop (min before content.length)).take count) =
        SrcFdReply.filled request
          ((content.drop before).take request.nBytes) ↔
      count = min request.nBytes (content.length - before) := by
  constructor
  · intro same
    have codes := Int.ofNat.inj (congrArg SrcFdReply.rc same)
    rw [List.length_take, List.length_take, List.length_drop,
      List.length_drop] at codes
    omega
  · intro same
    have front :
        content.drop (min before content.length) = content.drop before := by
      apply List.drop_eq_drop_iff.mpr
      omega
    rw [front, List.take_eq_take_iff.mpr]
    rw [List.length_drop]
    omega

/-- From any bytes on, a run of calls cuts what is left of the file at the requested
counts exactly if its requests are within blocks. -/
theorem srcFile_run_iff
    (positive : 0 < blockSize)
    (small : content.length < 2 ^ 31)
    {before : Nat}
    {f : FileStream}
    (readTo : ReadTo blockSize content (min before content.length) f)
    {requests : List FdRequest}
    (supplied : ∀ request ∈ requests, request.Supplied) :
    (∃ final,
      runSteps (srcFile blockSize) f requests =
        some (final,
          List.zipWith SrcFdReply.filled requests
            ((requests.map FdRequest.nBytes).splitLengths
              (content.drop before)))) ↔
      WithinBlocks blockSize content.length before
        (requests.map FdRequest.nBytes) := by
  induction requests generalizing before f with
  | nil => exact ⟨fun _ => trivial, fun _ => ⟨f, rfl⟩⟩
  | cons request requests inductionHypothesis =>
      rw [List.forall_mem_cons] at supplied
      obtain ⟨count, clamped⟩ :
          ∃ count,
            min request.nBytes
                (content.length -
                  wholeBlocks blockSize (min before content.length)) =
              count :=
        ⟨_, rfl⟩
      have covers :=
        le_wholeBlocks positive (min before content.length)
      obtain ⟨next, stepped, nextReadTo⟩ :=
        readTo.srcFile positive small supplied.1 clamped
      rw [List.map_cons, List.splitLengths_cons, List.zipWith_cons_cons,
        exists_runSteps_cons_iff stepped, WithinBlocks,
        ← min_behind_blocks_iff positive, clamped, List.drop_drop]
      rw [filled_eq_filled_iff request (by omega)]
      apply and_congr_right
      intro same
      apply inductionHypothesis _ supplied.2
      rw [show min (before + request.nBytes) content.length =
        min before content.length + count by omega]
      exact nextReadTo

/-- Successive calls on a freshly opened file deliver it in order exactly if every
request is within blocks. -/
theorem deliversFile_iff_withinBlocks
    (positive : 0 < blockSize)
    (small : content.length < 2 ^ 31)
    {requests : List FdRequest}
    (supplied : ∀ request ∈ requests, request.Supplied) :
    DeliversFile blockSize content requests ↔
      WithinBlocks blockSize content.length 0
        (requests.map FdRequest.nBytes) := by
  have start :
      ReadTo blockSize content (min 0 content.length) (fopen content) := by
    rw [Nat.zero_min]
    exact readTo_fopen blockSize content
  exact srcFile_run_iff positive small start supplied

end Runs

/-- With blocks of two bytes, a file of five read as two, one, one and none: the
third request starts inside a block that is read, but asks for no more than is
behind it. -/
theorem deliversFile_iff_withinBlocks_five :
    let request (nBytes : Nat) : FdRequest :=
      { nBytes := nBytes, buf := [0, 0, 0], fresh := fun _ => 0 }
    DeliversFile 2 [1, 2, 3, 4, 5]
      [request 2, request 1, request 1, request 0] := by
  intro request
  apply (deliversFile_iff_withinBlocks (by decide) (by decide) _).mpr
  · decide
  · simp [request, FdRequest.Supplied]

/-- The first request for one byte of a file of two reads both ahead; the second
finds nothing behind the descriptor and returns zero. -/
theorem not_deliversFile_two :
    ¬DeliversFile 4096 [7, 8]
      [{ nBytes := 1, buf := [0], fresh := fun _ => 0 },
        { nBytes := 1, buf := [0], fresh := fun _ => 0 }] := by
  rintro ⟨final, ran⟩
  have replies := congrArg (Option.map fun run => run.2.map (·.rc)) ran
  change _ = some [1, 1] at replies
  exact absurd replies (by decide +kernel)

end Hiemal
