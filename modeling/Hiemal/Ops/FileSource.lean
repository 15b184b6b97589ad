import Hiemal.Foundation.Transition
import Hiemal.Io.Defs
import Hiemal.Ops.Defs
import Mathlib.Algebra.Order.Floor.Div

/-!
# The file source

`SOURCE_OP(file)` reads with `fread`, which reads whole blocks ahead of what it
delivers, while the `bytes_readable` callback asks the descriptor for what is left
behind the blocks read. The callback reports nothing once the last block of the
file is in the memory of the stream, delivered or not.
-/

namespace Hiemal

open Foundation

/-! ## Buffered reading -/

/-- The bytes of the fewest whole blocks that hold a number of bytes. -/
def wholeBlocks (blockSize nBytes : Nat) : Nat :=
  blockSize * (nBytes ⌈/⌉ blockSize)

/-- A stream open for reading: its descriptor, and the bytes read ahead from it. -/
@[ext] structure FileStream where
  fd : OpenFile
  buffered : List UInt8
  deriving DecidableEq

/-- `fopen(filename, "rb")`, for a file of the given content. -/
def fopen (content : List UInt8) : FileStream where
  fd := { content := content, offset := 0 }
  buffered := []

/-- `fread(dest, 1, n_bytes, f)`: the bytes delivered. What is missing is read from
the descriptor in whole blocks. -/
def fread (blockSize : Nat) (f : FileStream) (nBytes : Nat) :
    FileStream × List UInt8 :=
  let missing := nBytes - f.buffered.length
  let (fd, ahead) := f.fd.read (wholeBlocks blockSize missing)
  let data := f.buffered ++ ahead
  ({ fd := fd, buffered := data.drop nBytes }, data.take nBytes)

/-- `ioctl(fd, FIONREAD, bytes_readable)` on a regular file: the number of bytes
behind the offset is stored as an `int`, in the low half of the `size_t`. -/
def ioctlFionread (fd : OpenFile) (bytesReadable : Fin (2 ^ 64)) : Fin (2 ^ 64) :=
  Fin.ofNat _
    (bytesReadable / 2 ^ 32 * 2 ^ 32 +
      (fd.content.length - fd.offset) % 2 ^ 32)

theorem length_fread_le (blockSize : Nat) (f : FileStream) (nBytes : Nat) :
    (fread blockSize f nBytes).2.length ≤ nBytes :=
  List.length_take_le _ _

/-- `SOURCE_OP(file)` and its `bytes_readable` callback, over the stream they
use. -/
def streamSourceOp
    (blockSize : Nat)
    (outputType : HmFormatType) : HmSourceOp FileStream where
  opFn nBytes f :=
    let read := fread blockSize f nBytes
    ({ bytes := read.2
       bounded := length_fread_le blockSize f nBytes },
      read.1)
  bytesReadableFn f bytesReadable :=
    .of (ioctlFionread f.fd bytesReadable) 0 f
  outputType := outputType

/-- What the callback reports into a `size_t` that was zero. -/
def reportedBytes {State : Type} (op : HmSourceOp State) (state : State) : Nat :=
  (hmOpSourceBytesReadable op state 0).value

/-- The callback is called and then the op, with a request of at most what was
reported. -/
def sourceStep
    {State : Type}
    (op : HmSourceOp State)
    (state : State)
    (nBytes : Nat) : Option (State × List UInt8) :=
  let readable := hmOpSourceBytesReadable op state 0
  if nBytes ≤ readable.value then
    let (delivery, next) := hmSourceOpRun op readable.state nBytes
    some (next, delivery.bytes)
  else none

/-- Whenever the callback reports zero, before the first request or after one, all
of the content has been delivered, in order. -/
def LosesNothing
    {State : Type}
    (op : HmSourceOp State)
    (start : State)
    (content : List UInt8)
    (requests : List Nat) : Prop :=
  ∀ before, before <+: requests →
    ∀ state delivered,
      runSteps (sourceStep op) start before = some (state, delivered) →
        reportedBytes op state = 0 → delivered.flatten = content

/-- The blocks that hold the delivered bytes end before the file does, and what is
left of the file behind them does not vanish in an `int`. -/
def LeavesReadable (blockSize length delivered : Nat) : Prop :=
  wholeBlocks blockSize delivered < length ∧
    ¬2 ^ 32 ∣ length - wholeBlocks blockSize delivered

instance decidableLeavesReadable (blockSize length delivered : Nat) :
    Decidable (LeavesReadable blockSize length delivered) :=
  inferInstanceAs (Decidable (_ ∧ _))

/-! ## Whole blocks -/

section Blocks

variable {blockSize : Nat}

/-- The bytes of whole blocks bound from above exactly what they hold. -/
theorem wholeBlocks_le_iff
    (positive : 0 < blockSize)
    (nBytes count : Nat) :
    wholeBlocks blockSize nBytes ≤ blockSize * count ↔
      nBytes ≤ blockSize * count := by
  rw [wholeBlocks, Nat.mul_le_mul_left_iff positive,
    ceilDiv_le_iff_le_mul positive]

theorem le_wholeBlocks (positive : 0 < blockSize) (nBytes : Nat) :
    nBytes ≤ wholeBlocks blockSize nBytes :=
  (wholeBlocks_le_iff positive nBytes _).mp (Nat.le_refl _)

theorem wholeBlocks_mono
    (positive : 0 < blockSize)
    {fewer more : Nat}
    (le : fewer ≤ more) :
    wholeBlocks blockSize fewer ≤ wholeBlocks blockSize more :=
  (wholeBlocks_le_iff positive fewer _).mpr
    (Nat.le_trans le (le_wholeBlocks positive more))

/-- Bytes that are still within the blocks of fewer bytes need no further block. -/
theorem wholeBlocks_eq_of_le
    (positive : 0 < blockSize)
    {fewer more : Nat}
    (le : fewer ≤ more)
    (within : more ≤ wholeBlocks blockSize fewer) :
    wholeBlocks blockSize more = wholeBlocks blockSize fewer :=
  Nat.le_antisymm ((wholeBlocks_le_iff positive more _).mpr within)
    (wholeBlocks_mono positive le)

theorem wholeBlocks_one (positive : 0 < blockSize) :
    wholeBlocks blockSize 1 = blockSize := by
  have one : 1 ⌈/⌉ blockSize = 1 := by
    rw [Nat.ceilDiv_eq_add_pred_div, Nat.add_sub_cancel_left,
      Nat.div_self positive]
  rw [wholeBlocks, one, Nat.mul_one]

/-- Bytes beyond some blocks need the blocks of the excess. -/
theorem wholeBlocks_add
    (positive : 0 < blockSize)
    (nBytes count : Nat) :
    wholeBlocks blockSize (blockSize * count + nBytes) =
      blockSize * count + wholeBlocks blockSize nBytes := by
  apply Nat.le_antisymm
  · rw [show blockSize * count + wholeBlocks blockSize nBytes =
        blockSize * (count + nBytes ⌈/⌉ blockSize) from
      (Nat.mul_add _ _ _).symm, wholeBlocks_le_iff positive, Nat.mul_add]
    exact Nat.add_le_add_left (le_wholeBlocks positive nBytes) _
  · obtain ⟨blocks, all⟩ :
        ∃ blocks, wholeBlocks blockSize (blockSize * count + nBytes) =
          blockSize * blocks :=
      ⟨_, rfl⟩
    have covers := le_wholeBlocks positive (blockSize * count + nBytes)
    rw [all] at covers ⊢
    have fewer : count ≤ blocks :=
      Nat.le_of_mul_le_mul_left (by omega) positive
    obtain ⟨excess, rfl⟩ := Nat.exists_eq_add_of_le fewer
    rw [Nat.mul_add] at covers ⊢
    apply Nat.add_le_add_left
    rw [wholeBlocks_le_iff positive]
    omega

/-- What does not fit in the blocks of the bytes before it needs blocks of its
own. -/
theorem wholeBlocks_add_eq
    (positive : 0 < blockSize)
    (before nBytes : Nat) :
    wholeBlocks blockSize (before + nBytes) =
      wholeBlocks blockSize before +
        wholeBlocks blockSize
          (nBytes - (wholeBlocks blockSize before - before)) := by
  have covers := le_wholeBlocks positive before
  by_cases fits : nBytes ≤ wholeBlocks blockSize before - before
  · rw [Nat.sub_eq_zero_of_le fits,
      wholeBlocks_eq_of_le positive (Nat.le_add_right before nBytes) (by omega)]
    simp [wholeBlocks]
  · have excess :
        before + nBytes =
          wholeBlocks blockSize before +
            (nBytes - (wholeBlocks blockSize before - before)) := by
      omega
    rw [excess]
    exact wholeBlocks_add positive _ _

end Blocks

/-! ## Reading -/

/-- The bytes of a stream that are not delivered yet. -/
def FileStream.unread (f : FileStream) : List UInt8 :=
  f.buffered ++ f.fd.content.drop f.fd.offset

/-- Taking blocks off a list and dropping fewer of their bytes leaves what dropping
those bytes alone would. -/
theorem drop_take_append_drop
    {α : Type*}
    (rest : List α)
    {dropped taken : Nat}
    (le : dropped ≤ taken) :
    (rest.take taken).drop dropped ++ rest.drop taken = rest.drop dropped := by
  obtain ⟨kept, rfl⟩ := Nat.exists_eq_add_of_le le
  rw [List.drop_take, Nat.add_sub_cancel_left, ← List.drop_drop,
    List.take_append_drop]

/-- Read-ahead is not observable in what is delivered: `fread` delivers the next
bytes and leaves the rest. -/
theorem fread_eq
    {blockSize : Nat}
    (positive : 0 < blockSize)
    (f : FileStream)
    (nBytes : Nat) :
    (fread blockSize f nBytes).2 = f.unread.take nBytes ∧
      (fread blockSize f nBytes).1.unread = f.unread.drop nBytes := by
  have enough := le_wholeBlocks positive (nBytes - f.buffered.length)
  simp only [fread, OpenFile.read, FileStream.unread, load]
  constructor
  · rw [List.take_append, List.take_append, List.take_take,
      Nat.min_eq_left enough]
  · have behind (count : Nat) :
        f.fd.content.drop
            (f.fd.offset +
              ((f.fd.content.drop f.fd.offset).take count).length) =
          (f.fd.content.drop f.fd.offset).drop count := by
      rw [List.drop_drop, List.length_take, List.length_drop]
      apply List.drop_eq_drop_iff.mpr
      omega
    rw [behind, List.drop_append, List.drop_append, List.append_assoc,
      drop_take_append_drop _ enough]

/-- What the descriptor is left at by a request for more than is buffered. -/
theorem offset_fread_refill
    {blockSize : Nat}
    (positive : 0 < blockSize)
    {f : FileStream}
    {fd : OpenFile}
    {block : List UInt8}
    {nBytes : Nat}
    (missing : f.buffered.length < nBytes)
    (read : f.fd.read blockSize = (fd, block)) :
    (fread blockSize f nBytes).1.fd =
      (fread blockSize { fd := fd, buffered := block }
        (nBytes - f.buffered.length)).1.fd := by
  have blocks :
      wholeBlocks blockSize (nBytes - f.buffered.length) =
        blockSize +
          wholeBlocks blockSize (nBytes - f.buffered.length - blockSize) := by
    have split :=
      wholeBlocks_add_eq positive 1 (nBytes - f.buffered.length - 1)
    rw [wholeBlocks_one positive,
      show 1 + (nBytes - f.buffered.length - 1) =
        nBytes - f.buffered.length by omega,
      show nBytes - f.buffered.length - 1 - (blockSize - 1) =
        nBytes - f.buffered.length - blockSize by omega] at split
    exact split
  cases read
  simp only [fread, OpenFile.read, load, List.length_take, List.length_drop,
    blocks, OpenFile.mk.injEq, true_and]
  by_cases full : blockSize ≤ f.fd.content.length - f.fd.offset
  · rw [Nat.min_eq_left full]
    omega
  · omega

/-- Reading whole blocks at once is reading block by block: a request for more than
is buffered takes what is buffered, refills the memory of the stream with one block
and goes on. -/
theorem fread_refill
    {blockSize : Nat}
    (positive : 0 < blockSize)
    {f : FileStream}
    {fd : OpenFile}
    {block : List UInt8}
    {nBytes : Nat}
    (missing : f.buffered.length < nBytes)
    (read : f.fd.read blockSize = (fd, block)) :
    fread blockSize f nBytes =
      let (next, data) :=
        fread blockSize { fd := fd, buffered := block }
          (nBytes - f.buffered.length)
      (next, f.buffered ++ data) := by
  have sameFd := offset_fread_refill positive missing read
  obtain ⟨front, content, behind⟩ := read_eq read
  have unread :
      FileStream.unread { fd := fd, buffered := block } =
        f.fd.content.drop f.fd.offset := by
    rw [FileStream.unread, behind, front, List.take_append_drop]
  obtain ⟨taken, left⟩ := fread_eq positive f nBytes
  obtain ⟨takenRefilled, leftRefilled⟩ :=
    fread_eq positive { fd := fd, buffered := block }
      (nBytes - f.buffered.length)
  rw [unread] at takenRefilled leftRefilled
  have sameData :
      (fread blockSize f nBytes).2 =
        f.buffered ++
          (fread blockSize { fd := fd, buffered := block }
            (nBytes - f.buffered.length)).2 := by
    rw [taken, takenRefilled, FileStream.unread, List.take_append,
      List.take_of_length_le (Nat.le_of_lt missing)]
  have sameBuffered :
      (fread blockSize f nBytes).1.buffered =
        (fread blockSize { fd := fd, buffered := block }
          (nBytes - f.buffered.length)).1.buffered := by
    have rest :
        f.unread.drop nBytes =
          (f.fd.content.drop f.fd.offset).drop
            (nBytes - f.buffered.length) := by
      rw [FileStream.unread, List.drop_append,
        List.drop_eq_nil_of_le (Nat.le_of_lt missing), List.nil_append]
    rw [rest, ← leftRefilled, FileStream.unread, FileStream.unread, sameFd]
      at left
    exact List.append_cancel_right left
  exact Prod.ext (FileStream.ext sameFd sameBuffered) sameData

/-- The state of a stream from which a number of bytes have been delivered: the
blocks that hold them are read, and the rest of these blocks is buffered. -/
structure ReadTo
    (blockSize : Nat)
    (content : List UInt8)
    (delivered : Nat)
    (f : FileStream) : Prop where
  content_eq : f.fd.content = content
  within : delivered ≤ content.length
  offset_eq :
    f.fd.offset = min (wholeBlocks blockSize delivered) content.length
  buffered_length : f.buffered.length + delivered = f.fd.offset
  unread_eq : f.unread = content.drop delivered

theorem readTo_fopen (blockSize : Nat) (content : List UInt8) :
    ReadTo blockSize content 0 (fopen content) where
  content_eq := rfl
  within := Nat.zero_le _
  offset_eq := by simp [fopen, wholeBlocks]
  buffered_length := rfl
  unread_eq := by simp [fopen, FileStream.unread]

/-- A read of bytes that are there. -/
theorem ReadTo.fread
    {blockSize delivered nBytes : Nat}
    {content : List UInt8}
    {f : FileStream}
    (positive : 0 < blockSize)
    (readTo : ReadTo blockSize content delivered f)
    (there : delivered + nBytes ≤ content.length) :
    ReadTo blockSize content (delivered + nBytes)
        (Hiemal.fread blockSize f nBytes).1 ∧
      (Hiemal.fread blockSize f nBytes).2 =
        (content.drop delivered).take nBytes := by
  obtain ⟨front, rest⟩ := fread_eq positive f nBytes
  rw [readTo.unread_eq] at front rest
  rw [List.drop_drop] at rest
  have covers := le_wholeBlocks positive (delivered + nBytes)
  have advanced :
      (Hiemal.fread blockSize f nBytes).1.fd.offset =
        min (wholeBlocks blockSize (delivered + nBytes)) content.length := by
    have buffered := readTo.buffered_length
    have offset := readTo.offset_eq
    have split := wholeBlocks_add_eq positive delivered nBytes
    simp only [Hiemal.fread, OpenFile.read, load, List.length_take,
      List.length_drop, readTo.content_eq]
    by_cases ended : content.length ≤ wholeBlocks blockSize delivered
    · omega
    · have ahead :
          f.buffered.length = wholeBlocks blockSize delivered - delivered := by
        omega
      rw [ahead]
      omega
  refine ⟨
    { content_eq := readTo.content_eq
      within := there
      offset_eq := advanced
      buffered_length := ?_
      unread_eq := rest }, front⟩
  -- The stream holds the bytes between those delivered and the offset.
  have lengths := congrArg List.length rest
  have same : (Hiemal.fread blockSize f nBytes).1.fd.content = content :=
    readTo.content_eq
  rw [FileStream.unread, List.length_append, List.length_drop, same,
    List.length_drop] at lengths
  omega

/-! ## Reports -/

section Reports

variable {blockSize delivered : Nat} {content : List UInt8} {f : FileStream}

/-- The callback reports what is behind the blocks read, as an `int`. -/
theorem ReadTo.reportedBytes_eq
    (outputType : HmFormatType)
    (readTo : ReadTo blockSize content delivered f) :
    reportedBytes (streamSourceOp blockSize outputType) f =
      (content.length - wholeBlocks blockSize delivered) % 2 ^ 32 := by
  have left :
      f.fd.content.length - f.fd.offset =
        content.length - wholeBlocks blockSize delivered := by
    rw [readTo.content_eq, readTo.offset_eq]
    omega
  have reported :
      reportedBytes (streamSourceOp blockSize outputType) f =
        (0 / 2 ^ 32 * 2 ^ 32 +
          (f.fd.content.length - f.fd.offset) % 2 ^ 32) % 2 ^ 64 := rfl
  rw [reported, left]
  omega

/-- It reports zero before all is delivered unless something is left readable. -/
theorem ReadTo.reportedBytes_eq_zero_iff
    (outputType : HmFormatType)
    (readTo : ReadTo blockSize content delivered f) :
    (reportedBytes (streamSourceOp blockSize outputType) f = 0 →
        content.take delivered = content) ↔
      (delivered < content.length →
        LeavesReadable blockSize content.length delivered) := by
  have all : content.take delivered = content ↔
      content.length ≤ delivered :=
    List.take_eq_self_iff content
  rw [readTo.reportedBytes_eq, all, LeavesReadable, Nat.dvd_iff_mod_eq_zero]
  constructor
  · intro lossless short
    have left :
        (content.length - wholeBlocks blockSize delivered) % 2 ^ 32 ≠ 0 :=
      fun none => absurd (lossless none) (Nat.not_le_of_lt short)
    refine ⟨?_, left⟩
    by_contra ended
    rw [Nat.sub_eq_zero_of_le (Nat.le_of_not_lt ended)] at left
    exact left rfl
  · intro readable none
    by_contra short
    exact (readable (Nat.lt_of_not_le short)).2 none

end Reports

/-! ## Runs -/

section Runs

variable {blockSize : Nat} {content : List UInt8}

/-- A step delivers the next bytes of the file. -/
theorem ReadTo.step
    {delivered nBytes : Nat}
    {f next : FileStream}
    {data : List UInt8}
    (positive : 0 < blockSize)
    (outputType : HmFormatType)
    (readTo : ReadTo blockSize content delivered f)
    (stepped : sourceStep (streamSourceOp blockSize outputType) f nBytes =
      some (next, data)) :
    ReadTo blockSize content (delivered + nBytes) next ∧
      data = (content.drop delivered).take nBytes := by
  have reported := readTo.reportedBytes_eq outputType
  unfold sourceStep at stepped
  dsimp only at stepped
  split_ifs at stepped with admitted
  rw [show (hmOpSourceBytesReadable (streamSourceOp blockSize outputType) f
      0).value = _ from reported] at admitted
  have covers := le_wholeBlocks positive delivered
  have within := readTo.within
  obtain ⟨nextReadTo, front⟩ :=
    readTo.fread positive (by omega : delivered + nBytes ≤ content.length)
  have whole : nBytes % 2 ^ 32 = nBytes := by omega
  cases stepped
  simp only [hmSourceOpRun, streamSourceOp, whole]
  exact ⟨nextReadTo, front⟩

/-- A run delivers the bytes of the file in order. -/
theorem ReadTo.run
    {delivered : Nat}
    {f final : FileStream}
    {requests : List Nat}
    {data : List (List UInt8)}
    (positive : 0 < blockSize)
    (outputType : HmFormatType)
    (readTo : ReadTo blockSize content delivered f)
    (ran : runSteps (sourceStep (streamSourceOp blockSize outputType)) f
      requests = some (final, data)) :
    ReadTo blockSize content (delivered + requests.sum) final ∧
      data.flatten = (content.drop delivered).take requests.sum := by
  induction requests generalizing delivered f data with
  | nil =>
      cases ran
      exact ⟨readTo, by simp⟩
  | cons nBytes requests inductionHypothesis =>
      obtain ⟨next, first, rest, stepped, restRan, rfl⟩ :=
        runSteps_cons_eq_some.mp ran
      obtain ⟨nextReadTo, rfl⟩ := readTo.step positive outputType stepped
      obtain ⟨finalReadTo, later⟩ := inductionHypothesis nextReadTo restRan
      rw [List.sum_cons]
      refine ⟨by rwa [← Nat.add_assoc], ?_⟩
      rw [List.flatten_cons, later, List.take_add, List.drop_drop]

/-- The callback never reports zero before the whole file is delivered exactly when
every request ends at the end of the file or leaves something readable: it does not
end inside the last block, and what is left behind its blocks is no multiple of
`2 ^ 32`. -/
theorem losesNothing_iff
    (positive : 0 < blockSize)
    (outputType : HmFormatType)
    {requests : List Nat}
    (admitted :
      (runSteps (sourceStep (streamSourceOp blockSize outputType))
        (fopen content) requests).isSome) :
    LosesNothing (streamSourceOp blockSize outputType) (fopen content) content
        requests ↔
      ∀ before, before <+: requests → before.sum < content.length →
        LeavesReadable blockSize content.length before.sum := by
  have atEnd {before : List Nat} {state : FileStream}
      {data : List (List UInt8)}
      (ran : runSteps (sourceStep (streamSourceOp blockSize outputType))
        (fopen content) before = some (state, data)) :
      (reportedBytes (streamSourceOp blockSize outputType) state = 0 →
          data.flatten = content) ↔
        (before.sum < content.length →
          LeavesReadable blockSize content.length before.sum) := by
    obtain ⟨readTo, flat⟩ :=
      (readTo_fopen blockSize content).run positive outputType ran
    rw [Nat.zero_add] at readTo
    rw [flat, List.drop_zero]
    exact readTo.reportedBytes_eq_zero_iff outputType
  constructor
  · rintro lossless before ⟨after, rfl⟩
    obtain ⟨⟨state, data⟩, ran⟩ :=
      Option.isSome_iff_exists.mp (isSome_runSteps_of_append admitted)
    exact (atEnd ran).mp
      (lossless before (List.prefix_append before after) state data ran)
  · intro readable before isPrefix state data ran
    exact (atEnd ran).mpr (readable before isPrefix)

end Runs

/-- Ten bytes in blocks of four: the requests end inside the first block, behind the
second and at the end of the file. -/
theorem losesNothing_threeBlocks :
    LosesNothing (streamSourceOp 4 .s16le)
      (fopen [0, 1, 2, 3, 4, 5, 6, 7, 8, 9]) [0, 1, 2, 3, 4, 5, 6, 7, 8, 9]
      [3, 5, 2] := by
  apply (losesNothing_iff (by decide) .s16le (by decide)).mpr
  intro before isPrefix
  have cases : before = [] ∨ before = [3] ∨ before = [3, 5] ∨ before = [3, 5, 2] := by
    simpa using (List.mem_inits before [3, 5, 2]).mpr isPrefix
  rcases cases with rfl | rfl | rfl | rfl
  · decide
  · decide
  · decide
  · decide

/-- One byte of a file of two is delivered, and the callback reports zero. -/
theorem not_losesNothing_two :
    ¬LosesNothing (streamSourceOp 4096 .s16le) (fopen [7, 8]) [7, 8] [1] :=
  fun lossless =>
    absurd (lossless [1] (List.prefix_refl _) _ _ rfl (by decide)) (by decide)

/-! ## The source without read-ahead -/

/-- Apart from what it reports, the source over a stream is the one over the unread
bytes of its file. -/
theorem streamSourceOp_opFn
    {blockSize : Nat}
    (positive : 0 < blockSize)
    (fionread : List UInt8 → Fin (2 ^ 64))
    (outputType : HmFormatType)
    (nBytes : Nat)
    (f : FileStream) :
    let streamed := (streamSourceOp blockSize outputType).opFn nBytes f
    let direct := (fileSourceOp fionread outputType).opFn nBytes f.unread
    streamed.1 = direct.1 ∧ streamed.2.unread = direct.2 := by
  obtain ⟨front, rest⟩ := fread_eq positive f nBytes
  exact ⟨by simp only [streamSourceOp, fileSourceOp, front], rest⟩

end Hiemal
