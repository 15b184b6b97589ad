import Hiemal.Buffer.Room
import Hiemal.Python.BufferObject

/-!
# Python buffers are queues

Every method acts on the buffer of its object as on the queue the object stands for,
and a copy is an object of its own.
-/

namespace Hiemal

open Foundation

section Blocking

variable {buf : Buffer} {nBytes : Nat}

/-- A read of nothing returns at once. -/
theorem bufferRead_zero (buf : Buffer) (dest : Option (List UInt8)) :
    bufferRead buf dest 0 = some (returnEarly buf dest 0) := by
  cases kind : buf.type with
  | linear => simp [bufferRead, kind, lbufRead, lockedTransfer]
  | ring => simp [bufferRead, kind, rbufRead, lockedTransfer]

/-- A write of nothing returns at once. -/
theorem bufferWrite_zero (buf : Buffer) (src : List UInt8) :
    ∃ call, bufferWrite buf src 0 = some call ∧ call.buf = buf := by
  cases kind : buf.type with
  | linear =>
      simp only [bufferWrite, kind, lbufWrite, lockedTransfer, ne_eq,
        not_true_eq_false, if_false, if_true, Option.map_some]
      exact ⟨_, rfl, rfl⟩
  | ring =>
      simp only [bufferWrite, kind, rbufWrite, lockedTransfer, ne_eq,
        not_true_eq_false, if_false, if_true, Option.map_some]
      exact ⟨_, rfl, rfl⟩

/-- Any other transfer waits for the mutex. -/
theorem bufferRead_blocks
    (locked : buf.m.locked = true)
    (positive : nBytes ≠ 0)
    (dest : Option (List UInt8)) :
    bufferRead buf dest nBytes = none := by
  cases kind : buf.type with
  | linear =>
      simp [bufferRead, kind, lbufRead, lockedTransfer, threadMutexLock, locked,
        positive]
  | ring =>
      simp [bufferRead, kind, rbufRead, lockedTransfer, threadMutexLock, locked,
        positive]

theorem bufferWrite_blocks
    (locked : buf.m.locked = true)
    (positive : nBytes ≠ 0)
    (src : List UInt8) :
    bufferWrite buf src nBytes = none := by
  cases kind : buf.type with
  | linear =>
      simp [bufferWrite, kind, lbufWrite, lockedTransfer, threadMutexLock, locked,
        positive]
  | ring =>
      simp [bufferWrite, kind, rbufWrite, lockedTransfer, threadMutexLock, locked,
        positive]

theorem bufferView_blocks
    (locked : buf.m.locked = true)
    (dest : List UInt8)
    (offset : Nat) :
    bufferView buf dest offset nBytes = none := by
  simp [bufferView, threadMutexLock, locked]

/-- A count that is clamped to nothing is nothing. -/
theorem bufferView_of_nothing
    (nothing : prepareBufRead buf nBytes = 0)
    (dest : List UInt8)
    (offset : Nat) :
    bufferView buf dest offset nBytes = bufferView buf dest offset 0 := by
  have same (m : HmMutex) : prepareBufRead { buf with m := m } nBytes =
      prepareBufRead { buf with m := m } 0 := by
    have zero : prepareBufRead { buf with m := m } 0 = 0 := by
      rw [prepareBufRead_eq, Nat.zero_min]
    rw [zero]
    exact nothing
  simp only [bufferView, same]

end Blocking

section Object

variable {buf : Buffer} {queue : PyQueue}

theorem PyHolds.readable (holds : PyHolds buf queue) :
    bufferNReadBytes buf = queue.items.length := by
  cases holds with
  | ring capacityBound holds => exact holds.bufferNReadBytes_eq capacityBound
  | linear capacityBound holds =>
      exact (BufferHolds.linear holds.holds).bufferNReadBytes_eq capacityBound

theorem PyHolds.writable (holds : PyHolds buf queue) :
    bufferNWriteBytes buf = queue.room := by
  cases holds with
  | ring capacityBound holds type_eq free =>
      rename_i capacity queue
      change _ = capacity - queue.items.length
      generalize queue.items = items at holds ⊢
      cases holds with
      | ring holds => exact holds.bufferNWriteBytes_eq capacityBound
      | voidRing zero void =>
          rw [void.bufferNWriteBytes_eq, zero, Nat.zero_sub]
      | linear holds => exact absurd (holds.type_eq.symm.trans type_eq) (by decide)
  | linear capacityBound holds =>
      exact holds.holds.bufferNWriteBytes_eq capacityBound

/-- The area is allocated for the size of the object. -/
theorem PyHolds.allocated (holds : PyHolds buf queue) :
    buf.bufLenBytes = queue.capacity ∧ buf.buf.length = queue.capacity := by
  cases holds with
  | ring capacityBound holds type_eq free =>
      rename_i capacity queue
      generalize queue.items = items at holds
      cases holds with
      | ring holds => exact ⟨holds.size_eq, holds.area_length⟩
      | voidRing zero void =>
          rw [void.size_eq, void.area_eq]
          exact ⟨zero.symm, zero.symm⟩
      | linear holds => exact absurd (holds.type_eq.symm.trans type_eq) (by decide)
  | linear capacityBound holds =>
      exact ⟨holds.holds.size_eq, holds.holds.area_length⟩

theorem PyHolds.items_lt (holds : PyHolds buf queue) :
    queue.items.length < 2 ^ 32 := by
  cases holds with
  | ring capacityBound holds =>
      exact Nat.lt_of_le_of_lt holds.length_le capacityBound
  | linear capacityBound holds =>
      exact Nat.lt_of_le_of_lt (BufferHolds.linear holds.holds).length_le
        capacityBound

theorem PyHolds.room_lt (holds : PyHolds buf queue) : queue.room < 2 ^ 32 := by
  cases holds with
  | ring capacityBound => exact Nat.lt_of_le_of_lt (Nat.sub_le _ _) capacityBound
  | linear capacityBound => exact Nat.lt_of_le_of_lt (Nat.sub_le _ _) capacityBound

/-- A read through the C function is a transfer of the queue. -/
theorem PyHolds.readBuffer
    (holds : PyHolds buf queue)
    {dest : Option (List UInt8)}
    {nBytes : Nat}
    (supplied : ∀ block ∈ dest, nBytes ≤ block.length) :
    Option.Rel
      (fun call after =>
        PyHolds call.buf after ∧
          call.dest = delivered dest (queue.items.take nBytes))
      (bufferRead buf dest nBytes)
      (queue.transfer nBytes (queue.discard nBytes)) := by
  rcases Nat.eq_zero_or_pos nBytes with rfl | positive
  · rw [bufferRead_zero, PyQueue.transfer, if_pos rfl]
    refine .some ⟨holds, ?_⟩
    rw [List.take_zero, delivered_nil]
    rfl
  · have nonempty : nBytes ≠ 0 := Nat.pos_iff_ne_zero.mp positive
    rw [PyQueue.transfer, if_neg nonempty]
    cases holds with
    | ring capacityBound holds type_eq free =>
        obtain ⟨call, returns, moves⟩ :=
          holds.call capacityBound free (.read dest nBytes) supplied
        have kept : call.buf.type = .ring :=
          (congrArg BufferSetup.type (BufferIo.call_setup returns)).trans type_eq
        change bufferRead buf dest nBytes = some call at returns
        rw [returns]
        exact .some
          ⟨.ring capacityBound moves.after kept moves.free, moves.dest_eq⟩
    | linear capacityBound holds locked_eq =>
        rename_i held
        cases held with
        | true =>
            rw [bufferRead_blocks locked_eq nonempty]
            exact .none
        | false =>
            obtain ⟨call, returns, after, free, dest_eq⟩ :=
              holds.bufferRead capacityBound locked_eq supplied
            rw [returns]
            exact .some ⟨.linear capacityBound after free, dest_eq⟩

/-- A write of what there is room for is a transfer of the queue. -/
theorem PyHolds.writeBuffer (holds : PyHolds buf queue) (src : List UInt8) :
    Option.Rel (fun call after => PyHolds call.buf after)
      (bufferWrite buf src (min src.length queue.room))
      (queue.transfer (min src.length queue.room) (queue.append src)) := by
  rcases Nat.eq_zero_or_pos (min src.length queue.room) with none | positive
  · obtain ⟨call, returns, same⟩ := bufferWrite_zero buf src
    rw [none, returns, PyQueue.transfer, if_pos rfl]
    apply Option.Rel.some
    rw [same]
    exact holds
  · have nonempty := Nat.pos_iff_ne_zero.mp positive
    have supplied : min src.length queue.room ≤ src.length := Nat.min_le_left _ _
    have writable := holds.writable
    rw [PyQueue.transfer, if_neg nonempty]
    cases holds with
    | ring capacityBound holds type_eq free =>
        rename_i capacity queue
        change bufferNWriteBytes buf = queue.room at writable
        obtain ⟨call, returns, moves⟩ :=
          holds.call capacityBound free
            (.write src (min src.length queue.room)) supplied
        have kept : call.buf.type = .ring :=
          (congrArg BufferSetup.type (BufferIo.call_setup returns)).trans type_eq
        have after : BufferHolds capacity call.buf (queue.write src).items := by
          have held := moves.after
          rw [BufferIo.itemsAfter, writable, Nat.min_assoc, Nat.min_self,
            Nat.min_comm, ← List.take_take, List.take_length] at held
          exact held
        change bufferWrite buf src (min src.length queue.room) = some call
          at returns
        change Option.Rel _ (bufferWrite buf src (min src.length queue.room)) _
        rw [returns]
        exact .some (.ring capacityBound after kept moves.free)
    | linear capacityBound holds locked_eq =>
        rename_i capacity tape held
        cases held with
        | true =>
            rw [bufferWrite_blocks locked_eq nonempty]
            exact .none
        | false =>
            obtain ⟨call, returns, after, free⟩ :=
              holds.bufferWrite capacityBound locked_eq supplied
            change TapeHolds capacity call.buf
              (tape.write (src.take (min src.length tape.room))) at after
            rw [tape.write_take_min] at after
            rw [returns]
            exact .some (.linear capacityBound after free)

/-- A view of a ring buffer from its first readable byte on. -/
theorem BufferHolds.bufferView_ring
    {capacity : Nat}
    {items dest : List UInt8}
    {nBytes : Nat}
    (holds : BufferHolds capacity buf items)
    (capacityBound : capacity < 2 ^ 32)
    (type_eq : buf.type = .ring)
    (free : buf.m.locked = false)
    (room : nBytes ≤ dest.length) :
    ∃ call,
      bufferView buf dest 0 nBytes = some call ∧
        call.buf = buf ∧ call.dest = some (store dest 0 (items.take nBytes)) := by
  cases holds with
  | ring holds =>
      have count : prepareBufRead buf nBytes = min nBytes items.length :=
        prepareBufRead_ring holds capacityBound
      obtain ⟨call, returns, same, _, dest_eq, _⟩ :=
        bufferView_slice dest holds capacityBound free
          (Nat.zero_le (rbufLinearBytesRead buf))
          (by rw [count, Nat.zero_add]; exact Nat.min_le_right _ _) room
      refine ⟨call, returns, same, ?_⟩
      rw [dest_eq, count, List.drop_zero, ← List.take_take, List.take_length]
  | voidRing zero void =>
      have none : prepareBufRead buf nBytes = 0 := by
        rw [prepareBufRead_eq, void.bufferNReadBytes_eq, Nat.min_zero]
      obtain ⟨call, returns, views⟩ :=
        bufferView_nothing dest type_eq free none
      refine ⟨call, returns, views.unchanged, ?_⟩
      rw [views.dest_eq, void.bufferNReadBytes_eq, Nat.zero_sub, Nat.min_zero,
        List.take_zero, List.take_nil]
  | linear holds => exact absurd (holds.type_eq.symm.trans type_eq) (by decide)

theorem PyHolds.viewBuffer
    (holds : PyHolds buf queue)
    {dest : List UInt8}
    {nBytes : Nat}
    (room : nBytes ≤ dest.length) :
    Option.Rel
      (fun call after =>
        PyHolds call.buf after ∧
          call.dest = some (store dest 0 (queue.shown nBytes)))
      (bufferView buf dest 0 nBytes)
      (if queue.held then none else some queue.peeked) := by
  cases holds with
  | ring capacityBound holds type_eq free =>
      obtain ⟨call, returns, same, dest_eq⟩ :=
        holds.bufferView_ring capacityBound type_eq free room
      rw [returns, PyQueue.held, if_neg Bool.false_ne_true]
      refine .some ⟨?_, dest_eq⟩
      rw [same]
      exact .ring capacityBound holds type_eq free
  | linear capacityBound holds locked_eq =>
      rename_i held
      cases held with
      | true =>
          rw [bufferView_blocks locked_eq]
          exact .none
      | false =>
          obtain ⟨call, returns, after, locked, dest_eq⟩ :=
            holds.bufferView capacityBound locked_eq dest nBytes
          rw [returns, PyQueue.held, if_neg Bool.false_ne_true]
          exact .some ⟨.linear capacityBound after locked, dest_eq⟩

theorem PyHolds.resetBuffer (holds : PyHolds buf queue) :
    PyHolds (bufferReset buf) queue.clear := by
  cases holds with
  | ring capacityBound holds type_eq free =>
      obtain ⟨call, returns, moves⟩ :=
        holds.call capacityBound free .reset trivial
      cases returns
      exact .ring capacityBound moves.after type_eq free
  | linear capacityBound holds locked_eq =>
      exact .linear capacityBound (tapeHolds_bufferReset holds) locked_eq

/-- The copy of a held object is not held. -/
theorem PyHolds.copyBuffer (holds : PyHolds buf queue) :
    PyHolds (bufferCopy buf) queue.copied := by
  have whole : buf.buf.length = buf.bufLenBytes := by
    rw [holds.allocated.1, holds.allocated.2]
  rw [bufferCopy_eq whole]
  cases holds with
  | ring capacityBound holds type_eq free =>
      exact .ring capacityBound (holds.sameData rfl) type_eq rfl
  | linear capacityBound holds locked_eq =>
      exact .linear capacityBound (holds.sameData rfl) rfl

/-! ## Methods -/

/-- What a method leaves and returns is what the queue leaves and returns. -/
def Agrees (ran : Buffer × PyResult) (served : PyQueue × PyResult) : Prop :=
  PyHolds ran.1 served.1 ∧ ran.2 = served.2

theorem PyHolds.returns
    (holds : PyHolds buf queue)
    {result served : PyResult}
    (same : result = served) :
    Option.Rel Agrees (some (buf, result)) (some (queue, served)) :=
  .some ⟨holds, same⟩

/-- A negative count is passed on as it is. -/
theorem bytesToRead_of_neg
    {args : PyArgument}
    (negative : pyNumberAsSsizeT args < 0)
    (buf : Buffer) :
    bytesToRead buf args = pyNumberAsSsizeT args := by
  have smaller : pyNumberAsSsizeT args < (bufferNReadBytes buf : Int) := by omega
  simp only [bytesToRead]
  exact if_pos smaller

/-- Any other count is cut to the readable one. -/
theorem bytesToRead_of_nonneg
    {args : PyArgument}
    (nonnegative : ¬pyNumberAsSsizeT args < 0)
    (buf : Buffer) :
    bytesToRead buf args =
      (min (pyNumberAsSsizeT args).toNat (bufferNReadBytes buf) : Nat) := by
  simp only [bytesToRead]
  split <;> omega

theorem pyMemMalloc_natCast (size : Nat) (fresh : Nat → UInt8) :
    pyMemMalloc size fresh = some (resize [] size fresh) := by
  rw [pyMemMalloc, if_neg (Int.not_lt.mpr (Int.natCast_nonneg size)),
    Int.toNat_natCast]

theorem pyBytesFromStringAndSize_natCast
    {data : List UInt8}
    {size : Nat}
    (length : data.length = size) :
    pyBytesFromStringAndSize (some data) size = .bytes data := by
  rw [pyBytesFromStringAndSize, if_neg (Int.not_lt.mpr (Int.natCast_nonneg size)),
    Int.toNat_natCast, Option.getD_some,
    List.take_of_length_le (Nat.le_of_eq length)]

/-- The C function behind `read`. -/
theorem PyHolds.readNumber
    (holds : PyHolds buf queue)
    (args : PyArgument)
    (fresh : Nat → UInt8) :
    Option.Rel Agrees
      ((bufferRead buf (pyMemMalloc (bytesToRead buf args) fresh)
          (toUnsigned 32 (toSigned 32 (bytesToRead buf args)))).map
        fun call =>
          (call.buf, pyBytesFromStringAndSize call.dest (bytesToRead buf args)))
      (if pyNumberAsSsizeT args < 0 then
        (queue.transfer (toUnsigned 32 (pyNumberAsSsizeT args))
          (queue.discard (toUnsigned 32 (pyNumberAsSsizeT args)))).map (·, .error)
      else
        (queue.transfer (min (pyNumberAsSsizeT args).toNat queue.items.length)
          (queue.discard
            (min (pyNumberAsSsizeT args).toNat queue.items.length))).map
          (·, .bytes
            (queue.items.take
              (min (pyNumberAsSsizeT args).toNat queue.items.length)))) := by
  rw [toUnsigned_toSigned_eq]
  by_cases negative : pyNumberAsSsizeT args < 0
  · rw [if_pos negative, bytesToRead_of_neg negative, pyMemMalloc,
      if_pos negative]
    apply rel_map
    · exact holds.readBuffer fun block member => absurd member.symm (by simp)
    · rintro call after ⟨afterHolds, _⟩
      exact ⟨afterHolds, if_pos negative⟩
  · rw [if_neg negative, bytesToRead_of_nonneg negative, holds.readable,
      pyMemMalloc_natCast]
    generalize bounded :
      min (pyNumberAsSsizeT args).toNat queue.items.length = count
    have inside : count ≤ queue.items.length := by omega
    have length : (queue.items.take count).length = count :=
      List.length_take_of_le inside
    rw [toUnsigned_of_lt 32 (Nat.lt_of_le_of_lt inside holds.items_lt)]
    apply rel_map
    · apply holds.readBuffer
      rintro block ⟨⟩
      exact Nat.le_of_eq (length_resize [] count fresh).symm
    · rintro call after ⟨afterHolds, dest_eq⟩
      refine ⟨afterHolds, ?_⟩
      rw [dest_eq, delivered, Option.map_some, store_resize_nil length,
        pyBytesFromStringAndSize_natCast length]

theorem PyHolds.read
    (holds : PyHolds buf queue)
    (args : PyArgument)
    (fresh : Nat → UInt8) :
    Option.Rel Agrees (hmBufferBufferRead buf args fresh) (queue.read args) := by
  cases args with
  | index value => exact holds.readNumber (.index value) fresh
  | inexact => exact holds.readNumber .inexact fresh
  | other => exact .some ⟨holds, rfl⟩

/-- No more is shown than can be read. -/
theorem PyQueue.shown_min (queue : PyQueue) (count : Nat) :
    queue.shown (min count queue.items.length) = queue.shown count := by
  cases queue with
  | ring capacity queue =>
      change queue.items.take (min count queue.items.length) = _
      rw [← List.take_take, List.take_length]
      rfl
  | linear capacity tape held =>
      change tape.written.take (min (min count tape.items.length) _) = _
      rw [Nat.min_assoc, Nat.min_self]
      rfl

theorem PyQueue.length_shown
    {count : Nat}
    (inside : count ≤ queue.items.length) :
    (queue.shown count).length = count := by
  cases queue with
  | ring capacity queue => exact List.length_take_of_le inside
  | linear capacity tape held =>
      have kept := tape.length_items
      change count ≤ tape.items.length at inside
      change (tape.written.take (min count tape.items.length)).length = count
      rw [Nat.min_eq_left inside]
      exact List.length_take_of_le (by omega)

/-- A view to `NULL` returns if it shows nothing. -/
theorem PyHolds.viewNull
    (holds : PyHolds buf queue)
    (nBytes : Nat) :
    Option.Rel (fun call after => PyHolds call.buf after)
      (bufferViewFront buf none nBytes)
      (if queue.held then none
      else if min nBytes queue.items.length = 0 then some queue.peeked
      else none) := by
  have clamped : prepareBufRead buf nBytes = min nBytes queue.items.length := by
    rw [prepareBufRead_eq, holds.readable]
  unfold bufferViewFront
  by_cases nothing : prepareBufRead buf nBytes = 0
  · have viewed : Option.Rel _ (bufferView buf [] 0 0) _ :=
      holds.viewBuffer (Nat.zero_le _)
    rw [if_pos nothing, bufferView_of_nothing nothing, ← clamped, if_pos nothing,
      ← @Option.map_id' _ (if queue.held then none else some queue.peeked)]
    apply rel_map viewed
    rintro call after ⟨afterHolds, _⟩
    exact afterHolds
  · rw [if_neg nothing, ← clamped, if_neg nothing, ite_self]
    exact .none

/-- The C function behind `peek`. -/
theorem PyHolds.peekNumber
    (holds : PyHolds buf queue)
    (args : PyArgument)
    (fresh : Nat → UInt8) :
    Option.Rel Agrees
      ((bufferViewFront buf (pyMemMalloc (bytesToRead buf args) fresh)
          (toUnsigned 32 (toSigned 32 (bytesToRead buf args)))).map
        fun call =>
          (call.buf, pyBytesFromStringAndSize call.dest (bytesToRead buf args)))
      (if queue.held then none
      else if pyNumberAsSsizeT args < 0 then
        if min (toUnsigned 32 (pyNumberAsSsizeT args)) queue.items.length = 0 then
          some (queue.peeked, .error)
        else none
      else
        some (queue.peeked,
          .bytes (queue.shown (pyNumberAsSsizeT args).toNat))) := by
  rw [toUnsigned_toSigned_eq]
  by_cases negative : pyNumberAsSsizeT args < 0
  · rw [bytesToRead_of_neg negative, pyMemMalloc, if_pos negative, if_pos negative]
    have served :
        (if queue.held then none
        else if min (toUnsigned 32 (pyNumberAsSsizeT args)) queue.items.length = 0
          then some (queue.peeked, PyResult.error)
        else none) =
          (if queue.held then none
          else if min (toUnsigned 32 (pyNumberAsSsizeT args))
            queue.items.length = 0 then some queue.peeked
          else none).map (·, PyResult.error) := by
      split_ifs <;> rfl
    rw [served]
    apply rel_map (holds.viewNull _)
    intro call after afterHolds
    exact ⟨afterHolds, if_pos negative⟩
  · rw [bytesToRead_of_nonneg negative, holds.readable, pyMemMalloc_natCast,
      bufferViewFront, if_neg negative, ← queue.shown_min]
    generalize bounded :
      min (pyNumberAsSsizeT args).toNat queue.items.length = count
    have inside : count ≤ queue.items.length := by omega
    have length : (queue.shown count).length = count :=
      PyQueue.length_shown inside
    have served :
        (if queue.held then none
          else some (queue.peeked, PyResult.bytes (queue.shown count))) =
          (if queue.held then none else some queue.peeked).map
            (·, .bytes (queue.shown count)) := by
      split_ifs <;> rfl
    rw [toUnsigned_of_lt 32 (Nat.lt_of_le_of_lt inside holds.items_lt), served]
    apply rel_map
    · exact holds.viewBuffer (Nat.le_of_eq (length_resize [] count fresh).symm)
    · rintro call after ⟨afterHolds, dest_eq⟩
      refine ⟨afterHolds, ?_⟩
      rw [dest_eq, store_resize_nil length,
        pyBytesFromStringAndSize_natCast length]

theorem PyHolds.peek
    (holds : PyHolds buf queue)
    (args : PyArgument)
    (fresh : Nat → UInt8) :
    Option.Rel Agrees (hmBufferBufferPeek buf args fresh) (queue.peek args) := by
  cases args with
  | index value => exact holds.peekNumber (.index value) fresh
  | inexact => exact holds.peekNumber .inexact fresh
  | other => exact .some ⟨holds, rfl⟩

theorem PyHolds.write
    (holds : PyHolds buf queue)
    (args : Option (List UInt8)) :
    Option.Rel Agrees (hmBufferBufferWrite buf args) (queue.write args) := by
  cases args with
  | none => exact .some ⟨holds, rfl⟩
  | some src =>
      have count :
          (if src.length < bufferNWriteBytes buf then src.length
            else bufferNWriteBytes buf) =
            min src.length queue.room := by
        rw [holds.writable]
        split <;> omega
      have small : min src.length queue.room < 2 ^ 32 :=
        Nat.lt_of_le_of_lt (Nat.min_le_right _ _) holds.room_lt
      simp only [hmBufferBufferWrite, PyQueue.write, count,
        toUnsigned_of_lt 32 small]
      apply rel_map (holds.writeBuffer src)
      intro call after afterHolds
      exact ⟨afterHolds, rfl⟩

/-- Every method acts on the buffer as on the queue. -/
theorem PyHolds.method
    (holds : PyHolds buf queue)
    (method : PyBufferMethod) :
    Option.Rel Agrees (method.call buf) (method.serve queue) := by
  cases method with
  | bytesReadable => exact holds.returns (congrArg PyResult.int holds.readable)
  | bytesWritable => exact holds.returns (congrArg PyResult.int holds.writable)
  | size => exact holds.returns (congrArg PyResult.int holds.allocated.1)
  | str =>
      have text :
          hmBufferBufferTpStr buf =
            bufferText queue.items.length queue.room := by
        rw [hmBufferBufferTpStr, holds.readable, holds.writable]
      exact holds.returns (congrArg PyResult.str text)
  | clear => exact holds.resetBuffer.returns rfl
  | read args fresh => exact holds.read args fresh
  | peek args fresh => exact holds.peek args fresh
  | write args => exact holds.write args

end Object

/-! ## All objects -/

/-- The buffers of the objects represent the objects, place by place. -/
structure Represented (buffers : List Buffer) (queues : List PyQueue) : Prop where
  length_eq : buffers.length = queues.length
  holds : ∀ self : Nat, Option.Rel PyHolds buffers[self]? queues[self]?

section Objects

variable {buffers : List Buffer} {queues : List PyQueue}
variable {buf : Buffer} {queue : PyQueue}

theorem Represented.append
    (represented : Represented buffers queues)
    (holds : PyHolds buf queue) :
    Represented (buffers ++ [buf]) (queues ++ [queue]) where
  length_eq := by
    rw [List.length_append, List.length_append, represented.length_eq]
    rfl
  holds := by
    intro self
    rcases Nat.lt_trichotomy self buffers.length with old | rfl | beyond
    · rw [List.getElem?_append_left old,
        List.getElem?_append_left (represented.length_eq ▸ old)]
      exact represented.holds self
    · rw [List.getElem?_concat_length, represented.length_eq,
        List.getElem?_concat_length]
      exact .some holds
    · have length := represented.length_eq
      rw [List.getElem?_eq_none
          (by rw [List.length_append, List.length_singleton]; omega),
        List.getElem?_eq_none
          (by rw [List.length_append, List.length_singleton]; omega)]
      exact .none

theorem Represented.set
    (represented : Represented buffers queues)
    (self : Nat)
    (holds : PyHolds buf queue) :
    Represented (buffers.set self buf) (queues.set self queue) where
  length_eq := by
    rw [List.length_set, List.length_set, represented.length_eq]
  holds := by
    intro other
    rw [List.getElem?_set, List.getElem?_set, represented.length_eq]
    split
    · split
      · exact .some holds
      · exact .none
    · exact represented.holds other

/-- A new object is an empty queue of its type and size. -/
theorem hmBufferBufferInit_holds (nBytes : Int) (bufferTypeStr : String) :
    Option.Rel PyHolds (hmBufferBufferInit nBytes bufferTypeStr)
      (pyQueueInit nBytes bufferTypeStr) := by
  have small := toUnsigned_lt 32 nBytes
  unfold hmBufferBufferInit pyQueueInit
  split
  · exact .some (.ring small (bufferHolds_bufferInit _ .ring) rfl rfl)
  · split
    · exact .some (.linear small (tapeHolds_bufferInit _) rfl)
    · exact .none

/-- Step lemma: a call acts on the buffers as on the queues. -/
theorem Represented.step
    (represented : Represented buffers queues)
    (call : PyBufferCall) :
    Option.Rel
      (fun ran served => Represented ran.1 served.1 ∧ ran.2 = served.2)
      (pyBufferStep buffers call) (pyQueueStep queues call) := by
  have places : PyResult.object buffers.length = .object queues.length :=
    congrArg PyResult.object represented.length_eq
  cases call with
  | init nBytes bufferTypeStr =>
      have created := hmBufferBufferInit_holds nBytes bufferTypeStr
      simp only [pyBufferStep, pyQueueStep]
      generalize hmBufferBufferInit nBytes bufferTypeStr = buffer at created ⊢
      generalize pyQueueInit nBytes bufferTypeStr = object at created ⊢
      cases created with
      | none => exact .some ⟨represented, rfl⟩
      | some holds => exact .some ⟨represented.append holds, places⟩
  | copy self =>
      refine rel_map (represented.holds self) fun buf queue holds => ?_
      exact And.intro (represented.append holds.copyBuffer) places
  | method self method =>
      apply rel_bind (represented.holds self)
      intro buf queue holds
      apply rel_map (holds.method method)
      rintro ran served ⟨afterHolds, result⟩
      exact ⟨represented.set self afterHolds, result⟩

end Objects

end Hiemal
