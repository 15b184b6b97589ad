import Hiemal.Buffer.Outcome
import Hiemal.Foundation.CircularWindow
import Hiemal.Foundation.Fifo
import Hiemal.Foundation.Transition

/-!
# The ring buffer is a bounded queue

A ring buffer of size `N` holds a list of bytes: the window of its raw area that
starts at the read pointer. The window determines the write pointer and the
three-valued state flag. Writing, reading and resetting keep this relation while
acting on the list as a queue of capacity `N` does.
-/

namespace Hiemal

open Foundation

/-- The state flag of a ring buffer that holds `length` of `capacity` bytes. -/
def fillState (capacity length : Nat) : BufferState :=
  if length = 0 then .empty
  else if length = capacity then .full
  else .normal

/-- A ring buffer of the given capacity holds `items`, oldest first. -/
structure RingHolds
    (capacity : Nat)
    (buf : Buffer)
    (items : List UInt8) : Prop where
  type_eq : buf.type = .ring
  size_eq : buf.bufLenBytes = capacity
  area_length : buf.buf.length = capacity
  readPtr_lt : buf.readPtr < capacity
  writePtr_eq : buf.writePtr = (buf.readPtr + items.length) % capacity
  bounded : items.length ≤ capacity
  state_eq : buf.state = fillState capacity items.length
  contents : window buf.buf buf.readPtr items.length = items

/-- The contents depend on the data of the buffer only. -/
theorem RingHolds.sameData
    {capacity : Nat}
    {buf other : Buffer}
    {items : List UInt8}
    (holds : RingHolds capacity buf items)
    (same : other.data = buf.data) :
    RingHolds capacity other items := by
  obtain ⟨area, size, readPtr, writePtr, type, state⟩ :=
    BufferData.mk.injEq .. ▸ same
  exact
    { type_eq := type ▸ holds.type_eq
      size_eq := size ▸ holds.size_eq
      area_length := area ▸ holds.area_length
      readPtr_lt := readPtr ▸ holds.readPtr_lt
      writePtr_eq := writePtr ▸ readPtr ▸ holds.writePtr_eq
      bounded := holds.bounded
      state_eq := state ▸ holds.state_eq
      contents := area ▸ readPtr ▸ holds.contents }

/-- Taking or releasing the mutex does not touch the contents. -/
theorem RingHolds.withMutex
    {capacity : Nat}
    {buf : Buffer}
    {items : List UInt8}
    (holds : RingHolds capacity buf items)
    (m : HmMutex) :
    RingHolds capacity { buf with m := m } items :=
  holds.sameData rfl

/-- A new ring buffer over memory of its size holds nothing. -/
theorem ringHolds_bufferInitExt
    {capacity : Nat}
    {area : List UInt8}
    (positive : 0 < capacity)
    (length : area.length = capacity) :
    RingHolds capacity (bufferInitExt capacity .ring area) [] where
  type_eq := rfl
  size_eq := rfl
  area_length := length
  readPtr_lt := positive
  writePtr_eq := by simp [bufferInitExt]
  bounded := Nat.zero_le capacity
  state_eq := rfl
  contents := window_zero area 0

theorem ringHolds_bufferInit
    {capacity : Nat}
    (positive : 0 < capacity) :
    RingHolds capacity (bufferInit capacity .ring) [] :=
  (ringHolds_bufferInitExt positive List.length_replicate).sameData rfl

/-- Resetting a ring buffer discards its contents. -/
theorem RingHolds.bufferReset
    {capacity : Nat}
    {buf : Buffer}
    {items : List UInt8}
    (holds : RingHolds capacity buf items) :
    RingHolds capacity (Hiemal.bufferReset buf) [] where
  type_eq := holds.type_eq
  size_eq := holds.size_eq
  area_length := holds.area_length
  readPtr_lt := Nat.zero_lt_of_lt holds.readPtr_lt
  writePtr_eq := by simp [Hiemal.bufferReset]
  bounded := Nat.zero_le _
  state_eq := rfl
  contents := by simp

/-! ## Byte counts -/

section Counts

variable {capacity : Nat} {buf : Buffer} {items : List UInt8}

/-- The write pointer stays inside the area. -/
theorem RingHolds.writePtr_lt (holds : RingHolds capacity buf items) :
    buf.writePtr < capacity := by
  rw [holds.writePtr_eq]
  exact Nat.mod_lt _ (Nat.zero_lt_of_lt holds.readPtr_lt)

/-- The write pointer with its one possible wrap written out. -/
theorem RingHolds.writePtr_cases (holds : RingHolds capacity buf items) :
    buf.writePtr = buf.readPtr + items.length ∧
        buf.readPtr + items.length < capacity ∨
      buf.writePtr + capacity = buf.readPtr + items.length := by
  have readPtrLt := holds.readPtr_lt
  have bounded := holds.bounded
  have wrapped := mod_of_lt_two_mul
    (buf.readPtr + items.length) capacity (by omega)
  rw [← holds.writePtr_eq] at wrapped
  split_ifs at wrapped <;> omega

theorem RingHolds.state_cases (holds : RingHolds capacity buf items) :
    buf.state = .empty ∧ items.length = 0 ∨
      buf.state = .full ∧ items.length = capacity ∨
      buf.state = .normal ∧ 0 < items.length ∧ items.length < capacity := by
  have state := holds.state_eq
  have bounded := holds.bounded
  unfold fillState at state
  split_ifs at state with none all
  · exact Or.inl ⟨state, none⟩
  · exact Or.inr (Or.inl ⟨state, all⟩)
  · exact Or.inr (Or.inr ⟨state, by omega, by omega⟩)

variable (holds : RingHolds capacity buf items)
variable (capacityBound : capacity < 2 ^ 32)

include holds capacityBound

theorem rbufNWriteBytes_eq :
    rbufNWriteBytes buf = capacity - items.length := by
  have readPtrLt := holds.readPtr_lt
  rcases holds.state_cases with
    ⟨state, length⟩ | ⟨state, length⟩ | ⟨state, positive, below⟩
  · simp [rbufNWriteBytes, holds.type_eq, state, holds.size_eq, length]
  · simp [rbufNWriteBytes, holds.type_eq, state, length]
  · have distance :
        (if ((buf.readPtr : Int) - buf.writePtr).tmod capacity < 0 then
          ((buf.readPtr : Int) - buf.writePtr).tmod capacity + capacity
        else ((buf.readPtr : Int) - buf.writePtr).tmod capacity) =
          ((capacity - items.length : Nat) : Int) := by
      rcases holds.writePtr_cases with ⟨unwrapped, _⟩ | wrapped
      · -- the read pointer is behind: the remainder is negative
        have difference :
            (buf.readPtr : Int) - buf.writePtr = -(items.length : Int) := by
          omega
        rw [difference, Int.neg_tmod,
          Int.tmod_eq_of_lt (by omega) (by omega), if_pos (by omega)]
        omega
      · have difference :
            (buf.readPtr : Int) - buf.writePtr =
              ((capacity - items.length : Nat) : Int) := by
          omega
        rw [difference, Int.tmod_eq_of_lt (by omega) (by omega),
          if_neg (by omega)]
    simp only [rbufNWriteBytes, holds.type_eq, state, holds.size_eq, distance,
      ne_eq, not_true_eq_false, if_false]
    exact toUnsigned_of_lt 32 (by omega)

theorem rbufNReadBytes_eq :
    rbufNReadBytes buf = items.length := by
  have bounded := holds.bounded
  have difference :
      (capacity : Int) - (capacity - items.length : Nat) =
        (items.length : Int) := by
    omega
  simp only [rbufNReadBytes, holds.type_eq, holds.size_eq,
    rbufNWriteBytes_eq holds capacityBound, difference, ne_eq,
    not_true_eq_false, if_false]
  exact toUnsigned_of_lt 32 (by omega)

/-- The linear count for writing either ends at the end of the area, or covers
all the free bytes. -/
theorem rbufLinearBytesWrite_cases :
    rbufLinearBytesWrite buf = capacity - buf.writePtr ∨
      capacity - items.length ≤ rbufLinearBytesWrite buf ∧
        buf.writePtr + (capacity - items.length) ≤ capacity := by
  have readPtrLt := holds.readPtr_lt
  have writePtrLt := holds.writePtr_lt
  have bounded := holds.bounded
  have position : toUnsigned 32 (buf.writePtr : Int) = buf.writePtr :=
    toUnsigned_of_lt 32 (by omega)
  have toEnd :
      toUnsigned 32 ((capacity : Int) - buf.writePtr) =
        capacity - buf.writePtr := by
    rw [← Nat.cast_sub (by omega)]
    exact toUnsigned_of_lt 32 (by omega)
  rcases holds.state_cases with
    ⟨state, length⟩ | ⟨state, length⟩ | ⟨state, positive, below⟩
  · left
    simp [rbufLinearBytesWrite, holds.type_eq, state, holds.size_eq, position,
      toEnd]
  · right
    omega
  · by_cases behind : buf.writePtr < buf.readPtr
    · right
      have gap :
          toUnsigned 32 ((buf.readPtr : Int) - buf.writePtr) =
            buf.readPtr - buf.writePtr := by
        rw [← Nat.cast_sub (by omega)]
        exact toUnsigned_of_lt 32 (by omega)
      have linear : rbufLinearBytesWrite buf = buf.readPtr - buf.writePtr := by
        simp [rbufLinearBytesWrite, holds.type_eq, state, behind, gap]
      rcases holds.writePtr_cases with ⟨unwrapped, _⟩ | wrapped <;> omega
    · left
      simp [rbufLinearBytesWrite, holds.type_eq, state, holds.size_eq, behind,
        position, toEnd]

/-- The linear count for reading either ends at the end of the area, or covers
all the readable bytes. -/
theorem rbufLinearBytesRead_cases :
    rbufLinearBytesRead buf = capacity - buf.readPtr ∨
      items.length ≤ rbufLinearBytesRead buf ∧
        buf.readPtr + items.length ≤ capacity := by
  have readPtrLt := holds.readPtr_lt
  have writePtrLt := holds.writePtr_lt
  have position : toUnsigned 32 (buf.readPtr : Int) = buf.readPtr :=
    toUnsigned_of_lt 32 (by omega)
  have toEnd :
      toUnsigned 32 ((capacity : Int) - buf.readPtr) =
        capacity - buf.readPtr := by
    rw [← Nat.cast_sub (by omega)]
    exact toUnsigned_of_lt 32 (by omega)
  rcases holds.state_cases with
    ⟨state, length⟩ | ⟨state, length⟩ | ⟨state, positive, below⟩
  · right
    omega
  · left
    simp [rbufLinearBytesRead, holds.type_eq, state, holds.size_eq, position,
      toEnd]
  · by_cases ahead : buf.readPtr < buf.writePtr
    · right
      have gap :
          toUnsigned 32 ((buf.writePtr : Int) - buf.readPtr) =
            buf.writePtr - buf.readPtr := by
        rw [← Nat.cast_sub (by omega)]
        exact toUnsigned_of_lt 32 (by omega)
      have linear : rbufLinearBytesRead buf = buf.writePtr - buf.readPtr := by
        simp [rbufLinearBytesRead, holds.type_eq, state, ahead, gap]
      rcases holds.writePtr_cases with ⟨unwrapped, _⟩ | wrapped <;> omega
    · left
      simp [rbufLinearBytesRead, holds.type_eq, state, holds.size_eq, ahead,
        position, toEnd]

end Counts

/-! ## State updates -/

section StateUpdate

variable {capacity : Nat} (buf : Buffer)
variable (ring : buf.type = .ring)
variable (size : buf.bufLenBytes = capacity)

include ring size

/-- After a write the write pointer is wrapped, and equal pointers mean that the
buffer is full. -/
theorem setBufferState_write
    (readPtrLt : buf.readPtr < capacity)
    (writePtrLe : buf.writePtr ≤ capacity) :
    setBufferState buf 'w' =
      { buf with
        writePtr := buf.writePtr % capacity
        state :=
          if buf.readPtr = buf.writePtr % capacity then .full
          else .normal } := by
  have readInside : ¬capacity ≤ buf.readPtr := by omega
  have wrapped := mod_of_lt_two_mul buf.writePtr capacity (by omega)
  rw [wrapped]
  by_cases atEnd : capacity ≤ buf.writePtr
  · simp only [setBufferState, setRbufState, ring, size, readInside, atEnd,
      Nat.not_lt.mpr atEnd, ne_eq, not_true_eq_false, if_true, if_false]
    by_cases equal : buf.readPtr = buf.writePtr - capacity <;> simp [equal]
  · simp only [setBufferState, setRbufState, ring, size, readInside, atEnd,
      Nat.lt_of_not_le atEnd, ne_eq, not_true_eq_false, if_true, if_false]
    by_cases equal : buf.readPtr = buf.writePtr <;> simp [equal]

/-- After a read the read pointer is wrapped, and equal pointers mean that the
buffer is empty. -/
theorem setBufferState_read
    (readPtrLe : buf.readPtr ≤ capacity)
    (writePtrLt : buf.writePtr < capacity) :
    setBufferState buf 'r' =
      { buf with
        readPtr := buf.readPtr % capacity
        state :=
          if buf.readPtr % capacity = buf.writePtr then .empty
          else .normal } := by
  have writeInside : ¬capacity ≤ buf.writePtr := by omega
  have wrapped := mod_of_lt_two_mul buf.readPtr capacity (by omega)
  rw [wrapped]
  by_cases atEnd : capacity ≤ buf.readPtr
  · simp only [setBufferState, setRbufState, ring, size, writeInside, atEnd,
      Nat.not_lt.mpr atEnd, ne_eq, not_true_eq_false, if_true, if_false]
    by_cases equal : buf.readPtr - capacity = buf.writePtr <;> simp [equal]
  · simp only [setBufferState, setRbufState, ring, size, writeInside, atEnd,
      Nat.lt_of_not_le atEnd, ne_eq, not_true_eq_false, if_true, if_false]
    by_cases equal : buf.readPtr = buf.writePtr <;> simp [equal]

end StateUpdate

/-- Storing `data` behind the contents and advancing the write pointer appends
it. When nothing is stored the buffer has to be full already, since the pointers
are then equal. -/
theorem RingHolds.append
    {capacity : Nat}
    {buf : Buffer}
    {items data : List UInt8}
    (holds : RingHolds capacity buf items)
    (room : items.length + data.length ≤ capacity)
    (progress : 0 < data.length ∨ items.length = capacity) :
    RingHolds capacity
      { buf with
        buf := circularStore buf.buf buf.writePtr data
        writePtr := (buf.writePtr + data.length) % capacity
        state :=
          if buf.readPtr = (buf.writePtr + data.length) % capacity then .full
          else .normal }
      (items ++ data) := by
  have readPtrLt := holds.readPtr_lt
  have pointer :
      (buf.writePtr + data.length) % capacity =
        (buf.readPtr + (items ++ data).length) % capacity := by
    rw [holds.writePtr_eq, Nat.mod_add_mod, List.length_append, Nat.add_assoc]
  refine
    { type_eq := holds.type_eq
      size_eq := holds.size_eq
      area_length := by simpa using holds.area_length
      readPtr_lt := readPtrLt
      writePtr_eq := pointer
      bounded := by simpa using room
      state_eq := ?_
      contents := ?_ }
  · have wrapped := mod_of_lt_two_mul
      (buf.readPtr + (items ++ data).length) capacity
      (by simp only [List.length_append]; omega)
    simp only [pointer, fillState]
    simp only [List.length_append] at wrapped ⊢
    rw [wrapped]
    split_ifs <;> first | rfl | omega
  · have stored := window_circularStore buf.buf data
      (by rw [holds.area_length]; exact readPtrLt)
      (by rw [holds.area_length]; exact room)
    rw [holds.area_length, ← holds.writePtr_eq, holds.contents] at stored
    simpa using stored

/-- Advancing the read pointer removes the oldest bytes. When it does not move
the buffer has to be empty already. -/
theorem RingHolds.dropFront
    {capacity count : Nat}
    {buf : Buffer}
    {items : List UInt8}
    (holds : RingHolds capacity buf items)
    (le : count ≤ items.length)
    (progress : 0 < count ∨ items.length = 0) :
    RingHolds capacity
      { buf with
        readPtr := (buf.readPtr + count) % capacity
        state :=
          if (buf.readPtr + count) % capacity = buf.writePtr then .empty
          else .normal }
      (items.drop count) := by
  have readPtrLt := holds.readPtr_lt
  have bounded := holds.bounded
  have pointer :
      buf.writePtr =
        ((buf.readPtr + count) % capacity + (items.drop count).length) %
          capacity := by
    rw [holds.writePtr_eq, Nat.mod_add_mod, List.length_drop]
    congr 1
    omega
  refine
    { type_eq := holds.type_eq
      size_eq := holds.size_eq
      area_length := holds.area_length
      readPtr_lt := Nat.mod_lt _ (by omega)
      writePtr_eq := pointer
      bounded := by rw [List.length_drop]; omega
      state_eq := ?_
      contents := ?_ }
  · have advanced := mod_of_lt_two_mul
      (buf.readPtr + count) capacity (by omega)
    simp only [fillState, List.length_drop, advanced]
    rcases holds.writePtr_cases with ⟨unwrapped, _⟩ | wrapped <;>
      split_ifs <;> first | rfl | omega
  · have dropped := drop_window buf.buf buf.readPtr
      (by rw [holds.area_length]; exact bounded) le
    rw [holds.area_length, holds.contents] at dropped
    simpa using dropped.symm

/-! ## Transfers -/

section Transfers

variable {capacity nBytes : Nat} {buf : Buffer} {items : List UInt8}
variable (holds : RingHolds capacity buf items)
variable (capacityBound : capacity < 2 ^ 32)

include holds capacityBound

theorem prepareBufWrite_ring :
    prepareBufWrite buf nBytes = min nBytes (capacity - items.length) := by
  rw [prepareBufWrite_eq, bufferNWriteBytes, holds.type_eq]
  simp only [rbufNWriteBytes_eq holds capacityBound]

theorem prepareBufRead_ring :
    prepareBufRead buf nBytes = min nBytes items.length := by
  rw [prepareBufRead_eq, bufferNReadBytes, holds.type_eq]
  simp only [rbufNReadBytes_eq holds capacityBound]

omit capacityBound in
/-- However the raw area and the write pointer were updated: if they agree with
a circular store at the write pointer, ending the write appends the data. -/
theorem finishTransfer_write
    {data area : List UInt8}
    {count pointer : Nat}
    {accesses : List BufferEffect}
    (dataLength : data.length = count)
    (room : items.length + count ≤ capacity)
    (progress : 0 < count ∨ items.length = capacity)
    (stored : area = circularStore buf.buf buf.writePtr data)
    (pointerLe : pointer ≤ capacity)
    (advanced : pointer % capacity = (buf.writePtr + count) % capacity)
    (inBounds : ∀ range ∈ accessesOf accesses, range.InBounds) :
    Moves (RingHolds capacity · (items ++ data)) count none
      (finishTransfer { buf with buf := area, writePtr := pointer } 'w' none
        count accesses) := by
  subst dataLength
  refine finishTransfer_moves ?_ inBounds
  rw [setBufferState_write { buf with buf := area, writePtr := pointer }
    holds.type_eq holds.size_eq holds.readPtr_lt pointerLe]
  simp only [advanced, stored]
  exact (holds.append room progress).withMutex _

omit capacityBound in
/-- However the read pointer was updated: if it agrees with advancing it by
`count`, ending the read removes the oldest bytes. -/
theorem finishTransfer_read
    {dest : Option (List UInt8)}
    {count pointer : Nat}
    {accesses : List BufferEffect}
    (available : count ≤ items.length)
    (progress : 0 < count ∨ items.length = 0)
    (pointerLe : pointer ≤ capacity)
    (advanced : pointer % capacity = (buf.readPtr + count) % capacity)
    (inBounds : ∀ range ∈ accessesOf accesses, range.InBounds) :
    Moves (RingHolds capacity · (items.drop count)) count dest
      (finishTransfer { buf with readPtr := pointer } 'r' dest count
        accesses) := by
  refine finishTransfer_moves ?_ inBounds
  rw [setBufferState_read { buf with readPtr := pointer }
    holds.type_eq holds.size_eq pointerLe holds.writePtr_lt]
  simp only [advanced]
  exact (holds.dropFront available progress).withMutex _

/-- With the mutex held, writing data that fits appends it. -/
theorem rbufWriteHeld_moves
    {src : List UInt8}
    {count : Nat}
    (supplied : count ≤ src.length)
    (room : items.length + count ≤ capacity)
    (progress : 0 < count ∨ items.length = capacity) :
    Moves (RingHolds capacity · (items ++ src.take count)) count none
      (rbufWriteHeld buf src count) := by
  have writePtrLt := holds.writePtr_lt
  have dataLength : (src.take count).length = count :=
    List.length_take_of_le supplied
  unfold rbufWriteHeld
  by_cases split : rbufLinearBytesWrite buf < count
  · have linear : rbufLinearBytesWrite buf = capacity - buf.writePtr := by
      rcases rbufLinearBytesWrite_cases holds capacityBound with
        linear | ⟨covers, _⟩
      · exact linear
      · omega
    simp only [split, if_true]
    rw [linear] at split ⊢
    refine finishTransfer_write holds dataLength room progress
      ?stored (by omega) ?advanced ?inBounds
    case stored =>
      rw [circularStore, if_neg (by rw [holds.area_length]; omega),
        holds.area_length, List.take_take, Nat.min_eq_left (by omega),
        List.drop_take]
    case advanced =>
      rw [mod_of_lt_two_mul (buf.writePtr + count) capacity (by omega),
        if_neg (by omega), Nat.mod_eq_of_lt (by omega)]
      omega
    case inBounds =>
      have first : buf.writePtr + (capacity - buf.writePtr) ≤ capacity := by
        omega
      have second : 0 + (count - (capacity - buf.writePtr)) ≤ capacity := by
        omega
      simp [areaAccess, Access.InBounds, holds.size_eq, first]
      omega
  · have whole : buf.writePtr + count ≤ capacity := by
      rcases rbufLinearBytesWrite_cases holds capacityBound with
        linear | ⟨_, fits⟩ <;> omega
    simp only [split, if_false]
    refine finishTransfer_write holds dataLength room progress
      ?stored whole rfl ?inBounds
    case stored =>
      rw [circularStore, if_pos (by rw [holds.area_length]; omega)]
    case inBounds =>
      simpa [areaAccess, Access.InBounds, holds.size_eq] using whole

/-- A write to a ring buffer appends the bytes there is room for. -/
theorem rbufWrite_moves
    (free : buf.m.locked = false)
    {src : List UInt8}
    (supplied : nBytes ≤ src.length) :
    ∃ call, rbufWrite buf src nBytes = some call ∧
      Moves
        (RingHolds capacity · (items ++
          (src.take nBytes).take (capacity - items.length)))
        (min nBytes (capacity - items.length)) none call := by
  have bounded := holds.bounded
  apply lockedTransfer_moves holds.type_eq free
  · intro none
    subst none
    exact ⟨by simpa using holds, Nat.zero_min _, rfl⟩
  · intro some
    have held := holds.withMutex { locked := true }
    rw [prepareBufWrite_ring held capacityBound, List.take_take, Nat.min_comm]
    exact rbufWriteHeld_moves held capacityBound
      (by omega) (by omega) (by omega)

/-- With the mutex held, reading bytes that are there removes and delivers
them. -/
theorem rbufReadHeld_moves
    {dest : Option (List UInt8)}
    {count : Nat}
    (supplied : ∀ block ∈ dest, count ≤ block.length)
    (available : count ≤ items.length)
    (progress : 0 < count ∨ items.length = 0) :
    Moves (RingHolds capacity · (items.drop count)) count
      (delivered dest (items.take count)) (rbufReadHeld buf dest count) := by
  have readPtrLt := holds.readPtr_lt
  have bounded := holds.bounded
  have front : items.take count = window buf.buf buf.readPtr count := by
    rw [← take_window available, holds.contents]
  unfold rbufReadHeld
  by_cases split : rbufLinearBytesRead buf < count
  · have linear : rbufLinearBytesRead buf = capacity - buf.readPtr := by
      rcases rbufLinearBytesRead_cases holds capacityBound with
        linear | ⟨covers, _⟩
      · exact linear
      · omega
    simp only [split, if_true]
    rw [linear] at split ⊢
    have copied :
        copyOut buf (copyOut buf dest 0 buf.readPtr (capacity - buf.readPtr))
            (capacity - buf.readPtr) 0 (count - (capacity - buf.readPtr)) =
          delivered dest (items.take count) := by
      rw [front, window_eq_load_append (by rw [holds.area_length]; omega)
        (by rw [holds.area_length]; exact readPtrLt)
        (by rw [holds.area_length]; omega), holds.area_length]
      exact copyOut_copyOut
        (length_load (by rw [holds.area_length]; omega))
        (length_load (by rw [holds.area_length]; omega))
        (fun block member => by
          have := supplied block member
          omega)
    rw [copied]
    refine finishTransfer_read holds available progress
      (by omega) ?advanced ?inBounds
    case advanced =>
      rw [mod_of_lt_two_mul (buf.readPtr + count) capacity (by omega),
        if_neg (by omega), Nat.mod_eq_of_lt (by omega)]
      omega
    case inBounds =>
      rw [accessesOf_append, List.forall_mem_append]
      exact ⟨copyOutAccess_inBounds dest (by rw [holds.size_eq]; omega),
        copyOutAccess_inBounds dest (by rw [holds.size_eq]; omega)⟩
  · have whole : buf.readPtr + count ≤ capacity := by
      rcases rbufLinearBytesRead_cases holds capacityBound with
        linear | ⟨_, fits⟩ <;> omega
    simp only [split, if_false]
    have copied :
        copyOut buf dest 0 buf.readPtr count =
          delivered dest (items.take count) := by
      rw [front, window_eq_load (by rw [holds.area_length]; exact whole)
        (by rw [holds.area_length]; exact readPtrLt)]
      rfl
    rw [copied]
    exact finishTransfer_read holds available progress whole rfl
      (copyOutAccess_inBounds dest (by rw [holds.size_eq]; exact whole))

/-- A read from a ring buffer removes and delivers the oldest bytes. -/
theorem rbufRead_moves
    (free : buf.m.locked = false)
    {dest : Option (List UInt8)}
    (supplied : ∀ block ∈ dest, nBytes ≤ block.length) :
    ∃ call, rbufRead buf dest nBytes = some call ∧
      Moves (RingHolds capacity · (items.drop nBytes))
        (min nBytes items.length) (delivered dest (items.take nBytes))
        call := by
  have bounded := holds.bounded
  apply lockedTransfer_moves holds.type_eq free
  · intro none
    subst none
    exact ⟨by simpa using holds, Nat.zero_min _, by simp⟩
  · intro some
    have held := holds.withMutex { locked := true }
    rw [prepareBufRead_ring held capacityBound,
      @List.take_eq_take_min _ items, @List.drop_eq_drop_min _ items]
    exact rbufReadHeld_moves held capacityBound
      (fun block member => by
        have := supplied block member
        omega)
      (by omega) (by omega)

end Transfers

/-! ## Refinement of the bounded queue -/

/-- The purpose of a ring buffer: calls act on a queue of bounded capacity. -/
def Foundation.BoundedFifo.serve
    {capacity : Nat}
    (queue : BoundedFifo UInt8 capacity) :
    BufferIo → QueueReply (BoundedFifo UInt8 capacity)
  | .write src nBytes =>
      { count := min nBytes queue.room
        dest := none
        after := queue.write (src.take nBytes) }
  | .read dest nBytes =>
      { count := min nBytes queue.items.length
        dest := delivered dest (queue.items.take nBytes)
        after := queue.read nBytes }
  | .reset => { count := 0, dest := none, after := .empty }

/-- A call on a ring buffer of the given capacity agrees with the reply of the
queue: the returned count, the delivered bytes, both counters, the state flag,
and all pointers and ranges inside the raw area. -/
structure RingServes
    (capacity : Nat)
    (call : BufferCall)
    (reply : QueueReply (BoundedFifo UInt8 capacity)) : Prop where
  rc_eq : call.rc = reply.count
  dest_eq : call.dest = reply.dest
  readable : bufferNReadBytes call.buf = reply.after.items.length
  writable : bufferNWriteBytes call.buf = capacity - reply.after.items.length
  empty_iff : call.buf.state = .empty ↔ reply.after.items.length = 0
  full_iff : call.buf.state = .full ↔ reply.after.items.length = capacity
  readPtr_lt : call.buf.readPtr < capacity
  writePtr_lt : call.buf.writePtr < capacity
  area_length : call.buf.buf.length = capacity
  size_eq : call.buf.bufLenBytes = capacity
  inBounds : ∀ range ∈ call.accesses, range.InBounds

/-- The state flag tells exactly whether the buffer is empty or full. -/
theorem RingHolds.state_iff
    {capacity : Nat}
    {buf : Buffer}
    {items : List UInt8}
    (holds : RingHolds capacity buf items) :
    (buf.state = .empty ↔ items.length = 0) ∧
      (buf.state = .full ↔ items.length = capacity) := by
  have readPtrLt := holds.readPtr_lt
  rcases holds.state_cases with
    ⟨state, length⟩ | ⟨state, length⟩ | ⟨state, positive, below⟩ <;>
    rw [state] <;> constructor <;> constructor <;> intro h <;>
    first | rfl | omega | cases h

/-- A transfer that leaves the ring buffer holding the queue's items agrees
with the queue. -/
theorem Transfers.ringServes
    {capacity : Nat}
    {reply : QueueReply (BoundedFifo UInt8 capacity)}
    {call : BufferCall}
    (capacityBound : capacity < 2 ^ 31)
    (transfers :
      Transfers (RingHolds capacity · reply.after.items) reply.count
        reply.dest call) :
    RingServes capacity call reply where
  rc_eq := transfers.rc_eq
  dest_eq := transfers.dest_eq
  readable := by
    unfold bufferNReadBytes
    rw [transfers.after.type_eq]
    exact rbufNReadBytes_eq transfers.after (by omega)
  writable := by
    unfold bufferNWriteBytes
    rw [transfers.after.type_eq]
    exact rbufNWriteBytes_eq transfers.after (by omega)
  empty_iff := transfers.after.state_iff.1
  full_iff := transfers.after.state_iff.2
  readPtr_lt := transfers.after.readPtr_lt
  writePtr_lt := transfers.after.writePtr_lt
  area_length := transfers.after.area_length
  size_eq := transfers.after.size_eq
  inBounds := transfers.inBounds

/-- One call on a ring buffer whose mutex is free returns and acts on the
contents as on a bounded queue. -/
theorem BufferIo.call_ring
    {capacity : Nat}
    {buf : Buffer}
    (capacityBound : capacity < 2 ^ 32)
    (queue : BoundedFifo UInt8 capacity)
    (holds : RingHolds capacity buf queue.items)
    (free : buf.m.locked = false)
    (io : BufferIo)
    (supplied : io.Supplied) :
    ∃ call, io.call buf = some call ∧
      Moves (RingHolds capacity · (queue.serve io).after.items)
        (queue.serve io).count (queue.serve io).dest call := by
  have bounded := queue.bounded
  cases io with
  | write src nBytes =>
      obtain ⟨call, returns, moves⟩ :=
        rbufWrite_moves holds capacityBound free supplied
      refine ⟨signalWrite (recordWrite buf src nBytes) call, ?_,
        signalWrite_moves moves (by simp)⟩
      simp only [BufferIo.call, bufferWrite, holds.type_eq, returns,
        Option.map_some]
  | read dest nBytes =>
      obtain ⟨call, returns, moves⟩ :=
        rbufRead_moves holds capacityBound free supplied
      refine ⟨call, ?_, moves⟩
      simp only [BufferIo.call, bufferRead, holds.type_eq, returns]
  | reset =>
      exact ⟨_, rfl,
        { after := holds.bufferReset
          free := free
          rc_eq := (toSigned_zero 32).symm
          dest_eq := rfl
          inBounds := by simp [BufferCall.accesses, returnEarly] }⟩

/-- A call transfers no more bytes than the queue has room for. -/
theorem Foundation.BoundedFifo.serve_count_le
    {capacity : Nat}
    (queue : BoundedFifo UInt8 capacity)
    (io : BufferIo) :
    (queue.serve io).count ≤ capacity := by
  have bounded := queue.bounded
  cases io with
  | write src nBytes => exact (Nat.min_le_right _ _).trans (Nat.sub_le _ _)
  | read dest nBytes => exact (Nat.min_le_right _ _).trans bounded
  | reset => exact Nat.zero_le _

/-- Step lemma of the refinement. -/
theorem bufferStep_ring
    {capacity : Nat}
    (capacityBound : capacity < 2 ^ 31)
    (buf : Buffer)
    (queue : BoundedFifo UInt8 capacity)
    (io : BufferIo)
    (related : RingHolds capacity buf queue.items ∧ buf.m.locked = false)
    (supplied : io.Supplied) :
    ∃ next call, bufferStep buf io = some (next, call) ∧
      (RingHolds capacity next
          (QueueReply.step BoundedFifo.serve queue io).1.items ∧
        next.m.locked = false) ∧
      RingServes capacity call
        (QueueReply.step BoundedFifo.serve queue io).2 := by
  obtain ⟨call, returns, moves⟩ :=
    BufferIo.call_ring (by omega) queue related.1 related.2 io supplied
  have transfers := moves.transfers
    (Nat.lt_of_le_of_lt (queue.serve_count_le io) capacityBound)
  exact ⟨call.buf, call, by simp [bufferStep, returns],
    ⟨transfers.after, transfers.free⟩, transfers.ringServes capacityBound⟩

/-- Every sequence of calls on a new ring buffer is served as by a queue of the
same capacity. -/
theorem ringBuffer_refines_boundedFifo
    (capacity : Nat)
    (capacityPositive : 0 < capacity)
    (capacityBound : capacity < 2 ^ 31)
    (ios : List BufferIo)
    (supplied : ∀ io ∈ ios, io.Supplied) :
    ∃ final calls,
      runSteps bufferStep (bufferInit capacity .ring) ios =
          some (final, calls) ∧
        List.Forall₂ (RingServes capacity) calls
          (runTotal (QueueReply.step BoundedFifo.serve)
            (BoundedFifo.empty : BoundedFifo UInt8 capacity) ios).2 := by
  obtain ⟨final, calls, ran, _, serves⟩ :=
    runSteps_simulates (bufferStep_ring capacityBound) ios
      (bufferInit capacity .ring) BoundedFifo.empty
      ⟨ringHolds_bufferInit capacityPositive, rfl⟩ supplied
  exact ⟨final, calls, ran, serves⟩

/-- The refinement on a buffer of five bytes: a write that wraps around, a
partial read, and a write cut short by a full buffer. -/
theorem ringBuffer_refines_boundedFifo_five :
    ∃ final calls,
      runSteps bufferStep (bufferInit 5 .ring)
          [.write [1, 2, 3] 3, .read (some [0, 0]) 2,
            .write [4, 5, 6, 7, 8] 5, .read none 1, .reset] =
          some (final, calls) ∧
        List.Forall₂ (RingServes 5) calls
          (runTotal (QueueReply.step BoundedFifo.serve)
            (BoundedFifo.empty : BoundedFifo UInt8 5)
            [.write [1, 2, 3] 3, .read (some [0, 0]) 2,
              .write [4, 5, 6, 7, 8] 5, .read none 1, .reset]).2 :=
  ringBuffer_refines_boundedFifo 5 (by decide) (by decide) _ (by
    simp [BufferIo.Supplied])

end Hiemal
