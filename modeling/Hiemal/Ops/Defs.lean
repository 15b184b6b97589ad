import Hiemal.Foundation.MachineInteger
import Hiemal.Format.Defs

/-!
# Source, sink and dsp ops

Translation of the op interface in `core/ops/ops_internal.h.in` and
`core/ops/ops.c.in`, and of the file ops. An op is a record of functions over
the type of its own state. What an op function does to the memory it is handed
is its answer: the bytes a source delivers, the number of bytes a sink accepts,
the cells a dsp op outputs. The answer carries its bound, and its length is the
C return value.

The byte count handed to an op function is an `unsigned int`, so the wrappers
reduce it modulo `2 ^ 32`.
-/

namespace Hiemal

open Foundation

/-- The literals of a `size_t`. -/
instance sizeT_neZero : NeZero (2 ^ 64) :=
  ⟨by decide⟩

/-- What a `bytes_readable` or `bytes_writable` callback leaves behind. -/
structure Report (State : Type) where
  /-- The value of the `size_t` out-parameter after the call. -/
  value : Nat
  bounded : value < 2 ^ 64
  /-- The C return value. -/
  rc : Int
  state : State

/-- The report of a `size_t` value. -/
def Report.of
    {State : Type}
    (value : Fin (2 ^ 64))
    (rc : Int)
    (state : State) : Report State where
  value := value
  bounded := value.isLt
  rc := rc
  state := state

/-- The bytes a source delivers for a request of `nBytes`. -/
structure Delivery (nBytes : Nat) where
  bytes : List UInt8
  bounded : bytes.length ≤ nBytes

/-- The number of bytes a sink accepts from the front of `src`. -/
structure Acceptance (src : List UInt8) where
  count : Nat
  bounded : count ≤ src.length

/-- Every byte is accepted. -/
def Acceptance.all (src : List UInt8) : Acceptance src where
  count := src.length
  bounded := Nat.le_refl _

/-- The cells a dsp op outputs for the cells of `src`. -/
structure DspOutput {α : Type} (src : List α) where
  cells : List α
  bounded : cells.length ≤ src.length

/-- Every cell is output as it came in. -/
def DspOutput.copy {α : Type} (src : List α) : DspOutput src where
  cells := src
  bounded := Nat.le_refl _

/-- `struct hm_source_op`. -/
structure HmSourceOp (State : Type) where
  opFn : (nBytes : Nat) → State → Delivery nBytes × State
  /-- The second argument is the value of `*bytes_readable` before the call. -/
  bytesReadableFn : State → Fin (2 ^ 64) → Report State
  outputType : HmFormatType

/-- `struct hm_sink_op`. -/
structure HmSinkOp (State : Type) where
  opFn : (src : List UInt8) → State → Acceptance src × State
  /-- The second argument is the value of `*bytes_writable` before the call. -/
  bytesWritableFn : State → Fin (2 ^ 64) → Report State
  inputType : HmFormatType

/-- `struct hm_dsp_op`, over cells of `cellBytes` bytes each. -/
structure HmDspOp (α : Type) (cellBytes : Nat) (State : Type) where
  opFn : (src : List α) → State → DspOutput src × State
  inputType : HmFormatType
  outputType : HmFormatType

def hmOpSourceBytesReadable
    {State : Type}
    (sourceOp : HmSourceOp State)
    (state : State)
    (bytesReadable : Fin (2 ^ 64)) : Report State :=
  sourceOp.bytesReadableFn state bytesReadable

def hmOpSinkBytesWritable
    {State : Type}
    (sinkOp : HmSinkOp State)
    (state : State)
    (bytesWritable : Fin (2 ^ 64)) : Report State :=
  sinkOp.bytesWritableFn state bytesWritable

/-- What a source delivers when it is run with a byte count. -/
def hmSourceOpRun
    {State : Type}
    (op : HmSourceOp State)
    (state : State)
    (nBytes : Nat) : Delivery (nBytes % 2 ^ 32) × State :=
  op.opFn (nBytes % 2 ^ 32) state

/-- The bytes handed to a sink that is run with a byte count. -/
def handedBytes (src : List UInt8) (nBytes : Nat) : List UInt8 :=
  load src 0 (nBytes % 2 ^ 32)

def hmSinkOpRun
    {State : Type}
    (op : HmSinkOp State)
    (state : State)
    (src : List UInt8)
    (nBytes : Nat) : Acceptance (handedBytes src nBytes) × State :=
  op.opFn (handedBytes src nBytes) state

/-- The cells handed to a dsp op that is run with a byte count. -/
def handedCells
    {α : Type}
    (cellBytes : Nat)
    (src : List α)
    (nBytes : Nat) : List α :=
  load src 0 (nBytes % 2 ^ 32 / cellBytes)

def hmDspOpRun
    {α State : Type}
    {cellBytes : Nat}
    (op : HmDspOp α cellBytes State)
    (state : State)
    (src : List α)
    (nBytes : Nat) : DspOutput (handedCells cellBytes src nBytes) × State :=
  op.opFn (handedCells cellBytes src nBytes) state

/-! ## File ops -/

/-- `INT_MAX`. -/
def intMax : Nat := 2 ^ 31 - 1

/-- `SOURCE_OP(file)`: `fread` delivers the next bytes of the file, as many as
there are. `fionread` is the number that `ioctl(fd, FIONREAD, ..)` stores when
the given bytes are left. -/
def fileSourceOp
    (fionread : List UInt8 → Fin (2 ^ 64))
    (outputType : HmFormatType) : HmSourceOp (List UInt8) where
  opFn nBytes unread :=
    ({ bytes := unread.take nBytes
       bounded := List.length_take_le nBytes unread },
      unread.drop nBytes)
  bytesReadableFn unread _ := .of (fionread unread) 0 unread
  outputType := outputType

/-- `SINK_OP(file)`: `fwrite` appends all bytes to the file. The
`bytes_writable` callback returns `INT_MAX` and leaves its out-parameter as it
is. -/
def fileSinkOp (inputType : HmFormatType) : HmSinkOp (List UInt8) where
  opFn src written := (Acceptance.all src, written ++ src)
  bytesWritableFn written bytesWritable := .of bytesWritable intMax written
  inputType := inputType

end Hiemal
