import Hiemal.Buffer.Copy
import Hiemal.Buffer.Tape

/-!
# The buffer class of the Python package

Translation of `python/hiemal/_c/src/buffer.c`. The objects that exist are a list, in
which a new one comes last, and an object is named by its place in it. A method maps
the buffer of its object to the buffer after the call and to what the interpreter
gets; it is `none` when it does not return, because the mutex is held or because the
source copies something to `NULL`.

Beside it stands what the class is for: objects that are queues, and a count that is
negative.
-/

namespace Hiemal

open Foundation

/-- An argument that a method converts to a count. -/
inductive PyArgument
  /-- An object with `__index__`. -/
  | index (value : Int)
  /-- Another object that passes `PyNumber_Check`. -/
  | inexact
  /-- An object that is no number. -/
  | other

/-- What the interpreter gets from a method. -/
inductive PyResult
  /-- `NULL`, with an exception set. -/
  | error
  | none
  | int (value : Nat)
  | bytes (data : List UInt8)
  | str (text : String)
  | object (self : Nat)
  deriving DecidableEq

/-- `PyNumber_AsSsize_t`, which is `-1` when the conversion raises. -/
def pyNumberAsSsizeT : PyArgument → Int
  | .index value => if -2 ^ 63 ≤ value ∧ value < 2 ^ 63 then value else -1
  | .inexact | .other => -1

/-- `PyMem_Malloc`, which returns `NULL` for a size that is negative as a
`Py_ssize_t`. -/
def pyMemMalloc (size : Int) (fresh : Nat → UInt8) : Option (List UInt8) :=
  if size < 0 then none else some (resize [] size.toNat fresh)

/-- `PyBytes_FromStringAndSize`. -/
def pyBytesFromStringAndSize (str : Option (List UInt8)) (size : Int) : PyResult :=
  if size < 0 then .error else .bytes ((str.getD []).take size.toNat)

/-! ## Methods -/

/-- `hm_buffer_Buffer_init`, called with an integer and a string. -/
def hmBufferBufferInit (nBytes : Int) (bufferTypeStr : String) : Option Buffer :=
  if bufferTypeStr = "RING" then some (bufferInit (toUnsigned 32 nBytes) .ring)
  else if bufferTypeStr = "LINEAR" then
    some (bufferInit (toUnsigned 32 nBytes) .linear)
  else none

/-- The text of an object with the given counts. -/
def bufferText (bytesReadable bytesWritable : Nat) : String :=
  "Buffer(bytes_readable=" ++ toString bytesReadable ++
    ", bytes_writable=" ++ toString bytesWritable ++ ")"

/-- `hm_buffer_Buffer_tp_str`. -/
def hmBufferBufferTpStr (self : Buffer) : String :=
  bufferText (bufferNReadBytes self) (bufferNWriteBytes self)

/-- The count that `read` and `peek` pass on. -/
def bytesToRead (self : Buffer) (args : PyArgument) : Int :=
  let bytesRequested := pyNumberAsSsizeT args
  let bytesAvailable : Int := bufferNReadBytes self
  if bytesRequested < bytesAvailable then bytesRequested else bytesAvailable

/-- `hm_buffer_Buffer_read`. -/
def hmBufferBufferRead
    (self : Buffer)
    (args : PyArgument)
    (fresh : Nat → UInt8) : Option (Buffer × PyResult) :=
  match args with
  | .other => some (self, .error)
  | _ =>
      let bytesRead := bytesToRead self args
      let readBuf := pyMemMalloc bytesRead fresh
      (bufferRead self readBuf (toUnsigned 32 (toSigned 32 bytesRead))).map
        fun call => (call.buf, pyBytesFromStringAndSize call.dest bytesRead)

/-- `buffer_view` from the first byte on, to a block that may be `NULL`: under the
mutex the count is clamped, and then that many bytes are copied without a test. -/
def bufferViewFront
    (src : Buffer)
    (dest : Option (List UInt8))
    (nBytes : Nat) : Option BufferCall :=
  match dest with
  | some block => bufferView src block 0 nBytes
  | none =>
      if prepareBufRead src nBytes = 0 then
        (bufferView src [] 0 nBytes).map fun call => { call with dest := none }
      else none

/-- `hm_buffer_Buffer_peek`. -/
def hmBufferBufferPeek
    (self : Buffer)
    (args : PyArgument)
    (fresh : Nat → UInt8) : Option (Buffer × PyResult) :=
  match args with
  | .other => some (self, .error)
  | _ =>
      let bytesRead := bytesToRead self args
      let readBuf := pyMemMalloc bytesRead fresh
      (bufferViewFront self readBuf (toUnsigned 32 (toSigned 32 bytesRead))).map
        fun call => (call.buf, pyBytesFromStringAndSize call.dest bytesRead)

/-- `hm_buffer_Buffer_write`; the argument is what `PyObject_GetBuffer` gives. -/
def hmBufferBufferWrite
    (self : Buffer)
    (args : Option (List UInt8)) : Option (Buffer × PyResult) :=
  match args with
  | none => some (self, .error)
  | some srcBuf =>
      let srcBufSize := srcBuf.length
      let destBufSize := bufferNWriteBytes self
      let bytesWritten :=
        if srcBufSize < destBufSize then srcBufSize else destBufSize
      (bufferWrite self srcBuf (toUnsigned 32 bytesWritten)).map
        fun call => (call.buf, .int bytesWritten)

/-- The methods that act on one object. -/
inductive PyBufferMethod
  | bytesReadable
  | bytesWritable
  | size
  | str
  | clear
  | read (args : PyArgument) (fresh : Nat → UInt8)
  | peek (args : PyArgument) (fresh : Nat → UInt8)
  | write (args : Option (List UInt8))

def PyBufferMethod.call (self : Buffer) :
    PyBufferMethod → Option (Buffer × PyResult)
  | .bytesReadable => some (self, .int (bufferNReadBytes self))
  | .bytesWritable => some (self, .int (bufferNWriteBytes self))
  | .size => some (self, .int self.bufLenBytes)
  | .str => some (self, .str (hmBufferBufferTpStr self))
  | .clear => some (bufferReset self, .none)
  | .read args fresh => hmBufferBufferRead self args fresh
  | .peek args fresh => hmBufferBufferPeek self args fresh
  | .write args => hmBufferBufferWrite self args

/-- One call from Python. -/
inductive PyBufferCall
  /-- `Buffer(n_bytes, buffer_type)`. -/
  | init (nBytes : Int) (bufferTypeStr : String)
  /-- `hm_buffer_Buffer_copy`. -/
  | copy (self : Nat)
  | method (self : Nat) (method : PyBufferMethod)

def pyBufferStep (objects : List Buffer) :
    PyBufferCall → Option (List Buffer × PyResult)
  | .init nBytes bufferTypeStr =>
      match hmBufferBufferInit nBytes bufferTypeStr with
      | none => some (objects, .error)
      | some buf => some (objects ++ [buf], .object objects.length)
  | .copy self =>
      objects[self]?.map fun buf =>
        (objects ++ [bufferCopy buf], .object objects.length)
  | .method self method =>
      objects[self]?.bind fun buf =>
        (method.call buf).map fun served => (objects.set self served.1, served.2)

/-! ## Queues as objects -/

/-- What an object is to its users: a queue, or a tape that a peek leaves held. -/
inductive PyQueue
  | ring (capacity : Nat) (queue : BoundedFifo UInt8 capacity)
  | linear (capacity : Nat) (tape : Tape UInt8 capacity) (held : Bool)

namespace PyQueue

def capacity : PyQueue → Nat
  | ring capacity _ => capacity
  | linear capacity _ _ => capacity

def items : PyQueue → List UInt8
  | ring _ queue => queue.items
  | linear _ tape _ => tape.items

def room : PyQueue → Nat
  | ring _ queue => queue.room
  | linear _ tape _ => tape.room

def held : PyQueue → Bool
  | ring _ _ => false
  | linear _ _ held => held

def clear : PyQueue → PyQueue
  | ring capacity _ => ring capacity .empty
  | linear capacity _ held => linear capacity .empty held

/-- The oldest `count` items are removed. -/
def discard (count : Nat) : PyQueue → PyQueue
  | ring capacity queue => ring capacity (queue.read count)
  | linear capacity tape held => linear capacity (tape.read count) held

def append (data : List UInt8) : PyQueue → PyQueue
  | ring capacity queue => ring capacity (queue.write data)
  | linear capacity tape held => linear capacity (tape.write data) held

/-- What a peek of `count` items shows: a tape shows its beginning. -/
def shown (count : Nat) : PyQueue → List UInt8
  | ring _ queue => queue.items.take count
  | linear _ tape _ => tape.written.take (min count tape.items.length)

/-- A peek into a tape leaves it held. -/
def peeked : PyQueue → PyQueue
  | ring capacity queue => ring capacity queue
  | linear capacity tape _ => linear capacity tape true

/-- A copy is not held. -/
def copied : PyQueue → PyQueue
  | ring capacity queue => ring capacity queue
  | linear capacity tape _ => linear capacity tape false

/-- A transfer of nothing does nothing; any other one waits until the object is not
held, which never happens. -/
def transfer (queue : PyQueue) (count : Nat) (after : PyQueue) : Option PyQueue :=
  if count = 0 then some queue else if queue.held then none else some after

/-- A read of a negative count raises, after it has discarded as many items as the
count has residue modulo `2 ^ 32`. -/
def read (queue : PyQueue) (args : PyArgument) : Option (PyQueue × PyResult) :=
  match args with
  | .other => some (queue, .error)
  | _ =>
      let requested := pyNumberAsSsizeT args
      if requested < 0 then
        let count := toUnsigned 32 requested
        (queue.transfer count (queue.discard count)).map (·, .error)
      else
        let count := min requested.toNat queue.items.length
        (queue.transfer count (queue.discard count)).map
          (·, .bytes (queue.items.take count))

/-- A peek waits until the object is not held. One of a negative count raises if the
residue of the count modulo `2 ^ 32` shows nothing, and does not return otherwise. -/
def peek (queue : PyQueue) (args : PyArgument) : Option (PyQueue × PyResult) :=
  match args with
  | .other => some (queue, .error)
  | _ =>
      let requested := pyNumberAsSsizeT args
      if queue.held then none
      else if requested < 0 then
        if min (toUnsigned 32 requested) queue.items.length = 0 then
          some (queue.peeked, .error)
        else none
      else some (queue.peeked, .bytes (queue.shown requested.toNat))

def write (queue : PyQueue) (args : Option (List UInt8)) :
    Option (PyQueue × PyResult) :=
  match args with
  | none => some (queue, .error)
  | some src =>
      let count := min src.length queue.room
      (queue.transfer count (queue.append src)).map (·, .int count)

end PyQueue

def PyBufferMethod.serve (self : PyQueue) :
    PyBufferMethod → Option (PyQueue × PyResult)
  | .bytesReadable => some (self, .int self.items.length)
  | .bytesWritable => some (self, .int self.room)
  | .size => some (self, .int self.capacity)
  | .str => some (self, .str (bufferText self.items.length self.room))
  | .clear => some (self.clear, .none)
  | .read args _ => self.read args
  | .peek args _ => self.peek args
  | .write args => self.write args

def pyQueueInit (nBytes : Int) (bufferTypeStr : String) : Option PyQueue :=
  if bufferTypeStr = "RING" then some (.ring (toUnsigned 32 nBytes) .empty)
  else if bufferTypeStr = "LINEAR" then
    some (.linear (toUnsigned 32 nBytes) .empty false)
  else none

def pyQueueStep (objects : List PyQueue) :
    PyBufferCall → Option (List PyQueue × PyResult)
  | .init nBytes bufferTypeStr =>
      match pyQueueInit nBytes bufferTypeStr with
      | none => some (objects, .error)
      | some queue => some (objects ++ [queue], .object objects.length)
  | .copy self =>
      objects[self]?.map fun queue =>
        (objects ++ [queue.copied], .object objects.length)
  | .method self method =>
      objects[self]?.bind fun queue =>
        (method.serve queue).map fun served => (objects.set self served.1, served.2)

/-! ## One object -/

/-- A buffer represents an object. -/
inductive PyHolds : Buffer → PyQueue → Prop
  | ring
      {capacity : Nat}
      {buf : Buffer}
      {queue : BoundedFifo UInt8 capacity}
      (capacityBound : capacity < 2 ^ 32)
      (holds : BufferHolds capacity buf queue.items)
      (type_eq : buf.type = .ring)
      (free : buf.m.locked = false) :
      PyHolds buf (.ring capacity queue)
  | linear
      {capacity : Nat}
      {buf : Buffer}
      {tape : Tape UInt8 capacity}
      {held : Bool}
      (capacityBound : capacity < 2 ^ 32)
      (holds : TapeHolds capacity buf tape)
      (locked_eq : buf.m.locked = held) :
      PyHolds buf (.linear capacity tape held)

end Hiemal
