import Hiemal.Buffer.Defs
import Hiemal.Foundation.Transition

/-!
# Descriptor sources and sinks

Translation of the descriptor functions of `core/io.c`. A descriptor of a regular
file has the content of the file and an offset into it; `read` and `write`
transfer all that is there and advance the offset. The functions wrap the memory
of their caller in a ring buffer and move the data through a temporary block whose
cells `malloc` leaves as they are.
-/

namespace Hiemal

open Foundation

/-- A descriptor of a regular file. -/
structure OpenFile where
  content : List UInt8
  offset : Nat
  deriving DecidableEq

/-- An empty regular file. -/
def OpenFile.empty : OpenFile where
  content := []
  offset := 0

/-- `lseek(fd, 0, SEEK_SET)`. -/
def OpenFile.rewind (fd : OpenFile) : OpenFile :=
  { fd with offset := 0 }

/-- `read(fd, buf, n_bytes)`: the bytes read. -/
def OpenFile.read (fd : OpenFile) (nBytes : Nat) : OpenFile × List UInt8 :=
  let data := load fd.content fd.offset nBytes
  ({ fd with offset := fd.offset + data.length }, data)

/-- `write(fd, buf, n_bytes)` of the given bytes, at an offset within the file. -/
def OpenFile.write (fd : OpenFile) (data : List UInt8) : OpenFile where
  content :=
    fd.content.take fd.offset ++ data ++
      fd.content.drop (fd.offset + data.length)
  offset := fd.offset + data.length

/-- Asking for what there is reads what asking for more would. -/
theorem read_clamped (fd : OpenFile) (nBytes : Nat) :
    fd.read (min nBytes (fd.content.length - fd.offset)) = fd.read nBytes := by
  have same :
      load fd.content fd.offset
          (min nBytes (fd.content.length - fd.offset)) =
        load fd.content fd.offset nBytes := by
    rw [load, load, List.take_eq_take_iff, List.length_drop]
    omega
  rw [OpenFile.read, OpenFile.read, same]

/-- A read stops at the end of the file. -/
theorem length_read (fd : OpenFile) (nBytes : Nat) :
    (fd.read nBytes).2.length =
      min nBytes (fd.content.length - fd.offset) := by
  simp only [OpenFile.read, load, List.length_take, List.length_drop]

/-- Writing at the end of a file appends. -/
theorem write_at_end (content data : List UInt8) :
    OpenFile.write { content := content, offset := content.length } data =
      { content := content ++ data
        offset := (content ++ data).length } := by
  simp [OpenFile.write]

/-- Reading leaves the content, and what remains is behind what was read. -/
theorem read_eq
    {fd advanced : OpenFile}
    {nBytes : Nat}
    {data : List UInt8}
    (read : fd.read nBytes = (advanced, data)) :
    data = (fd.content.drop fd.offset).take nBytes ∧
      advanced.content = fd.content ∧
        advanced.content.drop advanced.offset =
          (fd.content.drop fd.offset).drop nBytes := by
  cases read
  refine ⟨rfl, rfl, ?_⟩
  rw [List.drop_drop, load, List.length_take, List.length_drop]
  apply List.drop_eq_drop_iff.mpr
  dsimp only
  omega

/-- The bytes between the offset and the end of the file, as an `int`. -/
def fdBytesAvailable (fd : OpenFile) : Int :=
  let curPos := toSigned 32 fd.offset
  let fdSize := toSigned 32 fd.content.length
  toSigned 32 (fdSize - curPos)

/-- `if (n_bytes > bytes_available) n_bytes = bytes_available`, where the `int` is
converted to `unsigned int`. -/
def clampRequest (nBytes : Nat) (bytesAvailable : Int) : Nat :=
  if toUnsigned 32 bytesAvailable < nBytes then toUnsigned 32 bytesAvailable
  else nBytes

/-- The outcome of a source or sink: the descriptor, the buffer and the C return
value. -/
structure FdCall where
  fd : OpenFile
  buf : Buffer
  rc : Int

/-- `src_fd_impl`; `fresh` are the cells of the temporary block. -/
def srcFdImpl
    (nBytes : Nat)
    (fd : OpenFile)
    (buf : Buffer)
    (fresh : Nat → UInt8) : Option FdCall := do
  let nBytes := clampRequest nBytes (fdBytesAvailable fd)
  let tmpBuf := resize [] nBytes fresh
  let (fd, data) := fd.read nBytes
  let tmpBuf := store tmpBuf 0 data
  let call ← bufferWrite buf tmpBuf nBytes
  return { fd := fd, buf := call.buf, rc := toSigned 32 nBytes }

/-- `sink_fd_impl`; `fresh` are the cells of the temporary block. -/
def sinkFdImpl
    (nBytes : Nat)
    (buf : Buffer)
    (fd : OpenFile)
    (fresh : Nat → UInt8) : Option FdCall := do
  let nBytes := clampRequest nBytes (toSigned 32 (bufferNReadBytes buf))
  let tmpBuf := resize [] nBytes fresh
  let call ← bufferRead buf (some tmpBuf) nBytes
  let fd := fd.write ((call.dest.getD tmpBuf).take nBytes)
  return { fd := fd, buf := call.buf, rc := toSigned 32 nBytes }

/-- A call of `src_fd` or `sink_fd`: the requested number of bytes, the memory of
the caller, and the cells of the temporary block. -/
structure FdRequest where
  nBytes : Nat
  buf : List UInt8
  fresh : Nat → UInt8

/-- The caller's side: the memory holds the requested bytes, an `unsigned int`. -/
def FdRequest.Supplied (request : FdRequest) : Prop :=
  request.nBytes ≤ request.buf.length ∧ request.nBytes < 2 ^ 32

/-- What the caller of `src_fd` sees: the return value and its memory. -/
structure SrcFdReply where
  rc : Int
  buf : List UInt8

/-- `src_fd`. The buffer handle covers the first `n_bytes` cells of the caller's
memory. -/
def srcFd (fd : OpenFile) (request : FdRequest) :
    Option (OpenFile × SrcFdReply) := do
  let area := request.buf.take request.nBytes
  let dest := bufferInitExt request.nBytes .ring area
  let call ← srcFdImpl request.nBytes fd dest request.fresh
  return (call.fd,
    { rc := call.rc
      buf := call.buf.buf ++ request.buf.drop request.nBytes })

/-- `sink_fd`, with its return value. -/
def sinkFd (fd : OpenFile) (request : FdRequest) :
    Option (OpenFile × Int) := do
  let area := request.buf.take request.nBytes
  let src :=
    { bufferInitExt request.nBytes .ring area with state := .full }
  let call ← sinkFdImpl request.nBytes src fd request.fresh
  return (call.fd, call.rc)

end Hiemal
