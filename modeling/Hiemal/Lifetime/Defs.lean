import Hiemal.Buffer.Additions
import Hiemal.Buffer.Descriptors
import Hiemal.Event.Defs
import Hiemal.Foundation.Heap

/-!
# The blocks of buffers, events and recordings

Translation of what `core/buffer.c`, `core/event_unix.c` and `core/recording.c` allocate,
release and point to. A function is given here with the blocks it reaches, in the order
of the source, and returns `none` if one of them is not there (or is of another kind):
after a release, an access through a pointer that was kept is an error.

What the blocks of a transfer contain is the subject of other modules. The area of a
buffer that was made with `buffer_init_ext` is the caller's. Blocking is not modelled: a
transfer that waits for the mutex or for room in a pipe, and a poll that waits for a
record, reach no further block meanwhile. Addresses are not handed out twice.
-/

namespace Hiemal

open Foundation

/-- `struct _buffer`: what it points to, and what decides which blocks are reached. -/
structure BufferBlock where
  buf : Nat
  extBuf : Bool
  r : Option Nat
  rId : Nat
  fdSet : Nat
  fdHold : Bool
  eventList : Nat
  deriving DecidableEq

/-- `struct _recording`, the array of its buffers and its list in blocks of their
own. -/
structure RecordingBlock where
  active : Bool
  nBuffer : Nat
  buffers : Nat
  buflist : Nat
  deriving DecidableEq

/-- What is in a block. -/
inductive ObjectBlock
  /-- The bytes of a buffer. -/
  | raw
  /-- A structure whose members are not set yet. -/
  | uninitialised
  | buffer (handle : BufferBlock)
  /-- `struct _buffer_fd_set`, with its `head`. -/
  | fdSet (head : Nat)
  /-- `struct _buffer_fd_set_node`. -/
  | fdNode (fd : Int) (next : Option Nat)
  | eventList (list : HmList)
  /-- `struct hm_list_refnode`. -/
  | refnode (content : HmListNode)
  /-- `struct _hm_event`, with the pointers in its pipe, oldest first. -/
  | event (objType : HmEventObjType) (bufPipe : List Nat)
  /-- `struct _buffer_io_event`. -/
  | bufIoInfo
  | recording (handle : RecordingBlock)
  /-- The array of a recording; a cell that was not stored to is no pointer. -/
  | buffers (items : List (Option Nat))
  /-- A `buf_list` message, with the number of its buffers. -/
  | buflist (nBuffers : Nat)

abbrev ObjectHeap := Heap ObjectBlock

namespace ObjectHeap

variable (heap : ObjectHeap)

/-! ## Blocks by kind -/

def buffer (address : Nat) : Option BufferBlock :=
  match heap.block address with
  | some (.buffer handle) => some handle
  | _ => none

def fdSetHead (address : Nat) : Option Nat :=
  match heap.block address with
  | some (.fdSet head) => some head
  | _ => none

def fdNode (address : Nat) : Option (Int × Option Nat) :=
  match heap.block address with
  | some (.fdNode fd next) => some (fd, next)
  | _ => none

def event (address : Nat) : Option (HmEventObjType × List Nat) :=
  match heap.block address with
  | some (.event objType bufPipe) => some (objType, bufPipe)
  | _ => none

def recording (address : Nat) : Option RecordingBlock :=
  match heap.block address with
  | some (.recording handle) => some handle
  | _ => none

def buffers (address : Nat) : Option (List (Option Nat)) :=
  match heap.block address with
  | some (.buffers items) => some items
  | _ => none

def buflist (address : Nat) : Option Nat :=
  match heap.block address with
  | some (.buflist nBuffers) => some nBuffers
  | _ => none

/-- The nodes of all reference lists. -/
def nodes (address : NodeAddress) : Option HmListNode :=
  match heap.block address with
  | some (.refnode content) => some content
  | _ => none

/-- An event list with the memory its nodes are in. -/
def listMemory (address : Nat) : Option ListMemory :=
  match heap.block address with
  | some (.eventList list) => some { list := list, nodes := nodes heap }
  | _ => none

/-- The heap with an event list and nodes as a list function left them. -/
def withMemory (address : Nat) (m : ListMemory) : ObjectHeap where
  next := heap.next
  block := fun place =>
    if place = address then some (.eventList m.list)
    else match heap.block place with
      | none => (m.nodes place).map .refnode
      | some (.refnode _) => (m.nodes place).map .refnode
      | some other => some other

/-! ## Descriptor sets -/

def bufferFdSetInit : ObjectHeap × Nat :=
  let (heap, fdHead) := heap.malloc (.fdNode (-1) none)
  heap.malloc (.fdSet fdHead)

/-- The loop of `buffer_fd_set_delete`. -/
def freeFdNodes : (fuel : Nat) → ObjectHeap → Option Nat → Option ObjectHeap
  | _, heap, none => some heap
  | 0, _, some _ => none
  | fuel + 1, heap, some fdItr => do
      let (_, fdNext) ← fdNode heap fdItr
      let heap ← heap.free fdItr
      freeFdNodes fuel heap fdNext

def bufferFdSetDelete (fdSet : Nat) : Option ObjectHeap := do
  let head ← fdSetHead heap fdSet
  let heap ← freeFdNodes heap.next heap (some head)
  heap.free fdSet

/-- The loop of `buffer_fd_set_insert`: the last node, unless one has the descriptor. -/
def seekFd (fd : Int) : (fuel : Nat) → (fdItr : Option Nat) → (fdPrev : Nat) →
    Option (Option Nat)
  | _, none, fdPrev => some (some fdPrev)
  | 0, some _, _ => none
  | fuel + 1, some fdItr, _ => do
      let (fdOf, next) ← fdNode heap fdItr
      if fd = fdOf then some none
      else seekFd fd fuel next fdItr

def bufferFdSetInsert (fdSet : Nat) (fd : Int) : Option ObjectHeap := do
  let head ← fdSetHead heap fdSet
  match ← seekFd heap fd heap.next (some head) head with
  | none => some heap
  | some fdPrev =>
      let (heap, newFdNode) := heap.malloc (.fdNode fd none)
      let (fdOf, _) ← fdNode heap fdPrev
      heap.store fdPrev (.fdNode fdOf (some newFdNode))

/-- The loop of `buffer_signal_fds`. -/
def walkFds : (fuel : Nat) → Option Nat → Option Unit
  | _, none => some ()
  | 0, some _ => none
  | fuel + 1, some fdItr => do
      let (_, next) ← fdNode heap fdItr
      walkFds fuel next

def bufferSignalFds (fdSet : Nat) : Option Unit := do
  let head ← fdSetHead heap fdSet
  let (_, next) ← fdNode heap head
  walkFds heap heap.next next

/-! ## Events -/

/-- `hm_event_init`; the pipe of an event on a buffer is empty. -/
def hmEventInit (objType : HmEventObjType) : ObjectHeap × Nat :=
  heap.malloc (.event objType [])

def hmEventDelete (e : Nat) : Option ObjectHeap := do
  let _ ← event heap e
  heap.free e

def hmEventReflistInit : ObjectHeap × Nat :=
  heap.malloc (.eventList hmReflistInit)

/-- `hm_list_append` on an event list; `malloc` returns the next address. -/
def hmListAppend (list e : Nat) : Option ObjectHeap := do
  let m ← listMemory heap list
  let (m, _) ← Hiemal.hmListAppend m e heap.next
  return withMemory { heap with next := heap.next + 1 } list m

/-- `hm_event_list_delete`; the nodes of a reference list have the default free
function. -/
def hmEventListDelete (list : Nat) : Option ObjectHeap := do
  let m ← listMemory heap list
  let (m, _) ← hmListClear (fun _ content => some content) m.list.nItems m
  (withMemory heap list m).free list

/-- `write` of a pointer to the pipe of an event. -/
def writePipe (e bufIoInfo : Nat) : Option ObjectHeap := do
  let (objType, bufPipe) ← event heap e
  heap.store e (.event objType (bufPipe ++ [bufIoInfo]))

/-- The loop of `hm_event_buffer_wake`. -/
def wakeLoop (list : Nat) : (remaining index : Nat) → ObjectHeap → Option ObjectHeap
  | 0, _, heap => some heap
  | remaining + 1, index, heap => do
      let m ← listMemory heap list
      let e ← ← hmListAt m index
      let (heap, bufIoInfo) := heap.malloc .bufIoInfo
      let heap ← writePipe heap e bufIoInfo
      wakeLoop list remaining (index + 1) heap

def hmEventBufferWake (list : Nat) : Option ObjectHeap := do
  let m ← listMemory heap list
  wakeLoop list m.list.nItems 0 heap

/-- A round of `hm_event_poll`: the oldest record is read and released after the
condition has seen it; without one the poller waits. -/
def hmEventPoll (e : Nat) : Option ObjectHeap := do
  let (objType, bufPipe) ← event heap e
  if objType ≠ .buffer then some heap
  else match bufPipe with
    | [] => some heap
    | bufIoInfo :: rest =>
        let heap ← heap.store e (.event objType rest)
        heap.free bufIoInfo

/-! ## Recordings -/

def hmRecordingInit : Option (ObjectHeap × Nat) := do
  let (heap, r) := heap.malloc .uninitialised
  let (heap, buffers) :=
    heap.malloc (.buffers (List.replicate maxRecordingBuffers none))
  let (heap, buflist) := heap.malloc (.buflist 0)
  let heap ← heap.store r (.recording { active := true, nBuffer := 0, buffers, buflist })
  return (heap, r)

/-- `hm_recording_start` and `hm_recording_stop`. -/
def setActive (r : Nat) (active : Bool) : Option ObjectHeap := do
  let handle ← recording heap r
  heap.store r (.recording { handle with active := active })

/-- `hm_recording_write`: while the recording is active, the list must have the entry
the bytes are for. -/
def hmRecordingWrite (r rId : Nat) : Option Unit := do
  let handle ← recording heap r
  if handle.active then
    let nBuffers ← buflist heap handle.buflist
    if rId < nBuffers then some () else none
  else some ()

/-- `hm_recording_buffer_add`, with `buffer_add_recording`; a store behind the array is
an error. -/
def hmRecordingBufferAdd (r buf : Nat) : Option ObjectHeap := do
  let handle ← recording heap r
  let items ← buffers heap handle.buffers
  if items.length ≤ handle.nBuffer then none
  else
    let heap ← heap.store handle.buffers
      (.buffers (items.set handle.nBuffer (some buf)))
    let added ← buffer heap buf
    let heap ← heap.store buf
      (.buffer { added with rId := handle.nBuffer, r := some r })
    let nBuffers ← buflist heap handle.buflist
    let heap ← heap.store handle.buflist (.buflist (nBuffers + 1))
    heap.store r (.recording { handle with nBuffer := handle.nBuffer + 1 })

/-! ## Buffers -/

/-- The part that `buffer_init` and `buffer_init_ext` share. -/
def initHandle (rawBuffer : Nat) (extBuf : Bool) : Option (ObjectHeap × Nat) := do
  let (heap, buf) := heap.malloc .uninitialised
  let (heap, fdSet) := bufferFdSetInit heap
  let (heap, eventList) := hmEventReflistInit heap
  let heap ← heap.store buf (.buffer
    { buf := rawBuffer
      extBuf := extBuf
      r := none
      rId := 0
      fdSet := fdSet
      fdHold := false
      eventList := eventList })
  return (heap, buf)

def bufferInit : Option (ObjectHeap × Nat) :=
  let (heap, rawBuffer) := heap.malloc .raw
  initHandle heap rawBuffer false

def bufferInitExt (rawBuffer : Nat) : Option (ObjectHeap × Nat) :=
  initHandle heap rawBuffer true

/-- An access to the bytes of a buffer. -/
def reachRaw (handle : BufferBlock) : Option Unit :=
  if handle.extBuf then some ()
  else match heap.block handle.buf with
    | some .raw => some ()
    | _ => none

def bufferCopy (srcBuf : Nat) : Option (ObjectHeap × Nat) := do
  let src ← buffer heap srcBuf
  let (heap, newBuf) ← bufferInit heap
  reachRaw heap src
  return (heap, newBuf)

def bufferDelete (buf : Nat) : Option ObjectHeap := do
  let handle ← buffer heap buf
  let heap ← (if handle.extBuf then some heap else heap.free handle.buf)
  let heap ← bufferFdSetDelete heap handle.fdSet
  let heap ← hmEventListDelete heap handle.eventList
  heap.free buf

/-- `buffer_fd_hold` and `buffer_fd_release`. -/
def setFdHold (buf : Nat) (fdHold : Bool) : Option ObjectHeap := do
  let handle ← buffer heap buf
  heap.store buf (.buffer { handle with fdHold := fdHold })

/-- `buffer_event_add`, which looks at the buffer last. -/
def bufferEventAdd (buf : Option Nat) (e : Nat) : Option ObjectHeap := do
  let (objType, _) ← event heap e
  if objType ≠ .buffer then some heap
  else
    let handle ← buffer heap (← buf)
    hmListAppend heap handle.eventList e

/-- The part of a transfer behind its check for an empty request. -/
def transfer (handle : BufferBlock) (nBytes : Nat) : Option ObjectHeap :=
  if nBytes = 0 then some heap
  else do
    reachRaw heap handle
    hmEventBufferWake heap handle.eventList

/-- The part of `buffer_write` for a recording. -/
def reachRecording (handle : BufferBlock) : Option Unit :=
  match handle.r with
  | none => some ()
  | some r => hmRecordingWrite heap r handle.rId

def bufferWrite (dest nBytes : Nat) : Option ObjectHeap := do
  let handle ← buffer heap dest
  reachRecording heap handle
  let heap ← transfer heap handle nBytes
  if handle.fdHold then some heap
  else do
    bufferSignalFds heap handle.fdSet
    return heap

def bufferRead (src nBytes : Nat) : Option ObjectHeap := do
  let handle ← buffer heap src
  transfer heap handle nBytes

def bufferReset (buf : Nat) : Option ObjectHeap := do
  let _ ← buffer heap buf
  return heap

/-- The loop of `hm_recording_delete`. The pointer of the array that `buffer_delete`
clears is not read again. -/
def deleteBuffers : ObjectHeap → List (Option Nat) → Option ObjectHeap
  | heap, [] => some heap
  | heap, item :: items => do
      let heap ← bufferDelete heap (← item)
      deleteBuffers heap items

/-- `hm_recording_delete`, which makes a new list where it could delete the old one. -/
def hmRecordingDelete (r : Nat) : Option ObjectHeap := do
  let handle ← recording heap r
  let items ← buffers heap handle.buffers
  let heap ← deleteBuffers heap (items.take handle.nBuffer)
  let (heap, buflist) := heap.malloc (.buflist 0)
  let heap ← heap.store r (.recording { handle with buflist := buflist })
  heap.free r

end ObjectHeap

/-! ## Programs -/

/-- One call of a program. Its variables hold the pointers that its calls of init
functions have set, in the order of these calls. -/
inductive LifetimeCall
  | bufferInit
  | bufferInitExt (rawBuffer : Nat)
  | bufferCopy (srcBuf : Nat)
  | bufferFdSetInsert (buf : Nat) (fd : Int)
  /-- `buffer_fd_hold` or `buffer_fd_release`. -/
  | setFdHold (buf : Nat) (fdHold : Bool)
  | bufferEventAdd (buf e : Nat)
  | bufferWrite (dest nBytes : Nat)
  | bufferRead (src nBytes : Nat)
  | bufferReset (buf : Nat)
  | bufferDelete (buf : Nat)
  | hmEventInit (objType : HmEventObjType)
  | hmEventPoll (e : Nat)
  | hmEventDelete (e : Nat)
  | hmRecordingInit
  /-- `hm_recording_start` or `hm_recording_stop`. -/
  | setActive (r : Nat) (active : Bool)
  | hmRecordingBufferAdd (r buf : Nat)
  | hmRecordingDelete (r : Nat)

/-- The heap and the variables of a program. -/
structure Lifetimes where
  heap : ObjectHeap
  pointers : List (Option Nat)

namespace Lifetimes

def start : Lifetimes where
  heap := Heap.empty
  pointers := []

/-- The pointer in a variable, unless it is `NULL`. -/
def pointer (m : Lifetimes) (index : Nat) : Option Nat :=
  m.pointers[index]?.join

/-- The state after an init function. -/
def declare (m : Lifetimes) (new : ObjectHeap × Nat) : Lifetimes where
  heap := new.1
  pointers := m.pointers ++ [some new.2]

/-- The state after a function that leaves the variables alone. -/
def withHeap (m : Lifetimes) (heap : ObjectHeap) : Lifetimes where
  heap := heap
  pointers := m.pointers

/-- The state after a function that sets a variable to `NULL`. -/
def cleared (m : Lifetimes) (index : Nat) (heap : ObjectHeap) : Lifetimes where
  heap := heap
  pointers := m.pointers.set index none

end Lifetimes

/-- Execute one call; `none` if it reaches a block that is not there. -/
def lifetimeStep (m : Lifetimes) : LifetimeCall → Option Lifetimes
  | .bufferInit => (ObjectHeap.bufferInit m.heap).map m.declare
  | .bufferInitExt rawBuffer => (ObjectHeap.bufferInitExt m.heap rawBuffer).map m.declare
  | .bufferCopy srcBuf => do
      return m.declare (← ObjectHeap.bufferCopy m.heap (← m.pointer srcBuf))
  | .bufferFdSetInsert buf fd => do
      let handle ← ObjectHeap.buffer m.heap (← m.pointer buf)
      return m.withHeap (← ObjectHeap.bufferFdSetInsert m.heap handle.fdSet fd)
  | .setFdHold buf fdHold => do
      return m.withHeap (← ObjectHeap.setFdHold m.heap (← m.pointer buf) fdHold)
  | .bufferEventAdd buf e => do
      return m.withHeap
        (← ObjectHeap.bufferEventAdd m.heap (m.pointer buf) (← m.pointer e))
  | .bufferWrite dest nBytes => do
      return m.withHeap (← ObjectHeap.bufferWrite m.heap (← m.pointer dest) nBytes)
  | .bufferRead src nBytes => do
      return m.withHeap (← ObjectHeap.bufferRead m.heap (← m.pointer src) nBytes)
  | .bufferReset buf => do
      return m.withHeap (← ObjectHeap.bufferReset m.heap (← m.pointer buf))
  | .bufferDelete buf => do
      return m.cleared buf (← ObjectHeap.bufferDelete m.heap (← m.pointer buf))
  | .hmEventInit objType => some (m.declare (ObjectHeap.hmEventInit m.heap objType))
  | .hmEventPoll e => do
      return m.withHeap (← ObjectHeap.hmEventPoll m.heap (← m.pointer e))
  | .hmEventDelete e => do
      return m.withHeap (← ObjectHeap.hmEventDelete m.heap (← m.pointer e))
  | .hmRecordingInit => (ObjectHeap.hmRecordingInit m.heap).map m.declare
  | .setActive r active => do
      return m.withHeap (← ObjectHeap.setActive m.heap (← m.pointer r) active)
  | .hmRecordingBufferAdd r buf => do
      return m.withHeap
        (← ObjectHeap.hmRecordingBufferAdd m.heap (← m.pointer r) (← m.pointer buf))
  | .hmRecordingDelete r => do
      return m.cleared r (← ObjectHeap.hmRecordingDelete m.heap (← m.pointer r))

/-- A program from its beginning. -/
def lifetimeRun (calls : List LifetimeCall) : Option Lifetimes :=
  calls.foldlM lifetimeStep Lifetimes.start

end Hiemal
