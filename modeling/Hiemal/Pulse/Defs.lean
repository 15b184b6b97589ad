import Hiemal.Io.Defs

/-!
# The PulseAudio backend

Translation of the stream transfers of `core/pulse.c`. What the server does is an
input of the model: the sizes it reports as writable, in the order of the queries,
and the record fragments that have been queued by the time a wait on the main loop
returns. A transfer is `none` when it waits for something that does not come.
-/

namespace Hiemal

open Foundation

/-! ## Playback -/

/-- One call of `pa_stream_write`, with the writable size reported for it. -/
structure StreamWrite where
  writable : Nat
  chunk : List UInt8
  deriving DecidableEq

/-- The outcome of `_hm_pulse_io_write`. -/
structure PulseWrite where
  buf : Buffer
  /-- The calls of `pa_stream_write`, in program order. -/
  writes : List StreamWrite
  rc : Int

/-- The loop of `_hm_pulse_io_write`: the writes it makes and the value of
`bytes_written` at its end. `pa_buf_itr` is an offset from `pa_buf`. -/
def pulseWriteLoop (paBuf : List UInt8) :
    (writableSizes : List Nat) → (nBytes paBufItr : Nat) → (bytesWritten : Int) →
      Option (List StreamWrite × Int)
  | [], nBytes, _, bytesWritten =>
      if nBytes = 0 then some ([], bytesWritten) else none
  | writableBytes :: writableSizes, nBytes, paBufItr, bytesWritten =>
      if nBytes = 0 then some ([], bytesWritten)
      else if writableBytes = 0 then
        -- the inner loop waits and asks again
        pulseWriteLoop paBuf writableSizes nBytes paBufItr bytesWritten
      else do
        let count := if nBytes < writableBytes then nBytes else writableBytes
        let (writes, bytesWritten) ←
          pulseWriteLoop paBuf writableSizes (nBytes - count) (paBufItr + count)
            (toSigned 32 (bytesWritten + count))
        return (
          { writable := writableBytes, chunk := load paBuf paBufItr count } ::
            writes,
          bytesWritten)

/-- `_hm_pulse_io_write`; `fresh` are the cells of `pa_buf`. -/
def hmPulseIoWrite
    (writableSizes : List Nat)
    (buf : Buffer)
    (nBytes : Nat)
    (fresh : Nat → UInt8) : Option PulseWrite := do
  let paBuf := resize [] nBytes fresh
  let call ← bufferRead buf (some paBuf) nBytes
  let nBytes := clampRequest nBytes call.rc
  let (writes, bytesWritten) ←
    pulseWriteLoop (call.dest.getD paBuf) writableSizes nBytes 0 0
  return { buf := call.buf, writes := writes, rc := bytesWritten }

/-! ## Recording -/

/-- The record stream as its client sees it: the fragments queued and not dropped
yet, and for every return of `pa_threaded_mainloop_wait` to come the fragments that
are queued until then. -/
structure RecordStream where
  queued : List (List UInt8)
  arrivals : List (List (List UInt8))
  deriving DecidableEq

/-- All fragments that are not dropped yet, in order. -/
def RecordStream.fragments (stream : RecordStream) : List (List UInt8) :=
  stream.queued ++ stream.arrivals.flatten

/-- The outcome of `_hm_pulse_io_read`. -/
structure PulseRead where
  stream : RecordStream
  buf : Buffer
  /-- The bytes handed to `buffer_write`, in program order. -/
  recorded : List UInt8
  rc : Int

/-- The loop of `_hm_pulse_io_read`. `pa_stream_peek` returns the fragment at the
head of the queue, or zero bytes if there is none, and `pa_stream_drop` removes
it. -/
def pulseReadLoop :
    (arrivals : List (List (List UInt8))) → (queued : List (List UInt8)) →
      (buf : Buffer) → (nBytes : Nat) → (totalBytesRead : Int) →
        Option PulseRead
  | [], queued, buf, nBytes, totalBytesRead =>
      if nBytes = 0 then
        some
          { stream := { queued := queued, arrivals := [] }
            buf := buf
            recorded := []
            rc := totalBytesRead }
      else none
  | arrived :: arrivals, queued, buf, nBytes, totalBytesRead =>
      if nBytes = 0 then
        some
          { stream := { queued := queued, arrivals := arrived :: arrivals }
            buf := buf
            recorded := []
            rc := totalBytesRead }
      else do
        let queued := queued ++ arrived
        let paBuf := queued.headD []
        let nBytesRead :=
          if nBytes < paBuf.length then nBytes else paBuf.length
        let call ← bufferWrite buf paBuf nBytesRead
        let rest ←
          pulseReadLoop arrivals queued.tail call.buf (nBytes - nBytesRead)
            (toSigned 32 (totalBytesRead + nBytesRead))
        return { rest with recorded := paBuf.take nBytesRead ++ rest.recorded }

/-- `_hm_pulse_io_read`. -/
def hmPulseIoRead
    (stream : RecordStream)
    (buf : Buffer)
    (nBytes : Nat) : Option PulseRead :=
  let bufSize := toSigned 32 (bufferNWriteBytes buf)
  pulseReadLoop stream.arrivals stream.queued buf (clampRequest nBytes bufSize) 0

/-- A call of `_hm_pulse_io_read`: the destination buffer and the requested
number of bytes. -/
structure ReadRequest where
  buf : Buffer
  nBytes : Nat

/-- Execute one call of `_hm_pulse_io_read`. -/
def pulseReadStep
    (stream : RecordStream)
    (request : ReadRequest) : Option (RecordStream × PulseRead) :=
  (hmPulseIoRead stream request.buf request.nBytes).map fun call =>
    (call.stream, call)

end Hiemal
