import Hiemal.Foundation.Transition
import Hiemal.Ops.Defs

/-!
# Running a stream

Translation of `hm_stream_run` in `core/stream.c`. One iteration maps the op
states to the op states after it and to a record of what happened: the reported
counts, the bytes delivered, handed over and accepted, and every range of the
two scratch buffers that is touched, each with the size its buffer had then. It
is `none` when a format conversion does not end.

Allocation is taken to succeed. The cells that `realloc` adds are arbitrary.
-/

namespace Hiemal

open Foundation

variable {Source Dsp Sink : Type}

/-- `struct hm_stream`, with a source and a sink attached. -/
structure HmStream (Source Dsp Sink : Type) where
  src : HmSourceOp Source
  dsp : Option (HmDspOp UInt8 1 Dsp)
  sink : HmSinkOp Sink

/-- The states of the ops of a stream. -/
structure OpStates (Source Dsp Sink : Type) where
  src : Source
  dsp : Dsp
  sink : Sink

/-- What one iteration takes from outside: the elapsed time read at its end, and
the contents of reallocated cells, by `realloc` call and cell. -/
structure Tick where
  elapsedTime : Nat
  fresh : Nat → Nat → UInt8

/-- What happened in one iteration. -/
structure Iteration where
  /-- The count the source reported. -/
  srcBytes : Nat
  /-- The count the sink reported. -/
  destBytes : Nat
  /-- The bytes the source delivered. -/
  delivered : List UInt8
  /-- The byte count passed to `hm_sink_op_run`, as an `unsigned int`. -/
  sinkCount : Nat
  /-- The bytes handed to the sink. -/
  handed : List UInt8
  /-- The bytes the sink accepted. -/
  accepted : List UInt8
  /-- The ranges touched in the scratch buffers, in program order. -/
  accesses : List Access

/-- The local variables of an iteration. -/
structure ScratchBuffers where
  buf : List UInt8
  tmpBuf : List UInt8
  bytesAvailable : Nat
  accesses : List Access

/-- A range at the beginning of a scratch buffer. -/
def frontAccess (buf : List UInt8) (nBytes : Nat) : Access :=
  { blockSize := buf.length, start := 0, length := nBytes }

/-- Both scratch buffers are allocated, and the source is run into `buf`. -/
def fillScratch
    (delivered : List UInt8)
    (bytesAvailable : Nat) : ScratchBuffers where
  buf := store (List.replicate bytesAvailable 0) 0 delivered
  tmpBuf := List.replicate bytesAvailable 0
  bytesAvailable := bytesAvailable
  accesses :=
    [frontAccess (List.replicate bytesAvailable 0) (bytesAvailable % 2 ^ 32)]

/-- Both scratch buffers are reallocated when the converted bytes need more
room. -/
def growScratch
    (buffers : ScratchBuffers)
    (convertedBytes : Nat)
    (tmpFresh fresh : Nat → UInt8) : ScratchBuffers :=
  if buffers.bytesAvailable < convertedBytes then
    { buffers with
      tmpBuf := resize buffers.tmpBuf convertedBytes tmpFresh
      buf := resize buffers.buf convertedBytes fresh }
  else buffers

/-- The conversion behind the source, from `buf` to `tmp_buf` and copied
back. -/
def convertScratch
    (buffers : ScratchBuffers)
    (srcFormat destFormat : HmFormatType)
    (tmpFresh fresh : Nat → UInt8) : Option ScratchBuffers :=
  if srcFormat = destFormat then some buffers
  else do
    let convertedBytes :=
      hmFormatConvertBytesAvailable srcFormat destFormat buffers.bytesAvailable
    let buffers := growScratch buffers convertedBytes tmpFresh fresh
    let conversion ←
      hmFormatConvert buffers.buf srcFormat destFormat buffers.tmpBuf
        buffers.bytesAvailable
    let tmpBuf := conversion.dest
    some
      { buf := store buffers.buf 0 (load tmpBuf 0 convertedBytes)
        tmpBuf := tmpBuf
        bytesAvailable := convertedBytes
        accesses :=
          buffers.accesses ++ conversion.reads ++ conversion.writes ++
            [frontAccess tmpBuf convertedBytes,
              frontAccess buffers.buf convertedBytes] }

/-- The dsp op is run from `buf` to `tmp_buf`. -/
def processScratch (buffers : ScratchBuffers) (output : List UInt8) :
    ScratchBuffers :=
  { buffers with
    tmpBuf := store buffers.tmpBuf 0 output
    accesses :=
      buffers.accesses ++
        [frontAccess buffers.buf (buffers.bytesAvailable % 2 ^ 32),
          frontAccess buffers.tmpBuf (buffers.bytesAvailable % 2 ^ 32)] }

/-- The conversion behind the dsp op, from `tmp_buf` to `buf`. It is decided and
measured with the formats of the dsp output and the sink, but
`hm_format_convert` is called with those of the source output and the dsp
input. -/
def convertProcessed
    (buffers : ScratchBuffers)
    (dspOutput sinkInput srcOutput dspInput : HmFormatType)
    (tmpFresh fresh : Nat → UInt8) : Option ScratchBuffers :=
  if dspOutput = sinkInput then
    some
      { buffers with
        buf := store buffers.buf 0 (load buffers.tmpBuf 0 buffers.bytesAvailable)
        accesses :=
          buffers.accesses ++
            [frontAccess buffers.tmpBuf buffers.bytesAvailable,
              frontAccess buffers.buf buffers.bytesAvailable] }
  else do
    let convertedBytes :=
      hmFormatConvertBytesAvailable dspOutput sinkInput buffers.bytesAvailable
    let buffers := growScratch buffers convertedBytes tmpFresh fresh
    let conversion ←
      hmFormatConvert buffers.tmpBuf srcOutput dspInput buffers.buf
        buffers.bytesAvailable
    some
      { buf := conversion.dest
        tmpBuf := buffers.tmpBuf
        bytesAvailable := convertedBytes
        accesses := buffers.accesses ++ conversion.reads ++ conversion.writes }

/-- The sink is run from `buf`. -/
def drainScratch
    (sink : HmSinkOp Sink)
    (state : OpStates Source Dsp Sink)
    (srcBytes destBytes : Nat)
    (delivered : List UInt8)
    (buffers : ScratchBuffers) : OpStates Source Dsp Sink × Iteration :=
  let (acceptance, sinkState) :=
    hmSinkOpRun sink state.sink buffers.buf buffers.bytesAvailable
  let handed := handedBytes buffers.buf buffers.bytesAvailable
  ({ state with sink := sinkState },
    { srcBytes
      destBytes
      delivered
      sinkCount := buffers.bytesAvailable % 2 ^ 32
      handed
      accepted := handed.take acceptance.count
      accesses :=
        buffers.accesses ++
          [frontAccess buffers.buf (buffers.bytesAvailable % 2 ^ 32)] })

/-- The body of the loop of `hm_stream_run`. -/
def hmStreamIterate
    (stream : HmStream Source Dsp Sink)
    (state : OpStates Source Dsp Sink)
    (tick : Tick) : Option (OpStates Source Dsp Sink × Iteration) :=
  let readable := hmOpSourceBytesReadable stream.src state.src 0
  let writable := hmOpSinkBytesWritable stream.sink state.sink 0
  let srcBytes := readable.value
  let destBytes := writable.value
  let bytesAvailable := if srcBytes < destBytes then srcBytes else destBytes
  let (delivery, srcState) :=
    hmSourceOpRun stream.src readable.state bytesAvailable
  let buffers := fillScratch delivery.bytes bytesAvailable
  let state := { state with src := srcState, sink := writable.state }
  match stream.dsp with
  | none => do
      let buffers ←
        convertScratch buffers stream.src.outputType stream.sink.inputType
          (tick.fresh 0) (tick.fresh 1)
      drainScratch stream.sink state srcBytes destBytes delivery.bytes buffers
  | some dsp => do
      let buffers ←
        convertScratch buffers stream.src.outputType dsp.inputType
          (tick.fresh 0) (tick.fresh 1)
      let (output, dspState) :=
        hmDspOpRun dsp state.dsp buffers.buf buffers.bytesAvailable
      let buffers := processScratch buffers output.cells
      let buffers ←
        convertProcessed buffers dsp.outputType stream.sink.inputType
          stream.src.outputType dsp.inputType (tick.fresh 2) (tick.fresh 3)
      drainScratch stream.sink { state with dsp := dspState } srcBytes destBytes
        delivery.bytes buffers

/-- The iterations run before the elapsed time reaches `msec`. -/
def ticksWithin (msec elapsedTime : Nat) : List Tick → List Tick
  | [] => []
  | tick :: ticks =>
      if elapsedTime < msec then tick :: ticksWithin msec tick.elapsedTime ticks
      else []

/-- `hm_stream_run`, observed for as many iterations as there are ticks. -/
def hmStreamRun
    (stream : HmStream Source Dsp Sink)
    (state : OpStates Source Dsp Sink)
    (msec : Nat)
    (ticks : List Tick) :
    Option (OpStates Source Dsp Sink × List Iteration) :=
  runSteps (hmStreamIterate stream) state (ticksWithin msec 0 ticks)

end Hiemal
