import Hiemal.Foundation.BinaryFloat
import Hiemal.Foundation.Block
import Hiemal.Foundation.MachineInteger

/-!
# Sample formats

Translation of `core/format.c`, as far as the conversion between sample formats
goes. The memory of a conversion is two blocks; the ranges read in the source
block and written in the destination block are logged. A conversion is `none`
when its loop does not end.

`size_t` is 64 bits wide, `int16_t` and `float` are stored little-endian, and
`float` is the 32-bit binary format.
-/

namespace Hiemal

open Foundation

/-- The enumerators of `hm_format_type` that a format signature can have. The
remaining one, `DEFAULT_FORMAT`, is not used, and `hm_bytes_per_sample` has no
case for it. -/
inductive HmFormatType
  | s16le
  | f32le
  deriving DecidableEq, Repr

def hmBytesPerSample (sampleFormat : HmFormatType) : Nat :=
  match sampleFormat with
  | .s16le => 2
  | .f32le => 4

/-- The conversion to `float` and the division by `0x8000` are both exact. -/
def formatConvertS16leF32le (sample : Int) : Binary32 :=
  Binary32.ofScaled (sample < 0) sample.natAbs 15

/-- The product with `0x8000` is truncated. C leaves samples outside the range
of `int16_t` undefined; here the low 16 bits are kept. -/
def formatConvertF32leS16le (sample : Binary32) : Int :=
  toSigned 16 ((sample.truncScaled 15).getD 0)

/-- `*(int16_t*)src_ptr`. -/
def loadS16le (bytes : List UInt8) : Int :=
  toSigned 16 (ofLittleEndian bytes)

/-- The bytes of an `int16_t`. -/
def bytesS16le (sample : Int) : List UInt8 :=
  toLittleEndian 2 (toUnsigned 16 sample)

/-- `*(float*)src_ptr`. -/
def loadF32le (bytes : List UInt8) : Binary32 :=
  Binary32.ofBits (ofLittleEndian bytes)

/-- The bytes of a `float`. -/
def bytesF32le (sample : Binary32) : List UInt8 :=
  toLittleEndian 4 sample.toBits

/-- One round of the conversion loop: the bytes stored for one source sample.
The loop is only entered for two different formats. -/
def convertSample
    (srcFormat destFormat : HmFormatType)
    (bytes : List UInt8) : List UInt8 :=
  match srcFormat, destFormat with
  | .s16le, .f32le => bytesF32le (formatConvertS16leF32le (loadS16le bytes))
  | .f32le, .s16le => bytesS16le (formatConvertF32leS16le (loadF32le bytes))
  | .s16le, .s16le | .f32le, .f32le => bytes

/-- The outcome of a conversion that returns. -/
structure FormatConversion where
  /-- The destination block after the conversion. -/
  dest : List UInt8
  /-- The returned number of bytes. -/
  nBytesWritten : Nat
  /-- The ranges read in the source block, in program order. -/
  reads : List Access
  /-- The ranges written in the destination block, in program order. -/
  writes : List Access
  deriving DecidableEq

/-- The variables of the conversion loop; pointers are offsets from the
beginning of their blocks. -/
structure ConvertState where
  dest : List UInt8
  nBytesWritten : Nat
  destPtr : Nat
  srcPtr : Nat
  reads : List Access
  writes : List Access

section

variable (src : List UInt8) (srcFormat destFormat : HmFormatType)

/-- The body of the conversion loop. -/
def convertStep (state : ConvertState) : ConvertState where
  dest :=
    store state.dest state.destPtr
      (convertSample srcFormat destFormat
        (load src state.srcPtr (hmBytesPerSample srcFormat)))
  nBytesWritten :=
    (state.nBytesWritten + hmBytesPerSample destFormat) % 2 ^ 64
  destPtr := state.destPtr + hmBytesPerSample destFormat
  srcPtr := state.srcPtr + hmBytesPerSample srcFormat
  reads :=
    state.reads ++
      [{ blockSize := src.length
         start := state.srcPtr
         length := hmBytesPerSample srcFormat }]
  writes :=
    state.writes ++
      [{ blockSize := state.dest.length
         start := state.destPtr
         length := hmBytesPerSample destFormat }]

/-- The conversion loop, for at most `fuel` tests of its condition. -/
def convertLoop (bytesToWrite : Nat) :
    (fuel : Nat) → ConvertState → Option ConvertState
  | 0, _ => none
  | fuel + 1, state =>
      if state.nBytesWritten < bytesToWrite then
        convertLoop bytesToWrite fuel (convertStep src srcFormat destFormat state)
      else some state

/-- `hm_format_convert`. The fuel lets the loop reach every value the written
count can take below `bytes_to_write`; a loop that is not done by then has
wrapped around to zero and never ends. -/
def hmFormatConvert
    (dest : List UInt8)
    (nBytes : Nat) : Option FormatConversion :=
  let destSrcSampleRatio :=
    hmBytesPerSample destFormat / hmBytesPerSample srcFormat
  let bytesToWrite := nBytes * destSrcSampleRatio % 2 ^ 64
  if srcFormat = destFormat then
    some
      { dest := store dest 0 (load src 0 nBytes)
        nBytesWritten := nBytes
        reads := [{ blockSize := src.length, start := 0, length := nBytes }]
        writes := [{ blockSize := dest.length, start := 0, length := nBytes }] }
  else
    (convertLoop src srcFormat destFormat bytesToWrite (bytesToWrite + 1)
      { dest, nBytesWritten := 0, destPtr := 0, srcPtr := 0
        reads := [], writes := [] }).map fun state =>
      { dest := state.dest
        nBytesWritten := state.nBytesWritten
        reads := state.reads
        writes := state.writes }

end

/-- `hm_format_convert_bytes_available`. The rate is an integer quotient that is
then stored in a `float`; the byte count is rounded to a `float`, and so is the
product. C leaves products of `2 ^ 64` and more undefined; here they become
zero. -/
def hmFormatConvertBytesAvailable
    (srcFormat destFormat : HmFormatType)
    (nBytes : Nat) : Nat :=
  let byteConversionRate :=
    hmBytesPerSample destFormat / hmBytesPerSample srcFormat
  let product :=
    roundToPrecision 24 (roundToPrecision 24 nBytes * byteConversionRate)
  if product < 2 ^ 64 then product else 0

end Hiemal
