import Hiemal.Args.Collect
import Hiemal.Args.Defs
import Hiemal.Args.Groups
import Hiemal.Args.Numbers
import Hiemal.Args.Passes
import Hiemal.Buffer.Additions
import Hiemal.Buffer.Announcements
import Hiemal.Buffer.Concurrent
import Hiemal.Buffer.Copy
import Hiemal.Buffer.Defs
import Hiemal.Buffer.Descriptors
import Hiemal.Buffer.Effects
import Hiemal.Buffer.Held
import Hiemal.Buffer.Linear
import Hiemal.Buffer.Lock
import Hiemal.Buffer.Outcome
import Hiemal.Buffer.Progress
import Hiemal.Buffer.Recording
import Hiemal.Buffer.Ring
import Hiemal.Buffer.Room
import Hiemal.Buffer.Session
import Hiemal.Buffer.Tape
import Hiemal.Buffer.View
import Hiemal.Common.ArraySequence
import Hiemal.Common.Arrays
import Hiemal.Common.Contents
import Hiemal.Common.Defs
import Hiemal.Common.Kwargs
import Hiemal.Common.Lists
import Hiemal.Common.Range
import Hiemal.Common.Reallocation
import Hiemal.Common.Removal
import Hiemal.Common.RoundTrip
import Hiemal.Common.Sequence
import Hiemal.Common.Unpacking
import Hiemal.Dsp.Cascade
import Hiemal.Dsp.Conservation
import Hiemal.Dsp.Convolution
import Hiemal.Dsp.Decoders
import Hiemal.Dsp.Filter
import Hiemal.Dsp.Pcm16
import Hiemal.Dsp.Shift
import Hiemal.Dsp.SineSource
import Hiemal.Event.Blocked
import Hiemal.Event.Concurrent
import Hiemal.Event.Defs
import Hiemal.Event.Delivery
import Hiemal.Event.PollList
import Hiemal.Event.Replay
import Hiemal.Event.Wake
import Hiemal.Format.Convert
import Hiemal.Format.Defs
import Hiemal.Format.RoundTrip
import Hiemal.Foundation.BinaryFloat
import Hiemal.Foundation.Block
import Hiemal.Foundation.CausalFilter
import Hiemal.Foundation.Channels
import Hiemal.Foundation.CircularWindow
import Hiemal.Foundation.Fifo
import Hiemal.Foundation.FilterSeries
import Hiemal.Foundation.Fragments
import Hiemal.Foundation.Heap
import Hiemal.Foundation.Interchange
import Hiemal.Foundation.LinkedChain
import Hiemal.Foundation.Loop
import Hiemal.Foundation.MachineInteger
import Hiemal.Foundation.MaximalRuns
import Hiemal.Foundation.Monitor
import Hiemal.Foundation.Moves
import Hiemal.Foundation.Replacing
import Hiemal.Foundation.Rounding
import Hiemal.Foundation.Segments
import Hiemal.Foundation.Tape
import Hiemal.Foundation.Transition
import Hiemal.Foundation.Truncation
import Hiemal.Generator.Defs
import Hiemal.Generator.NameTable
import Hiemal.Generator.Wrapper
import Hiemal.Io.Accounts
import Hiemal.Io.Defs
import Hiemal.Io.Drain
import Hiemal.Io.FileRequests
import Hiemal.Io.RoundTrip
import Hiemal.Lifetime.Defs
import Hiemal.Lifetime.DescriptorSets
import Hiemal.Lifetime.EventLists
import Hiemal.Lifetime.Footprints
import Hiemal.Lifetime.Functions
import Hiemal.Lifetime.Objects
import Hiemal.Lifetime.Placement
import Hiemal.Lifetime.Safety
import Hiemal.Ops.Defs
import Hiemal.Ops.FileSource
import Hiemal.Ops.IoDevice
import Hiemal.Pulse.Capture
import Hiemal.Pulse.Cards
import Hiemal.Pulse.Connect
import Hiemal.Pulse.Defs
import Hiemal.Pulse.Devices
import Hiemal.Pulse.IoDevices
import Hiemal.Pulse.Playback
import Hiemal.Pulse.Transfers
import Hiemal.Python.BufferObject
import Hiemal.Python.Queues
import Hiemal.Stream.Chain
import Hiemal.Stream.Counts
import Hiemal.Stream.Defs
import Hiemal.Stream.Direct
import Hiemal.Stream.Duration
import Hiemal.Thread.Registry
import Hiemal.Util.Time
