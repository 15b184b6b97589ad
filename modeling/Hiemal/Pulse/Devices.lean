import Hiemal.Foundation.Block
import Hiemal.Foundation.MachineInteger
import Hiemal.Foundation.Transition

/-!
# Devices of the PulseAudio backend

Translation of the part of `core/pulse.c` that lists the cards, sources and sinks of
the server and connects to them, and of `default_device_io_connect` in
`core/device.c`. Card ids are of type `int`, so the card of a device without one,
`PA_INVALID_INDEX`, is -1.

An index outside of an array and a walk past the end of a list have no outcome in C;
here they are `none`.
-/

namespace Hiemal

open Foundation

/-- `hm_io_type_t`. -/
inductive HmIoType
  | playback
  | recording
  deriving DecidableEq, Repr

/-- A string without its final zero. -/
abbrev DeviceName := List Char

/-- What is used of `pa_card_info`. -/
structure PaCardInfo where
  name : DeviceName
  index : Nat
  deriving DecidableEq

/-- What is used of `pa_source_info` and of `pa_sink_info`. -/
structure PaIoInfo where
  name : DeviceName
  card : Nat
  deriving DecidableEq

/-- What is used of `struct _hm_device_io`. -/
structure HmDeviceIo where
  name : DeviceName
  type : HmIoType
  deriving DecidableEq

/-- `struct hm_pulse_io_node`, without its links. -/
structure HmPulseIoNode where
  ioDevice : HmDeviceIo
  cardId : Int
  deriving DecidableEq

/-- What is used of `hm_pulse_device_t`. The cells of `io_devices` are not
initialised by its allocation. -/
structure HmPulseDevice where
  name : DeviceName
  pulseCardId : Int
  nIoDevices : Nat
  ioDevices : List (Option HmDeviceIo)
  deriving DecidableEq

/-- The device that `_hm_pulse_card_list_cb` makes of a card. -/
def hmPulseDeviceOf (i : PaCardInfo) : HmPulseDevice where
  name := i.name
  pulseCardId := toSigned 32 i.index
  nIoDevices := 0
  ioDevices := []

/-- The node that `_hm_pulse_source_list_cb` and `_hm_pulse_sink_list_cb` append for
a device of their type. -/
def hmPulseIoNodeOf (type : HmIoType) (i : PaIoInfo) : HmPulseIoNode where
  ioDevice := { name := i.name, type := type }
  cardId := toSigned 32 i.card

/-- The list that `hm_pulse_connection_init` builds: the sources, then the sinks. -/
def hmPulseIoList (sources sinks : List PaIoInfo) : List HmPulseIoNode :=
  sources.map (hmPulseIoNodeOf .recording) ++
    sinks.map (hmPulseIoNodeOf .playback)

/-- An index into an array of the given size. -/
def arrayIndex (size : Nat) (index : Int) : Option Nat :=
  if 0 ≤ index ∧ index < size then some index.toNat else none

/-! ## Enumerating the cards -/

/-- Where `hm_pulse_connection_init` is: the enumeration under way, the cards of the
server's answer to it that no callback has handled yet, and its variables. The
answer is `none` until the server gives it. -/
inductive CardEnumeration
  | counting (answer : Option (List PaCardInfo)) (i : Nat)
  | filling
      (answer : Option (List PaCardInfo))
      (devices : List (Option HmPulseDevice))
      (devI : Nat)
  | done (devices : List (Option HmPulseDevice))
  deriving DecidableEq

/-- The server with its cards, and its client. -/
structure PulseInit where
  cards : List PaCardInfo
  client : CardEnumeration
  deriving DecidableEq

/-- What can happen next. -/
inductive PulseInitEvent
  /-- A card is plugged in. -/
  | add (card : PaCardInfo)
  /-- The card at a position is unplugged. -/
  | remove (position : Nat)
  /-- The server answers the enumeration it has been asked for. -/
  | answer
  /-- A callback of the client handles the next part of the answer. -/
  | callback
  deriving DecidableEq

/-- The server's answer holds the cards there are. -/
def answerCards (cards : List PaCardInfo) :
    CardEnumeration → Option CardEnumeration
  | .counting none i => some (.counting (some cards) i)
  | .filling none devices devI => some (.filling (some cards) devices devI)
  | _ => none

/-- `_hm_pulse_n_cards_cb` and `_hm_pulse_card_list_cb`, with the range of the array
of devices that is stored to. The last call of each reports the end of the answer;
the array is then allocated for as many cards as were counted. -/
def handleCard :
    CardEnumeration → Option (CardEnumeration × List Access)
  | .counting (some (_ :: answer)) i =>
      some (.counting (some answer) (i + 1), [])
  | .counting (some []) i =>
      some (.filling none (List.replicate i none) 0, [])
  | .filling (some (card :: answer)) devices devI =>
      some
        (.filling (some answer)
          (store devices devI [some (hmPulseDeviceOf card)]) (devI + 1),
        [{ blockSize := devices.length, start := devI, length := 1 }])
  | .filling (some []) devices _ => some (.done devices, [])
  | _ => none

/-- One event, with the ranges of the array of devices that are stored to. -/
def pulseInitStep (state : PulseInit) :
    PulseInitEvent → Option (PulseInit × List Access)
  | .add card => some ({ state with cards := state.cards ++ [card] }, [])
  | .remove position =>
      some ({ state with cards := state.cards.eraseIdx position }, [])
  | .answer =>
      (answerCards state.cards state.client).map fun client =>
        ({ state with client := client }, [])
  | .callback =>
      (handleCard state.client).map fun (client, stores) =>
        ({ state with client := client }, stores)

/-! ## Assigning io devices to the cards -/

/-- `get_index_from_card_id`. -/
def getIndexFromCardId (cards : List HmPulseDevice) (cardId : Int) : Int :=
  match cards.findIdx? (·.pulseCardId = cardId) with
  | some i => i
  | none => -1

/-- The first loop of `io_list_to_array`. -/
def countIoDevices :
    List HmPulseIoNode → (cardIoCount : List Nat) → Option (List Nat)
  | [], cardIoCount => some cardIoCount
  | node :: nodes, cardIoCount => do
      let i ← arrayIndex cardIoCount.length node.cardId
      countIoDevices nodes (cardIoCount.modify i (· + 1))

/-- The second loop: slots for as many io devices as were counted. -/
def allocateIoDevices
    (devices : List HmPulseDevice)
    (cardIoCount : List Nat) : List HmPulseDevice :=
  devices.zipWith
    (fun device count =>
      { device with nIoDevices := 0, ioDevices := List.replicate count none })
    cardIoCount

/-- `(cur_device->io_devices)[cur_device->n_io_devices] = io_device` and the
increment behind it. -/
def addIoDevice
    (curDevice : HmPulseDevice)
    (ioDevice : HmDeviceIo) : Option HmPulseDevice := do
  let i ← arrayIndex curDevice.ioDevices.length curDevice.nIoDevices
  return { curDevice with
    nIoDevices := curDevice.nIoDevices + 1
    ioDevices := curDevice.ioDevices.set i (some ioDevice) }

/-- The third loop of `io_list_to_array`. -/
def fillIoDevices :
    List HmPulseIoNode → (devices : List HmPulseDevice) →
      Option (List HmPulseDevice)
  | [], devices => some devices
  | node :: nodes, devices => do
      let cardIndex ←
        arrayIndex devices.length (getIndexFromCardId devices node.cardId)
      let curDevice ← devices[cardIndex]?
      let curDevice ← addIoDevice curDevice node.ioDevice
      fillIoDevices nodes (devices.set cardIndex curDevice)

/-- `io_list_to_array`: the devices afterwards. -/
def ioListToArray
    (nodes : List HmPulseIoNode)
    (devices : List HmPulseDevice) : Option (List HmPulseDevice) := do
  let cardIoCount ← countIoDevices nodes (List.replicate devices.length 0)
  fillIoDevices nodes (allocateIoDevices devices cardIoCount)

/-! ## Connecting to the default devices -/

/-- `get_dev_io_id`; `i` counts the nodes walked. -/
def getDevIoId (name : DeviceName) : List HmPulseIoNode → (i : Nat) → Int
  | [], _ => -1
  | node :: nodes, i =>
      if node.ioDevice.name = name then toSigned 32 i
      else getDevIoId name nodes (i + 1)

/-- What is used of `struct _hm_backend_connection`. -/
structure HmBackendConnection where
  devIoList : List HmPulseIoNode
  /-- `default_dev_io[0]`, for playback. -/
  defaultDevIo0 : Nat
  /-- `default_dev_io[1]`, for recording. -/
  defaultDevIo1 : Nat
  deriving DecidableEq

/-- The end of `hm_pulse_connection_init`: the default devices are looked up by
name and stored as `unsigned int`. -/
def hmPulseConnectionInit
    (sources sinks : List PaIoInfo)
    (defaultSinkName defaultSourceName : DeviceName) : HmBackendConnection :=
  let list := hmPulseIoList sources sinks
  { devIoList := list
    defaultDevIo0 := toUnsigned 32 (getDevIoId defaultSinkName list 0)
    defaultDevIo1 := toUnsigned 32 (getDevIoId defaultSourceName list 0) }

/-- A call of `pa_stream_connect_playback` or `pa_stream_connect_record`. -/
structure PaStreamConnect where
  direction : HmIoType
  dev : DeviceName
  deriving DecidableEq

/-- The outcome of a connection function. -/
structure IoConnect where
  /-- The calls that connect the stream, in program order. -/
  connects : List PaStreamConnect
  /-- The type of the connection. -/
  type : HmIoType
  rc : Int
  deriving DecidableEq

/-- The `switch` over the type of the io device. The first case has no `break`. -/
def connectStream (ioDevice : HmDeviceIo) : List PaStreamConnect :=
  match ioDevice.type with
  | .playback =>
      [{ direction := .playback, dev := ioDevice.name },
        { direction := .recording, dev := ioDevice.name }]
  | .recording => [{ direction := .recording, dev := ioDevice.name }]

/-- The walk of `hm_pulse_io_connect_by_id`: the nodes from the given number on. -/
def walkNodes : List HmPulseIoNode → (id : Nat) → Option (List HmPulseIoNode)
  | nodes, 0 => some nodes
  | [], _ + 1 => none
  | _ :: nodes, id + 1 => walkNodes nodes id

/-- `hm_pulse_io_connect_by_id`. -/
def hmPulseIoConnectById
    (backend : HmBackendConnection)
    (id : Nat) : Option IoConnect := do
  let nodes ← walkNodes backend.devIoList id
  let node ← nodes.head?
  return {
    connects := connectStream node.ioDevice
    type := node.ioDevice.type
    rc := 0 }

/-- `default_device_io_connect` of the PulseAudio backend. -/
def defaultDeviceIoConnect
    (backend : HmBackendConnection)
    (dir : HmIoType) : Option IoConnect := do
  let ioId :=
    if dir = .playback then backend.defaultDevIo0 else backend.defaultDevIo1
  let call ← hmPulseIoConnectById backend ioId
  return { call with rc := 0 }

end Hiemal
