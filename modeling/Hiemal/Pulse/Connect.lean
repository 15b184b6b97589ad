import Hiemal.Pulse.Devices

/-!
# Connecting to a default device

The default device of a direction is looked up by its name in the list of all
sources and sinks, whatever their direction, kept as an unsigned index, and looked
up again by walking as many nodes. An absent name becomes the largest index, and a
sink is connected in both directions, so only a default source is connected as it
should be.
-/

namespace Hiemal

open Foundation

/-- Where the first device of a name stands in a list. -/
def namePosition (list : List HmPulseIoNode) (name : DeviceName) : Nat :=
  list.findIdx fun node => decide (node.ioDevice.name = name)

/-- What a connection to the default device of a direction should do. If the name
is that of a device of the direction, there is one call, of the direction and to
the device; if it is no device's name, an error is returned. -/
def ConnectsDefault
    (backend : HmBackendConnection)
    (name : DeviceName)
    (dir : HmIoType) : Prop :=
  ((∃ node ∈ backend.devIoList,
        node.ioDevice.name = name ∧ node.ioDevice.type = dir) →
      ∃ call, defaultDeviceIoConnect backend dir = some call ∧
        call.connects = [{ direction := dir, dev := name }]) ∧
    ((∀ node ∈ backend.devIoList, node.ioDevice.name ≠ name) →
      ∃ call, defaultDeviceIoConnect backend dir = some call ∧ call.rc ≠ 0)

/-- The name of the default device of a direction is a device's name; if it is that
of a device of the direction, then the direction is recording, and an `unsigned int`
holds the position of the device. -/
def DefaultReachable
    (backend : HmBackendConnection)
    (name : DeviceName)
    (dir : HmIoType) : Prop :=
  (∃ node ∈ backend.devIoList, node.ioDevice.name = name) ∧
    ((∃ node ∈ backend.devIoList,
          node.ioDevice.name = name ∧ node.ioDevice.type = dir) →
      dir = .recording ∧ namePosition backend.devIoList name < 2 ^ 32)

/-! ## Indexes -/

/-- A name that is no device's has the index -1. -/
theorem getDevIoId_absent
    {name : DeviceName}
    {list : List HmPulseIoNode}
    (absent : ∀ node ∈ list, node.ioDevice.name ≠ name)
    (i : Nat) :
    getDevIoId name list i = -1 := by
  induction list generalizing i with
  | nil => rfl
  | cons node list inductionHypothesis =>
      rw [List.forall_mem_cons] at absent
      rw [getDevIoId, if_neg absent.1]
      exact inductionHypothesis absent.2 (i + 1)

/-- A device's name has the index of the first device of that name. -/
theorem getDevIoId_present
    {name : DeviceName}
    {list : List HmPulseIoNode}
    (present : ∃ node ∈ list, node.ioDevice.name = name)
    (i : Nat) :
    getDevIoId name list i =
      toSigned 32 (i + namePosition list name : Nat) := by
  induction list generalizing i with
  | nil => simp at present
  | cons node list inductionHypothesis =>
      rw [getDevIoId, namePosition, List.findIdx_cons]
      by_cases named : node.ioDevice.name = name
      · rw [if_pos named]
        simp [named]
      · rw [if_neg named, inductionHypothesis (by simpa [named] using present)]
        simp only [named, decide_false, cond_false, namePosition]
        rw [Nat.add_right_comm, Nat.add_assoc]

/-- The walk is to the node of the index, if there is one. -/
theorem walkNodes_head?
    (list : List HmPulseIoNode)
    (id : Nat) :
    (walkNodes list id).bind List.head? = list[id]? := by
  induction list generalizing id with
  | nil => cases id <;> rfl
  | cons node list inductionHypothesis =>
      cases id with
      | zero => rfl
      | succ id =>
          rw [walkNodes, inductionHypothesis, List.getElem?_cons_succ]

/-- A connection by index connects to the node of the index. -/
theorem hmPulseIoConnectById_eq
    (backend : HmBackendConnection)
    (id : Nat) :
    hmPulseIoConnectById backend id =
      backend.devIoList[id]?.map fun node =>
        { connects := connectStream node.ioDevice
          type := node.ioDevice.type
          rc := 0 } := by
  rw [← walkNodes_head?, hmPulseIoConnectById]
  cases walkNodes backend.devIoList id with
  | none => rfl
  | some nodes => cases nodes <;> rfl

/-- There is one connecting call exactly for a source. -/
theorem connectStream_eq_singleton_iff
    (ioDevice : HmDeviceIo)
    (dir : HmIoType)
    (name : DeviceName) :
    connectStream ioDevice = [{ direction := dir, dev := name }] ↔
      ioDevice.type = .recording ∧ dir = .recording ∧ ioDevice.name = name := by
  unfold connectStream
  cases ioDevice.type <;> simp [eq_comm]

/-! ## Default devices -/

section Default

variable {sources sinks : List PaIoInfo}
variable {defaultSinkName defaultSourceName : DeviceName}

/-- The name of the default device of a direction. -/
def defaultName
    (defaultSinkName defaultSourceName : DeviceName)
    (dir : HmIoType) : DeviceName :=
  if dir = .playback then defaultSinkName else defaultSourceName

/-- The connection is to the node of the index that the name has. -/
theorem defaultDeviceIoConnect_eq (dir : HmIoType) :
    let list := hmPulseIoList sources sinks
    let name := defaultName defaultSinkName defaultSourceName dir
    defaultDeviceIoConnect
        (hmPulseConnectionInit sources sinks defaultSinkName defaultSourceName)
        dir =
      list[toUnsigned 32 (getDevIoId name list 0)]?.map fun node =>
        { connects := connectStream node.ioDevice
          type := node.ioDevice.type
          rc := 0 } := by
  dsimp only
  rw [defaultDeviceIoConnect, hmPulseIoConnectById_eq]
  cases dir with
  | playback =>
      simp only [if_true, hmPulseConnectionInit, defaultName]
      generalize toUnsigned 32 _ = id
      cases (hmPulseIoList sources sinks)[id]? <;> rfl
  | recording =>
      simp only [reduceCtorEq, if_false, hmPulseConnectionInit, defaultName]
      generalize toUnsigned 32 _ = id
      cases (hmPulseIoList sources sinks)[id]? <;> rfl

/-- An absent default device is looked for past the end of the list. -/
theorem defaultDeviceIoConnect_absent
    {dir : HmIoType}
    (absent :
      ∀ node ∈ hmPulseIoList sources sinks,
        node.ioDevice.name ≠
          defaultName defaultSinkName defaultSourceName dir)
    (short : (hmPulseIoList sources sinks).length < 2 ^ 32) :
    defaultDeviceIoConnect
        (hmPulseConnectionInit sources sinks defaultSinkName defaultSourceName)
        dir =
      none := by
  have index : toUnsigned 32 (-1) = 2 ^ 32 - 1 := by decide
  rw [defaultDeviceIoConnect_eq, getDevIoId_absent absent, index,
    List.getElem?_eq_none (by omega), Option.map_none]

/-- A source stands in front of all sinks, also of one that has its name. -/
theorem namePosition_source
    {name : DeviceName}
    (isSource :
      ∃ node ∈ hmPulseIoList sources sinks,
        node.ioDevice.name = name ∧ node.ioDevice.type = .recording) :
    ∃ node,
      (hmPulseIoList sources sinks)[
          namePosition (hmPulseIoList sources sinks) name]? =
        some node ∧
      node.ioDevice.name = name ∧ node.ioDevice.type = .recording := by
  have recordings :
      ∀ node ∈ sources.map (hmPulseIoNodeOf .recording),
        node.ioDevice.type = .recording := by
    intro node member
    obtain ⟨info, _, rfl⟩ := List.mem_map.mp member
    rfl
  generalize listed : sources.map (hmPulseIoNodeOf .recording) = nodes
    at recordings
  have named : ∃ node ∈ nodes, decide (node.ioDevice.name = name) = true := by
    obtain ⟨node, member, isNamed, type⟩ := isSource
    rcases List.mem_append.mp member with source | sink
    · rw [listed] at source
      exact ⟨node, source, decide_eq_true isNamed⟩
    · obtain ⟨info, _, rfl⟩ := List.mem_map.mp sink
      cases type
  have inside := List.findIdx_lt_length_of_exists named
  have position :
      namePosition (hmPulseIoList sources sinks) name =
        nodes.findIdx fun node => decide (node.ioDevice.name = name) := by
    rw [namePosition, hmPulseIoList, listed, List.findIdx_append, if_pos inside]
  rw [position, hmPulseIoList, listed, List.getElem?_append_left inside,
    List.getElem?_eq_getElem inside]
  refine ⟨_, rfl, of_decide_eq_true (List.findIdx_getElem (w := inside)), ?_⟩
  exact recordings _ (List.getElem_mem inside)

@[simp] theorem devIoList_hmPulseConnectionInit :
    (hmPulseConnectionInit sources sinks defaultSinkName
      defaultSourceName).devIoList = hmPulseIoList sources sinks := rfl

/-- No connection reports an error. -/
theorem rc_defaultDeviceIoConnect
    {dir : HmIoType}
    {call : IoConnect}
    (returns :
      defaultDeviceIoConnect
          (hmPulseConnectionInit sources sinks defaultSinkName
            defaultSourceName)
          dir =
        some call) :
    call.rc = 0 := by
  rw [defaultDeviceIoConnect_eq] at returns
  obtain ⟨node, _, rfl⟩ := Option.map_eq_some_iff.mp returns
  rfl

/-- A default device that is connected as it should be is reachable. -/
theorem defaultReachable_of_connectsDefault
    {dir : HmIoType}
    (correct :
      ConnectsDefault
        (hmPulseConnectionInit sources sinks defaultSinkName defaultSourceName)
        (defaultName defaultSinkName defaultSourceName dir) dir) :
    DefaultReachable
      (hmPulseConnectionInit sources sinks defaultSinkName defaultSourceName)
      (defaultName defaultSinkName defaultSourceName dir) dir := by
  obtain ⟨connected, reported⟩ := correct
  constructor
  · by_contra absent
    push Not at absent
    obtain ⟨call, returns, error⟩ := reported absent
    exact error (rc_defaultDeviceIoConnect returns)
  · intro isListed
    obtain ⟨call, returns, one⟩ := connected isListed
    rw [defaultDeviceIoConnect_eq] at returns
    obtain ⟨node, found, rfl⟩ := Option.map_eq_some_iff.mp returns
    obtain ⟨_, isRecording, nodeNamed⟩ :=
      (connectStream_eq_singleton_iff _ _ _).mp one
    refine ⟨isRecording, ?_⟩
    -- the node that is connected has the name, so it is not before the first
    by_contra far
    rw [devIoList_hmPulseConnectionInit] at far
    have before :=
      Nat.lt_of_lt_of_le
        (toUnsigned_lt 32
          (getDevIoId (defaultName defaultSinkName defaultSourceName dir)
            (hmPulseIoList sources sinks) 0))
        (Nat.le_of_not_lt far)
    obtain ⟨inside, rfl⟩ := List.getElem?_eq_some_iff.mp found
    exact absurd (decide_eq_true nodeNamed)
      (by simpa using List.not_of_lt_findIdx before)

/-- A reachable default device is connected as it should be. -/
theorem connectsDefault_of_defaultReachable
    {dir : HmIoType}
    (reachable :
      DefaultReachable
        (hmPulseConnectionInit sources sinks defaultSinkName defaultSourceName)
        (defaultName defaultSinkName defaultSourceName dir) dir) :
    ConnectsDefault
      (hmPulseConnectionInit sources sinks defaultSinkName defaultSourceName)
      (defaultName defaultSinkName defaultSourceName dir) dir := by
  obtain ⟨named, position⟩ := reachable
  rw [devIoList_hmPulseConnectionInit] at named position
  constructor
  · intro isListed
    rw [devIoList_hmPulseConnectionInit] at isListed
    obtain ⟨isRecording, bounded⟩ := position isListed
    rw [isRecording] at isListed
    obtain ⟨source, found, sourceNamed, type⟩ := namePosition_source isListed
    rw [← isRecording] at found sourceNamed
    have index :
        toUnsigned 32
            (getDevIoId (defaultName defaultSinkName defaultSourceName dir)
              (hmPulseIoList sources sinks) 0) =
          namePosition (hmPulseIoList sources sinks)
            (defaultName defaultSinkName defaultSourceName dir) := by
      rw [getDevIoId_present named, Nat.zero_add]
      exact toUnsigned_toSigned 32 bounded
    rw [defaultDeviceIoConnect_eq, index, found]
    refine ⟨_, rfl, ?_⟩
    exact (connectStream_eq_singleton_iff _ _ _).mpr
      ⟨type, isRecording, sourceNamed⟩
  · intro absent
    obtain ⟨node, member, isNamed⟩ := named
    exact absurd isNamed (absent node member)

/-- The default device of a direction is connected as it should be exactly if it is
reachable: only a default source is, and an absent one is not reported. -/
theorem connectsDefault_iff
    (sources sinks : List PaIoInfo)
    (defaultSinkName defaultSourceName : DeviceName)
    (dir : HmIoType) :
    let backend :=
      hmPulseConnectionInit sources sinks defaultSinkName defaultSourceName
    let name := defaultName defaultSinkName defaultSourceName dir
    ConnectsDefault backend name dir ↔ DefaultReachable backend name dir :=
  ⟨defaultReachable_of_connectsDefault, connectsDefault_of_defaultReachable⟩

/-- A default sink is connected twice, the second time in the other direction, and
the walk for an absent default source goes past the end of the list. -/
theorem not_connectsDefault_sink :
    let backend :=
      hmPulseConnectionInit [{ name := ['m'], card := 0 }]
        [{ name := ['s'], card := 0 }] ['s'] ['x']
    ¬ConnectsDefault backend ['s'] .playback ∧
      ¬ConnectsDefault backend ['x'] .recording := by
  intro backend
  constructor
  · rintro ⟨connected, _⟩
    obtain ⟨call, returns, one⟩ := connected (by decide)
    have calls := congrArg (Option.map (·.connects)) returns
    rw [Option.map_some, one] at calls
    exact absurd calls (by decide)
  · rintro ⟨_, reported⟩
    obtain ⟨call, returns, _⟩ := reported (by decide)
    have walked := Option.isSome_of_eq_some returns
    exact absurd walked (by decide)

end Default

end Hiemal
