import Hiemal.Pulse.Devices

/-!
# Assigning the io devices to their cards

`io_list_to_array` goes through the list of io devices twice. The first pass counts
them by their card ids, the second hands them out by the positions of their cards,
to slots allocated by the counts. A card is left with its own io devices, in as many
slots, exactly if the two passes count alike for every position.
-/

namespace Hiemal

open Foundation

/-- The io devices of the card with the given id, in list order. -/
def ownIoDevices
    (nodes : List HmPulseIoNode)
    (cardId : Int) : List HmDeviceIo :=
  (nodes.filter fun node => node.cardId = cardId).map (·.ioDevice)

/-- A card with slots for the given io devices and nothing else, all filled. -/
def HmPulseDevice.withIoDevices
    (device : HmPulseDevice)
    (ioDevices : List HmDeviceIo) : HmPulseDevice :=
  { device with
    nIoDevices := ioDevices.length
    ioDevices := ioDevices.map some }

/-- No access is outside of its array, and every card is left with its own io
devices. -/
def AssignsIoDevices
    (nodes : List HmPulseIoNode)
    (cards : List HmPulseDevice) : Prop :=
  ioListToArray nodes cards =
    some (cards.map fun card =>
      card.withIoDevices (ownIoDevices nodes card.pulseCardId))

/-- The number of nodes with a card id. -/
def countNodes (nodes : List HmPulseIoNode) (cardId : Int) : Nat :=
  nodes.countP fun node => node.cardId = cardId

/-- Every node's card id is both that of a listed card and a position in the array
of cards, and for every position as many nodes have it as their card id as have the
id of the card there. -/
structure CountsAgree
    (nodes : List HmPulseIoNode)
    (cards : List HmPulseDevice) : Prop where
  listed : ∀ node ∈ nodes, ∃ card ∈ cards, card.pulseCardId = node.cardId
  inside : ∀ node ∈ nodes, 0 ≤ node.cardId ∧ node.cardId < cards.length
  counts :
    ∀ (i : Nat) (card : HmPulseDevice), cards[i]? = some card →
      countNodes nodes i = countNodes nodes card.pulseCardId

theorem length_ownIoDevices (nodes : List HmPulseIoNode) (cardId : Int) :
    (ownIoDevices nodes cardId).length = countNodes nodes cardId := by
  rw [ownIoDevices, List.length_map, countNodes, List.countP_eq_length_filter]

/-! ## Indexes -/

theorem arrayIndex_eq_some_iff {size position : Nat} {index : Int} :
    arrayIndex size index = some position ↔
      index = position ∧ position < size := by
  unfold arrayIndex
  split_ifs with inside
  · rw [Option.some.injEq]
    omega
  · simp only [false_iff]
    omega

/-- The index of a card is inside of the array exactly if the card is listed. -/
theorem arrayIndex_getIndexFromCardId
    {cards : List HmPulseDevice}
    {cardId : Int}
    {position : Nat} :
    arrayIndex cards.length (getIndexFromCardId cards cardId) = some position ↔
      cards.findIdx? (·.pulseCardId = cardId) = some position := by
  rw [arrayIndex_eq_some_iff, getIndexFromCardId]
  split
  · rename_i i found
    obtain ⟨inside, _⟩ := List.findIdx?_eq_some_iff_getElem.mp found
    rw [found, Option.some.injEq]
    omega
  · rename_i absent
    simp [absent]

/-- Among cards with distinct ids, the index of a card's id is its position. -/
theorem findIdx?_pulseCardId
    {cards : List HmPulseDevice}
    (distinct : (cards.map (·.pulseCardId)).Nodup)
    {position : Nat}
    {card : HmPulseDevice}
    (there : cards[position]? = some card) :
    cards.findIdx? (·.pulseCardId = card.pulseCardId) = some position := by
  obtain ⟨inside, rfl⟩ := List.getElem?_eq_some_iff.mp there
  apply List.findIdx?_eq_some_iff_getElem.mpr
  refine ⟨inside, by simp, ?_⟩
  intro before less same
  have beforeInside : before < (cards.map (·.pulseCardId)).length := by
    rw [List.length_map]
    omega
  have positionInside : position < (cards.map (·.pulseCardId)).length := by
    rwa [List.length_map]
  have equal :
      (cards.map (·.pulseCardId))[before] =
        (cards.map (·.pulseCardId))[position] := by
    simpa using same
  exact absurd (distinct.getElem_inj_iff.mp equal) (Nat.ne_of_lt less)

/-! ## The counting pass -/

theorem countNodes_cons
    (node : HmPulseIoNode)
    (nodes : List HmPulseIoNode)
    (cardId : Int) :
    countNodes (node :: nodes) cardId =
      countNodes nodes cardId + if node.cardId = cardId then 1 else 0 := by
  rw [countNodes, List.countP_cons, countNodes]
  congr 1
  simp

/-- The counting pass ends exactly if every card id is a position, with the number
of nodes of each. -/
theorem countIoDevices_eq_some_iff
    {nodes : List HmPulseIoNode}
    {cardIoCount result : List Nat} :
    countIoDevices nodes cardIoCount = some result ↔
      (∀ node ∈ nodes, 0 ≤ node.cardId ∧ node.cardId < cardIoCount.length) ∧
        cardIoCount.mapIdx (fun i count => count + countNodes nodes i) =
          result := by
  induction nodes generalizing cardIoCount with
  | nil =>
      have same : cardIoCount.mapIdx (fun i count => count + countNodes [] i) =
          cardIoCount := by
        apply List.ext_getElem?
        intro i
        simp [countNodes]
      simp [countIoDevices, same]
  | cons node nodes inductionHypothesis =>
      rw [countIoDevices, List.forall_mem_cons]
      by_cases inside : 0 ≤ node.cardId ∧ node.cardId < cardIoCount.length
      · have index : arrayIndex cardIoCount.length node.cardId =
            some node.cardId.toNat := if_pos inside
        have counted :
            (cardIoCount.modify node.cardId.toNat (· + 1)).mapIdx
                (fun i count => count + countNodes nodes i) =
              cardIoCount.mapIdx
                (fun i count => count + countNodes (node :: nodes) i) := by
          apply List.ext_getElem?
          intro i
          have here : node.cardId.toNat = i ↔ node.cardId = i := by omega
          rw [List.getElem?_mapIdx, List.getElem?_mapIdx,
            List.getElem?_modify]
          cases cardIoCount[i]? with
          | none => simp
          | some count =>
              simp only [Option.map_some, countNodes_cons, here]
              split_ifs with same
              · simp only [Option.map_eq_map, Option.map_some,
                  Option.some.injEq]
                omega
              · rfl
        simp only [index, Option.bind_eq_bind, Option.bind_some,
          inductionHypothesis, List.length_modify, counted, inside, true_and,
          and_self]
      · have index : arrayIndex cardIoCount.length node.cardId = none :=
          if_neg inside
        simp [index, inside]

/-- The counts of the first pass. -/
theorem countIoDevices_replicate
    {nodes : List HmPulseIoNode}
    {size : Nat}
    {result : List Nat} :
    countIoDevices nodes (List.replicate size 0) = some result ↔
      (∀ node ∈ nodes, 0 ≤ node.cardId ∧ node.cardId < size) ∧
        (List.range size).map (fun i => countNodes nodes (i : Nat)) =
          result := by
  have counts :
      (List.replicate size 0).mapIdx
          (fun i count => count + countNodes nodes i) =
        (List.range size).map fun i => countNodes nodes (i : Nat) := by
    apply List.ext_getElem?
    intro i
    rw [List.getElem?_mapIdx, List.getElem?_map, List.getElem?_replicate]
    split_ifs with inside
    · rw [List.getElem?_range inside, Option.map_some, Option.map_some,
        Nat.zero_add]
    · rw [List.getElem?_eq_none (by rw [List.length_range]; omega)]
      rfl
  rw [countIoDevices_eq_some_iff, List.length_replicate, counts]

/-! ## The filling pass -/

/-- A card and its slots, of which those for the io devices of some nodes are
filled. -/
def partlyFilled
    (nodes : List HmPulseIoNode)
    (slots : HmPulseDevice × Nat) : HmPulseDevice :=
  let own := ownIoDevices nodes slots.1.pulseCardId
  { slots.1 with
    nIoDevices := own.length
    ioDevices := own.map some ++ List.replicate (slots.2 - own.length) none }

theorem allocateIoDevices_eq
    (cards : List HmPulseDevice)
    (cardIoCount : List Nat) :
    allocateIoDevices cards cardIoCount =
      (cards.zip cardIoCount).map (partlyFilled []) := by
  rw [allocateIoDevices, List.map_zip_eq_zipWith]
  congr 1

/-- Changing one item of a list by another function, where that function changes no
other item, is mapping with it. -/
theorem set_map_eq_map
    {α β : Type}
    {items : List α}
    {position : Nat}
    {item : α}
    {before after : α → β}
    (there : items[position]? = some item)
    (others : ∀ i other, i ≠ position → items[i]? = some other →
      before other = after other) :
    (items.map before).set position (after item) = items.map after := by
  apply List.ext_getElem?
  intro i
  rw [List.getElem?_set, List.length_map]
  split_ifs with here inside
  · subst here
    rw [List.getElem?_map, there, Option.map_some]
  · exact absurd (List.getElem?_eq_some_iff.mp there).1 inside
  · rw [List.getElem?_map, List.getElem?_map]
    cases other : items[i]? with
    | none => rfl
    | some item =>
        rw [Option.map_some, Option.map_some,
          others i item (Ne.symm here) other]

theorem ownIoDevices_append
    (first second : List HmPulseIoNode)
    (cardId : Int) :
    ownIoDevices (first ++ second) cardId =
      ownIoDevices first cardId ++ ownIoDevices second cardId := by
  simp [ownIoDevices]

theorem ownIoDevices_singleton
    (node : HmPulseIoNode)
    (cardId : Int) :
    ownIoDevices [node] cardId =
      if node.cardId = cardId then [node.ioDevice] else [] := by
  simp only [ownIoDevices, List.filter_singleton]
  split_ifs <;> simp_all

/-- A free slot of its card takes an io device. -/
theorem addIoDevice_partlyFilled
    {before : List HmPulseIoNode}
    {slots : HmPulseDevice × Nat}
    {node : HmPulseIoNode}
    (own : slots.1.pulseCardId = node.cardId)
    (free : (ownIoDevices before slots.1.pulseCardId).length < slots.2) :
    addIoDevice (partlyFilled before slots) node.ioDevice =
      some (partlyFilled (before ++ [node]) slots) := by
  have added :
      ownIoDevices (before ++ [node]) slots.1.pulseCardId =
        ownIoDevices before slots.1.pulseCardId ++ [node.ioDevice] := by
    rw [ownIoDevices_append, ownIoDevices_singleton, if_pos own.symm]
  have index :
      arrayIndex (partlyFilled before slots).ioDevices.length
          (partlyFilled before slots).nIoDevices =
        some (ownIoDevices before slots.1.pulseCardId).length := by
    apply arrayIndex_eq_some_iff.mpr
    refine ⟨rfl, ?_⟩
    simp only [partlyFilled, List.length_append, List.length_map,
      List.length_replicate]
    omega
  rw [addIoDevice, index]
  simp only [partlyFilled, added]
  generalize ownIoDevices before slots.1.pulseCardId = filled at free
  have slot :
      (filled.map some ++ List.replicate (slots.2 - filled.length) none).set
          filled.length (some node.ioDevice) =
        (filled ++ [node.ioDevice]).map some ++
          List.replicate (slots.2 - (filled ++ [node.ioDevice]).length)
            none := by
    obtain ⟨left, enough⟩ := Nat.exists_eq_add_of_lt free
    have slotsLeft : slots.2 - filled.length = left + 1 := by omega
    have slotsBehind :
        slots.2 - (filled ++ [node.ioDevice]).length = left := by
      rw [List.length_append, List.length_singleton]
      omega
    rw [slotsLeft, slotsBehind, List.replicate_succ,
      List.set_append_right _ _ (by rw [List.length_map])]
    simp
  simp [slot]

/-- The index of a card does not depend on how far the slots are filled. -/
theorem findIdx?_partlyFilled
    (nodes : List HmPulseIoNode)
    (slots : List (HmPulseDevice × Nat))
    (cardId : Int) :
    (slots.map (partlyFilled nodes)).findIdx? (·.pulseCardId = cardId) =
      (slots.map (·.1)).findIdx? (·.pulseCardId = cardId) := by
  rw [List.findIdx?_map, List.findIdx?_map]
  rfl

/-- One round of the filling pass hands the io device to its card. -/
theorem fillIoDevices_cons
    {slots : List (HmPulseDevice × Nat)}
    (distinct : ((slots.map (·.1)).map (·.pulseCardId)).Nodup)
    {before : List HmPulseIoNode}
    {node : HmPulseIoNode}
    {own : HmPulseDevice × Nat}
    (member : own ∈ slots)
    (isOwn : own.1.pulseCardId = node.cardId)
    (free : (ownIoDevices before own.1.pulseCardId).length < own.2)
    (nodes : List HmPulseIoNode) :
    fillIoDevices (node :: nodes) (slots.map (partlyFilled before)) =
      fillIoDevices nodes (slots.map (partlyFilled (before ++ [node]))) := by
  obtain ⟨position, there⟩ := List.mem_iff_getElem?.mp member
  have thereCard : (slots.map (·.1))[position]? = some own.1 := by
    rw [List.getElem?_map, there, Option.map_some]
  have found := findIdx?_pulseCardId distinct thereCard
  rw [isOwn, ← findIdx?_partlyFilled before] at found
  have cell :
      (slots.map (partlyFilled before))[position]? =
        some (partlyFilled before own) := by
    rw [List.getElem?_map, there, Option.map_some]
  rw [fillIoDevices, arrayIndex_getIndexFromCardId.mpr found]
  simp only [Option.bind_eq_bind, Option.bind_some, cell,
    addIoDevice_partlyFilled isOwn free]
  rw [set_map_eq_map there]
  intro i other elsewhere otherThere
  have otherCard : (slots.map (·.1))[i]? = some other.1 := by
    rw [List.getElem?_map, otherThere, Option.map_some]
  have foreign : node.cardId ≠ other.1.pulseCardId := by
    intro same
    have otherFound := findIdx?_pulseCardId distinct otherCard
    rw [← same, ← findIdx?_partlyFilled before, found] at otherFound
    exact elsewhere (Option.some.inj otherFound).symm
  simp only [partlyFilled, ownIoDevices_append, ownIoDevices_singleton,
    if_neg foreign, List.append_nil]

/-- The filling pass hands every io device to its card, if all of them are listed
and have a slot. -/
theorem fillIoDevices_eq
    {slots : List (HmPulseDevice × Nat)}
    (distinct : ((slots.map (·.1)).map (·.pulseCardId)).Nodup)
    {before nodes : List HmPulseIoNode}
    (listed : ∀ node ∈ nodes, ∃ own ∈ slots, own.1.pulseCardId = node.cardId)
    (enough :
      ∀ own ∈ slots,
        (ownIoDevices (before ++ nodes) own.1.pulseCardId).length ≤ own.2) :
    fillIoDevices nodes (slots.map (partlyFilled before)) =
      some (slots.map (partlyFilled (before ++ nodes))) := by
  induction nodes generalizing before with
  | nil => rw [List.append_nil, fillIoDevices]
  | cons node nodes inductionHypothesis =>
      rw [List.forall_mem_cons] at listed
      obtain ⟨⟨own, member, isOwn⟩, restListed⟩ := listed
      have free : (ownIoDevices before own.1.pulseCardId).length < own.2 := by
        have room := enough own member
        rw [ownIoDevices_append, ← List.singleton_append,
          ownIoDevices_append, ownIoDevices_singleton, if_pos isOwn.symm]
          at room
        simp only [List.length_append, List.length_singleton] at room
        omega
      rw [fillIoDevices_cons distinct member isOwn free,
        inductionHypothesis restListed]
      · rw [List.append_assoc, List.singleton_append]
      · intro other otherMember
        rw [List.append_assoc, List.singleton_append]
        exact enough other otherMember

/-- The id of a card and the number of its slots. Handing out io devices changes
neither. -/
def idAndSlots (card : HmPulseDevice) : Int × Nat :=
  (card.pulseCardId, card.ioDevices.length)

theorem idAndSlots_addIoDevice
    {card after : HmPulseDevice}
    {ioDevice : HmDeviceIo}
    (added : addIoDevice card ioDevice = some after) :
    idAndSlots after = idAndSlots card := by
  obtain ⟨slot, _, rest⟩ := Option.bind_eq_some_iff.mp added
  obtain rfl := Option.some.inj rest
  rw [idAndSlots, idAndSlots, List.length_set]

/-- If the filling pass stays inside of its arrays, the card of every node is
listed, and the cards keep their ids and slots. -/
theorem listed_and_idAndSlots_of_fillIoDevices
    {nodes : List HmPulseIoNode}
    {cards after : List HmPulseDevice}
    (filled : fillIoDevices nodes cards = some after) :
    (∀ node ∈ nodes, ∃ card ∈ cards, card.pulseCardId = node.cardId) ∧
      after.map idAndSlots = cards.map idAndSlots := by
  induction nodes generalizing cards with
  | nil =>
      rw [fillIoDevices, Option.some.injEq] at filled
      simp [filled]
  | cons node nodes inductionHypothesis =>
      obtain ⟨position, index, filled⟩ := Option.bind_eq_some_iff.mp filled
      obtain ⟨card, there, filled⟩ := Option.bind_eq_some_iff.mp filled
      obtain ⟨cardAfter, added, filled⟩ := Option.bind_eq_some_iff.mp filled
      obtain ⟨listed, kept⟩ := inductionHypothesis filled
      obtain ⟨inside, isCard⟩ := List.getElem?_eq_some_iff.mp there
      have found := arrayIndex_getIndexFromCardId.mp index
      obtain ⟨_, isOwn, _⟩ := List.findIdx?_eq_some_iff_getElem.mp found
      have stepKept :
          (cards.set position cardAfter).map idAndSlots =
            cards.map idAndSlots := by
        rw [List.map_set, idAndSlots_addIoDevice added, ← List.map_set,
          ← isCard, List.set_getElem_self]
      have sameIds :
          (cards.set position cardAfter).map (·.pulseCardId) =
            cards.map (·.pulseCardId) := by
        have first := congrArg (List.map Prod.fst) stepKept
        rwa [List.map_map, List.map_map] at first
      rw [List.forall_mem_cons]
      refine ⟨⟨⟨cards[position], List.getElem_mem inside, by simpa using isOwn⟩,
        ?_⟩, kept.trans stepKept⟩
      intro other member
      have listedId : other.cardId ∈ cards.map (·.pulseCardId) := by
        rw [← sameIds]
        exact List.mem_map.mpr (listed other member)
      exact List.mem_map.mp listedId

/-! ## Both passes -/

theorem map_fst_zip_counts
    (cards : List HmPulseDevice)
    (count : Nat → Nat) :
    (cards.zip ((List.range cards.length).map count)).map (·.1) = cards := by
  apply List.map_fst_zip
  rw [List.length_map, List.length_range]

/-- A card with its slots, where these are as many as its io devices. -/
theorem partlyFilled_eq_withIoDevices
    {nodes : List HmPulseIoNode}
    {slots : HmPulseDevice × Nat}
    (exactly : slots.2 = countNodes nodes slots.1.pulseCardId) :
    partlyFilled nodes slots =
      slots.1.withIoDevices (ownIoDevices nodes slots.1.pulseCardId) := by
  rw [partlyFilled, HmPulseDevice.withIoDevices, exactly,
    length_ownIoDevices, Nat.sub_self, List.replicate_zero, List.append_nil]

/-- The card at a position, with the count of the first pass for it. -/
theorem mem_zip_counts
    {cards : List HmPulseDevice}
    {count : Nat → Nat}
    {slots : HmPulseDevice × Nat}
    (member : slots ∈ cards.zip ((List.range cards.length).map count)) :
    ∃ i, cards[i]? = some slots.1 ∧ slots.2 = count i := by
  obtain ⟨i, there⟩ := List.mem_iff_getElem?.mp member
  rw [List.getElem?_zip_eq_some] at there
  obtain ⟨thereCard, thereCount⟩ := there
  refine ⟨i, thereCard, ?_⟩
  have inside := (List.getElem?_eq_some_iff.mp thereCard).1
  rw [List.getElem?_map, List.getElem?_range inside, Option.map_some,
    Option.some.injEq] at thereCount
  exact thereCount.symm

/-- The two passes agree, so every card is left with its own io devices. -/
theorem assignsIoDevices_of_countsAgree
    {nodes : List HmPulseIoNode}
    {cards : List HmPulseDevice}
    (distinct : (cards.map (·.pulseCardId)).Nodup)
    (agree : CountsAgree nodes cards) :
    AssignsIoDevices nodes cards := by
  let counts := (List.range cards.length).map fun i => countNodes nodes (i : Nat)
  have counted :
      countIoDevices nodes (List.replicate cards.length 0) = some counts :=
    countIoDevices_replicate.mpr ⟨agree.inside, rfl⟩
  have exactly :
      ∀ slots ∈ cards.zip counts,
        slots.2 = countNodes nodes slots.1.pulseCardId := by
    intro slots member
    obtain ⟨i, there, isCount⟩ := mem_zip_counts member
    rw [isCount, agree.counts i slots.1 there]
  have sameCards : (cards.zip counts).map (·.1) = cards :=
    map_fst_zip_counts cards _
  rw [AssignsIoDevices, ioListToArray, counted, Option.bind_eq_bind,
    Option.bind_some, allocateIoDevices_eq, fillIoDevices_eq]
  · congr 1
    calc
      (cards.zip counts).map (partlyFilled ([] ++ nodes)) =
          (cards.zip counts).map fun slots =>
            slots.1.withIoDevices
              (ownIoDevices nodes slots.1.pulseCardId) := by
        apply List.map_congr_left
        intro slots member
        exact partlyFilled_eq_withIoDevices (exactly slots member)
      _ = ((cards.zip counts).map (·.1)).map fun card =>
            card.withIoDevices (ownIoDevices nodes card.pulseCardId) := by
        rw [List.map_map]
        rfl
      _ = cards.map fun card =>
            card.withIoDevices (ownIoDevices nodes card.pulseCardId) := by
        rw [sameCards]
  · rwa [sameCards]
  · intro node member
    obtain ⟨card, cardMember, isOwn⟩ := agree.listed node member
    rw [← sameCards] at cardMember
    obtain ⟨slots, slotsMember, rfl⟩ := List.mem_map.mp cardMember
    exact ⟨slots, slotsMember, isOwn⟩
  · intro slots member
    rw [List.nil_append, length_ownIoDevices]
    exact (exactly slots member).ge

/-- A correct outcome takes both passes to be inside of their arrays and to count
alike. -/
theorem countsAgree_of_assignsIoDevices
    {nodes : List HmPulseIoNode}
    {cards : List HmPulseDevice}
    (assigns : AssignsIoDevices nodes cards) :
    CountsAgree nodes cards := by
  obtain ⟨counts, counted, filled⟩ := Option.bind_eq_some_iff.mp assigns
  obtain ⟨inside, rfl⟩ := countIoDevices_replicate.mp counted
  rw [allocateIoDevices_eq] at filled
  obtain ⟨listed, kept⟩ := listed_and_idAndSlots_of_fillIoDevices filled
  refine ⟨?_, inside, ?_⟩
  · intro node member
    obtain ⟨card, cardMember, isOwn⟩ := listed node member
    obtain ⟨slots, slotsMember, rfl⟩ := List.mem_map.mp cardMember
    obtain ⟨i, there, _⟩ := mem_zip_counts slotsMember
    exact ⟨slots.1, List.mem_of_getElem? there, isOwn⟩
  · intro i card there
    have positionInside := (List.getElem?_eq_some_iff.mp there).1
    have cell :
        (cards.zip ((List.range cards.length).map fun i =>
            countNodes nodes (i : Nat)))[i]? =
          some (card, countNodes nodes i) := by
      rw [List.getElem?_zip_eq_some, List.getElem?_map,
        List.getElem?_range positionInside]
      exact ⟨there, rfl⟩
    have alike := congrArg (·[i]?) kept
    simp only [List.getElem?_map, there, cell, Option.map_some] at alike
    have slotsAlike := congrArg Prod.snd (Option.some.inj alike)
    simp only [idAndSlots, HmPulseDevice.withIoDevices, partlyFilled,
      List.length_map, List.length_append, List.length_replicate,
      length_ownIoDevices] at slotsAlike
    simpa [countNodes] using slotsAlike.symm

/-- `io_list_to_array` leaves every card with its own io devices exactly if its two
passes count alike. -/
theorem assignsIoDevices_iff_countsAgree
    {nodes : List HmPulseIoNode}
    {cards : List HmPulseDevice}
    (distinct : (cards.map (·.pulseCardId)).Nodup) :
    AssignsIoDevices nodes cards ↔ CountsAgree nodes cards :=
  ⟨countsAgree_of_assignsIoDevices,
    assignsIoDevices_of_countsAgree distinct⟩

/-- Two cards listed against the order of their ids, with one io device each. -/
theorem assignsIoDevices_iff_countsAgree_swapped :
    AssignsIoDevices
      [{ ioDevice := ⟨['m'], .recording⟩, cardId := 1 },
        { ioDevice := ⟨['s'], .playback⟩, cardId := 0 }]
      [⟨['a'], 1, 0, []⟩, ⟨['b'], 0, 0, []⟩] := by
  apply (assignsIoDevices_iff_countsAgree (by decide)).mpr
  refine ⟨by decide, by decide, ?_⟩
  intro i card there
  match i with
  | 0 => obtain rfl := Option.some.inj there; decide
  | 1 => obtain rfl := Option.some.inj there; decide
  | i + 2 => simp at there

/-- The card id of an io device without a card is no index, nor is the id of the
only card if that is 5. -/
theorem not_assignsIoDevices_outside :
    ¬ AssignsIoDevices [{ ioDevice := ⟨['m'], .recording⟩, cardId := -1 }]
        [⟨['a'], 0, 0, []⟩] ∧
      ¬ AssignsIoDevices [{ ioDevice := ⟨['m'], .recording⟩, cardId := 5 }]
        [⟨['a'], 5, 0, []⟩] := by
  unfold AssignsIoDevices
  decide

end Hiemal
