import Mathlib.Data.List.Basic
import Mathlib.Data.List.Nodup

/-!
# Doubly linked chains

A map gives the two links of every allocated cell. A segment is a list of cells
that are linked in both directions; it is entered through a pointer and left
through the next link of its last cell. This module says how segments split and
which updates of single links insert a cell into a chain or remove one from it.
-/

namespace Hiemal
namespace Foundation

variable {Address : Type*}

/-- The two links of a cell; `none` is the null pointer. -/
structure Links (Address : Type*) where
  prev : Option Address
  next : Option Address

/-- The links of every allocated cell. -/
abbrev LinkMap (Address : Type*) := Address → Option (Links Address)

/-- The cells, in order, are linked in both directions: `first` points to the
first of them, whose previous link is `prev`, and the last one's next link is
`out`. Without cells `first` is `out`. -/
def Segment (map : LinkMap Address) :
    (prev first : Option Address) →
      (cells : List Address) → (out : Option Address) → Prop
  | _, first, [], out => first = out
  | prev, first, cell :: cells, out =>
      first = some cell ∧
        ∃ next, map cell = some ⟨prev, next⟩ ∧
          Segment map (some cell) next cells out

/-- A segment between null pointers, of distinct cells. -/
structure Chain
    (map : LinkMap Address)
    (first : Option Address)
    (cells : List Address) : Prop where
  linked : Segment map none first cells none
  distinct : cells.Nodup

section Segments

variable {map : LinkMap Address} {prev first out : Option Address}
variable {cells xs ys : List Address} {cell : Address}

theorem getLast?_cons_or
    (cell : Address)
    (cells : List Address)
    (prev : Option Address) :
    (cell :: cells).getLast?.or prev = cells.getLast?.or (some cell) := by
  rw [List.getLast?_cons]
  cases cells.getLast? <;> rfl

/-- A segment splits anywhere. -/
theorem segment_append :
    Segment map prev first (xs ++ ys) out ↔
      ∃ middle, Segment map prev first xs middle ∧
        Segment map (xs.getLast?.or prev) middle ys out := by
  induction xs generalizing prev first with
  | nil => simp [Segment]
  | cons cell xs inductionHypothesis =>
      simp only [List.cons_append, Segment, inductionHypothesis,
        getLast?_cons_or]
      constructor
      · rintro ⟨entered, next, links, middle, left, right⟩
        exact ⟨middle, ⟨entered, next, links, left⟩, right⟩
      · rintro ⟨middle, ⟨entered, next, links, left⟩, right⟩
        exact ⟨entered, next, links, middle, left, right⟩

/-- A segment is entered at its first cell. -/
theorem Segment.first_eq
    (segment : Segment map prev first cells out) :
    first = cells.head?.or out := by
  cases cells with
  | nil => exact segment
  | cons cell cells => exact segment.1

/-- A segment depends on the links of its own cells. -/
theorem Segment.congr
    {other : LinkMap Address}
    (segment : Segment map prev first cells out)
    (same : ∀ cell ∈ cells, other cell = map cell) :
    Segment other prev first cells out := by
  induction cells generalizing prev first with
  | nil => exact segment
  | cons cell cells inductionHypothesis =>
      rw [List.forall_mem_cons] at same
      obtain ⟨entered, next, links, rest⟩ := segment
      exact ⟨entered, next, same.1.trans links,
        inductionHypothesis rest same.2⟩

/-- The links of a cell inside a segment. -/
theorem Segment.links_eq
    (segment : Segment map prev first (xs ++ cell :: ys) out) :
    map cell = some ⟨xs.getLast?.or prev, ys.head?.or out⟩ := by
  obtain ⟨middle, _, _, next, links, rest⟩ := segment_append.mp segment
  rw [links, rest.first_eq]

/-- Every cell of a segment is allocated. -/
theorem Segment.allocated
    (segment : Segment map prev first cells out)
    (member : cell ∈ cells) :
    ∃ links, map cell = some links := by
  obtain ⟨xs, ys, rfl⟩ := List.mem_iff_append.mp member
  exact ⟨_, segment.links_eq⟩

/-- In a segment between null pointers the two kinds of links are inverse to each
other. -/
theorem Segment.next_iff_prev
    (segment : Segment map none first cells none)
    {left right : Address}
    (leftMember : left ∈ cells)
    (rightMember : right ∈ cells) :
    (map left).bind Links.next = some right ↔
      (map right).bind Links.prev = some left := by
  constructor
  · intro next
    obtain ⟨xs, ys, rfl⟩ := List.mem_iff_append.mp leftMember
    rw [segment.links_eq] at next
    obtain ⟨rest, rfl⟩ : ∃ rest, ys = right :: rest := by
      cases ys with
      | nil => cases next
      | cons cell rest => exact ⟨rest, by simpa using next⟩
    rw [List.append_cons] at segment
    rw [segment.links_eq]
    simp
  · intro prev
    obtain ⟨xs, ys, rfl⟩ := List.mem_iff_append.mp rightMember
    rw [segment.links_eq] at prev
    obtain ⟨rest, rfl⟩ : ∃ rest, xs = rest ++ [left] := by
      apply List.getLast?_eq_some_iff.mp
      simpa using prev
    rw [← List.append_cons] at segment
    rw [segment.links_eq]
    simp

/-- The first cell of a chain has no previous link. -/
theorem Chain.prev_first
    (chain : Chain map first cells)
    (entered : first = some cell) :
    (map cell).bind Links.prev = none := by
  have segment := chain.linked
  rw [segment.first_eq, Option.or_none] at entered
  obtain ⟨ys, rfl⟩ := List.head?_eq_some_iff.mp entered
  obtain ⟨_, next, links, _⟩ := segment
  rw [links]
  rfl

/-- The last cell of a chain has no next link. -/
theorem Chain.next_last
    (chain : Chain map first cells)
    (last : cells.getLast? = some cell) :
    (map cell).bind Links.next = none := by
  have segment := chain.linked
  obtain ⟨xs, rfl⟩ := List.getLast?_eq_some_iff.mp last
  rw [segment.links_eq]
  rfl

end Segments

/-! ## Updates of single links -/

section Updates

variable [DecidableEq Address]

/-- Change the links of one cell, if there is one. -/
def LinkMap.modify
    (map : LinkMap Address)
    (target : Option Address)
    (change : Links Address → Links Address) : LinkMap Address :=
  fun cell => if target = some cell then (map cell).map change else map cell

/-- Change the previous link of a cell, if there is one. -/
def LinkMap.setPrev
    (map : LinkMap Address)
    (target prev : Option Address) : LinkMap Address :=
  map.modify target fun links => { links with prev := prev }

/-- Change the next link of a cell, if there is one. -/
def LinkMap.setNext
    (map : LinkMap Address)
    (target next : Option Address) : LinkMap Address :=
  map.modify target fun links => { links with next := next }

variable {map : LinkMap Address} {prev first out : Option Address}
variable {cells xs ys : List Address} {cell : Address}

theorem LinkMap.modify_of_ne
    {target : Option Address}
    (change : Links Address → Links Address)
    (other : target ≠ some cell) :
    map.modify target change cell = map cell :=
  if_neg other

@[simp] theorem LinkMap.modify_none
    (change : Links Address → Links Address) :
    map.modify none change = map := by
  funext cell
  exact if_neg (by simp)

theorem LinkMap.modify_self
    (cell : Address)
    (change : Links Address → Links Address) :
    map.modify (some cell) change cell = (map cell).map change :=
  if_pos rfl

/-- Changing links allocates and releases nothing. -/
theorem LinkMap.modify_allocated
    {target : Option Address}
    (change : Links Address → Links Address)
    (allocated : ∃ links, map cell = some links) :
    ∃ links, map.modify target change cell = some links := by
  obtain ⟨links, stored⟩ := allocated
  unfold LinkMap.modify
  split
  · exact ⟨change links, by rw [stored, Option.map_some]⟩
  · exact ⟨links, stored⟩

/-- Changing a cell outside a segment keeps the segment. -/
theorem Segment.modify
    (segment : Segment map prev first cells out)
    {target : Option Address}
    (change : Links Address → Links Address)
    (outside : ∀ cell ∈ target, cell ∉ cells) :
    Segment (map.modify target change) prev first cells out := by
  refine segment.congr fun cell member => LinkMap.modify_of_ne change ?_
  rintro rfl
  exact outside cell rfl member

/-- Redirecting the previous link of the first cell. -/
theorem Segment.enter
    (segment : Segment map prev first cells out)
    (distinct : cells.Nodup)
    (other : Option Address) :
    Segment (map.setPrev cells.head? other) other first cells out := by
  cases cells with
  | nil => exact segment
  | cons cell cells =>
      obtain ⟨entered, next, links, rest⟩ := segment
      rw [List.nodup_cons] at distinct
      refine ⟨entered, next, ?_, rest.modify _ (by simp [distinct.1])⟩
      rw [LinkMap.setPrev, List.head?_cons, LinkMap.modify_self, links]
      rfl

/-- Redirecting the next link of the last cell. -/
theorem Segment.leave
    (segment : Segment map prev first cells out)
    (distinct : cells.Nodup)
    (other : Option Address) :
    Segment (map.setNext cells.getLast? other) prev (cells.head?.or other)
      cells other := by
  rcases List.eq_nil_or_concat cells with rfl | ⟨xs, cell, rfl⟩
  · simp [Segment]
  · rw [List.concat_eq_append] at segment distinct ⊢
    have entered := segment.first_eq
    obtain ⟨middle, left, middle_eq, next, links, _⟩ :=
      segment_append.mp segment
    rw [List.getLast?_concat, LinkMap.setNext]
    have outside : cell ∉ xs := by
      rw [List.nodup_append] at distinct
      exact fun member => distinct.2.2 cell member cell (by simp) rfl
    have head : (xs ++ [cell]).head?.or other = first := by
      rw [entered]
      cases xs <;> rfl
    rw [head]
    refine segment_append.mpr ⟨middle, left.modify _ (by simpa using outside),
      middle_eq, other, ?_, rfl⟩
    rw [LinkMap.modify_self, links]
    rfl

/-- Changing a cell outside a chain keeps the chain. -/
theorem Chain.modify
    (chain : Chain map first cells)
    {target : Option Address}
    (change : Links Address → Links Address)
    (outside : ∀ cell ∈ target, cell ∉ cells) :
    Chain (map.modify target change) first cells where
  linked := chain.linked.modify change outside
  distinct := chain.distinct

/-- The updates that insert a cell: with its own links set, the cell behind it is
linked back to it and the cell before it on to it. -/
theorem Chain.insert
    (chain : Chain map first (xs ++ ys))
    {new : Address}
    (fresh : new ∉ xs ++ ys)
    (links : map new = some ⟨xs.getLast?, ys.head?⟩) :
    Chain ((map.setPrev ys.head? (some new)).setNext xs.getLast? (some new))
      (xs.head?.or (some new)) (xs ++ new :: ys) := by
  have distinct := chain.distinct
  rw [List.mem_append, not_or] at fresh
  rw [List.nodup_append] at distinct
  obtain ⟨leftDistinct, rightDistinct, disjoint⟩ := distinct
  obtain ⟨middle, left, right⟩ := segment_append.mp chain.linked
  rw [Option.or_none] at right
  have lastOutside : ∀ cell ∈ xs.getLast?, cell ≠ new ∧ cell ∉ ys := by
    intro cell last
    have member := List.mem_of_getLast? last
    exact ⟨fun same => fresh.1 (same ▸ member),
      fun behind => disjoint cell member cell behind rfl⟩
  have headOutside : ∀ cell ∈ ys.head?, cell ≠ new ∧ cell ∉ xs := by
    intro cell head
    have member := List.mem_of_mem_head? head
    exact ⟨fun same => fresh.2 (same ▸ member),
      fun before => disjoint cell before cell member rfl⟩
  constructor
  · refine segment_append.mpr ⟨some new, ?_, rfl, ys.head?, ?_, ?_⟩
    · exact Segment.leave
        (left.modify _ fun cell head => (headOutside cell head).2)
        leftDistinct (some new)
    · rw [LinkMap.setNext, LinkMap.modify_of_ne, LinkMap.setPrev,
        LinkMap.modify_of_ne, links, Option.or_none]
      · exact fun head => (headOutside new head).1 rfl
      · exact fun last => (lastOutside new last).1 rfl
    · obtain rfl : middle = ys.head? := by
        rw [right.first_eq, Option.or_none]
      exact (right.enter rightDistinct (some new)).modify _
        fun cell last => (lastOutside cell last).2
  · rw [List.nodup_append, List.nodup_cons]
    refine ⟨leftDistinct, ⟨fresh.2, rightDistinct⟩, ?_⟩
    intro left leftMember right rightMember same
    subst same
    rcases List.mem_cons.mp rightMember with rfl | behind
    · exact fresh.1 leftMember
    · exact disjoint left leftMember left behind rfl

/-- The updates that remove a cell: the cell before it is linked on to the
cell behind it, and that one back. -/
theorem Chain.remove
    {old : Address}
    (chain : Chain map first (xs ++ old :: ys)) :
    Chain ((map.setNext xs.getLast? ys.head?).setPrev ys.head? xs.getLast?)
      (xs.head?.or ys.head?) (xs ++ ys) := by
  have distinct := chain.distinct
  rw [List.nodup_append, List.nodup_cons] at distinct
  obtain ⟨leftDistinct, ⟨_, rightDistinct⟩, disjoint⟩ := distinct
  have apart : ∀ left ∈ xs, ∀ right ∈ ys, left ≠ right :=
    fun left leftMember right rightMember =>
      disjoint left leftMember right (List.mem_cons_of_mem old rightMember)
  obtain ⟨middle, left, _, next, _, right⟩ := segment_append.mp chain.linked
  have entered : next = ys.head? := by
    rw [right.first_eq, Option.or_none]
  subst entered
  constructor
  · refine segment_append.mpr ⟨ys.head?, ?_, ?_⟩
    · refine (left.leave leftDistinct ys.head?).modify _ ?_
      exact fun cell head before =>
        apart cell before cell (List.mem_of_mem_head? head) rfl
    · rw [Option.or_none]
      refine Segment.enter (right.modify _ ?_) rightDistinct _
      exact fun cell last behind =>
        apart cell (List.mem_of_getLast? last) cell behind rfl
  · exact List.nodup_append.mpr ⟨leftDistinct, rightDistinct, apart⟩

end Updates

end Foundation
end Hiemal
