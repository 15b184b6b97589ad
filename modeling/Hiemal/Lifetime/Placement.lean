import Hiemal.Lifetime.Functions

/-!
# Objects on the heap

The objects of a program are placed on its heap: each at its home, with its own blocks,
and the variables of the program lead there. A function of one object leaves the others
in their place, and an init function adds one.
-/

namespace Hiemal

open Foundation ObjectHeap LifetimeObjects

/-- The objects of a program are at their homes, each with its blocks, and all blocks
are theirs. A variable holds the home of its object, unless it was cleared when the
object was deleted. -/
structure Placed
    (m : Lifetimes)
    (objects : LifetimeObjects)
    (home : Nat → Nat)
    (cells : Nat → List Nat) : Prop where
  owned : m.heap.Owned cells
  only : ∀ name, objects.length ≤ name → cells name = []
  count : m.pointers.length = objects.length
  objectAt : ∀ (name : Nat) (object : LifetimeObject), objects[name]? = some object →
    ObjectAt m.heap home (home name) (cells name) object
  pointer : ∀ (name : Nat) (object : LifetimeObject), objects[name]? = some object →
    m.pointers[name]? = some (some (home name)) ∨
      m.pointers[name]? = some none ∧ ∃ lost, object = .gone lost

section Placed

variable {m : Lifetimes} {objects : LifetimeObjects} {home : Nat → Nat}
variable {cells : Nat → List Nat} {name : Nat} {object new : LifetimeObject}

theorem placed_start : Placed Lifetimes.start [] (fun _ => 0) fun _ => [] where
  owned := Heap.owned_empty
  only := fun _ _ => rfl
  count := rfl
  objectAt := fun name object found => by simp at found
  pointer := fun name object found => by simp at found

/-- A home has been handed out. -/
theorem Placed.home_lt
    (placed : Placed m objects home cells)
    (found : objects[name]? = some object) :
    home name < m.heap.next := by
  have at' := placed.objectAt name object found
  have holds := placed.owned.holds name
  cases object with
  | buffer state =>
      obtain ⟨handle, fdNodes, eventNodes, at'⟩ := at'
      exact holds.below (at'.listed.mem_iff.mpr (by simp))
  | event objType pending =>
      obtain ⟨bufPipe, _, _, listed⟩ := at'
      exact holds.below (listed.mem_iff.mpr List.mem_cons_self)
  | recording active members =>
      obtain ⟨handle, items, at'⟩ := at'
      exact holds.below (at'.listed.mem_iff.mpr List.mem_cons_self)
  | gone lost => exact at'.2.2

/-- A released home stays released in an operation of an owner. -/
theorem released_stays
    {heap after : ObjectHeap}
    {used left : List Nat}
    (holds : heap.Holds used)
    (turns : heap.Turns after used left)
    {place : Nat}
    (released : heap.block place = none)
    (below : place < heap.next) :
    after.block place = none ∧ place < after.next := by
  refine ⟨?_, Nat.lt_of_lt_of_le below turns.next_le⟩
  rw [turns.outside place below ?_, released]
  intro member
  have allocated := holds.allocated place member
  rw [released] at allocated
  exact Bool.noConfusion allocated

/-- **A function of one object** changes nothing for the others. -/
theorem Placed.replace
    (placed : Placed m objects home cells)
    (found : objects[name]? = some object)
    (pointed : m.pointers[name]? = some (some (home name)))
    {after : ObjectHeap}
    {left : List Nat}
    (turns : m.heap.Turns after (cells name) left)
    (at' : ObjectAt after home (home name) left new) :
    Placed (m.withHeap after) (objects.set name new) home
      (Function.update cells name left) where
  owned := placed.owned.turns turns
  only := by
    intro other behind
    rw [List.length_set] at behind
    have inside := (List.getElem?_eq_some_iff.mp found).1
    rw [Function.update_of_ne (by omega)]
    exact placed.only other behind
  count := by
    rw [List.length_set]
    exact placed.count
  objectAt := by
    intro other there known
    by_cases same : other = name
    · subst same
      rw [List.getElem?_set_self (List.getElem?_eq_some_iff.mp found).1] at known
      cases known
      rw [Function.update_self]
      exact at'
    · rw [List.getElem?_set_ne (Ne.symm same)] at known
      rw [Function.update_of_ne same]
      refine (placed.objectAt other there known).congr ?_ ?_ fun _ _ => rfl
      · intro place member
        exact placed.owned.block_other turns same member
      · exact released_stays (placed.owned.holds name) turns
  pointer := by
    intro other there known
    by_cases same : other = name
    · subst same
      exact Or.inl pointed
    · rw [List.getElem?_set_ne (Ne.symm same)] at known
      exact placed.pointer other there known

/-- A function that leaves the object as it was. -/
theorem Placed.keep
    (placed : Placed m objects home cells)
    (found : objects[name]? = some object)
    (pointed : m.pointers[name]? = some (some (home name)))
    {after : ObjectHeap}
    (turns : m.heap.Turns after (cells name) (cells name))
    (at' : ObjectAt after home (home name) (cells name) object) :
    Placed (m.withHeap after) objects home cells := by
  have replaced := placed.replace found pointed turns at'
  obtain ⟨inside, value⟩ := List.getElem?_eq_some_iff.mp found
  rw [← value, List.set_getElem_self inside, Function.update_eq_self] at replaced
  exact replaced

/-- A variable of a deleted object can be cleared. -/
theorem Placed.clear
    (placed : Placed m objects home cells)
    {lost : Nat}
    (found : objects[name]? = some (.gone lost)) :
    Placed (m.cleared name m.heap) objects home cells where
  owned := placed.owned
  only := placed.only
  count := by
    rw [← placed.count]
    exact List.length_set
  objectAt := placed.objectAt
  pointer := by
    intro other there known
    by_cases same : other = name
    · subst same
      rw [found] at known
      cases known
      refine Or.inr ⟨?_, lost, rfl⟩
      apply List.getElem?_set_self
      rw [placed.count]
      exact (List.getElem?_eq_some_iff.mp found).1
    · have kept : (m.cleared name m.heap).pointers[other]? = m.pointers[other]? :=
        List.getElem?_set_ne (Ne.symm same)
      rw [kept]
      exact placed.pointer other there known

/-- **A new object.** -/
theorem Placed.declare
    (placed : Placed m objects home cells)
    (well : WellReferred objects)
    {after : ObjectHeap}
    {base : Nat}
    {left : List Nat}
    (turns : m.heap.Turns after [] left)
    (at' : ObjectAt after home base left new)
    (closed : new.references = []) :
    Placed (m.declare (after, base)) (objects ++ [new])
      (Function.update home objects.length base)
      (Function.update cells objects.length left) where
  owned := by
    apply placed.owned.turns
    rw [placed.only objects.length (Nat.le_refl _)]
    exact turns
  only := by
    intro other behind
    rw [List.length_append, List.length_singleton] at behind
    rw [Function.update_of_ne (by omega)]
    exact placed.only other (by omega)
  count := by
    show (m.pointers ++ [some base]).length = (objects ++ [new]).length
    rw [List.length_append, List.length_append, placed.count]
    rfl
  objectAt := by
    intro other there known
    rcases Nat.lt_or_ge other objects.length with before | behind
    · rw [List.getElem?_append_left before] at known
      rw [Function.update_of_ne (Nat.ne_of_lt before),
        Function.update_of_ne (Nat.ne_of_lt before)]
      have own : m.heap.Turns after (cells objects.length) left := by
        rw [placed.only objects.length (Nat.le_refl _)]
        exact turns
      refine (placed.objectAt other there known).congr ?_ ?_ ?_
      · intro place member
        exact placed.owned.block_other own (Nat.ne_of_lt before) member
      · exact released_stays (placed.owned.holds objects.length) own
      · intro reference refers
        have bounded := well.bounded other there known reference refers
        exact Function.update_of_ne (Nat.ne_of_lt bounded) _ _
    · have inside := (List.getElem?_eq_some_iff.mp known).1
      rw [List.length_append, List.length_singleton] at inside
      obtain rfl : other = objects.length := by omega
      rw [List.getElem?_concat_length] at known
      cases known
      rw [Function.update_self, Function.update_self]
      refine at'.congr (fun _ _ => rfl) (fun released below => ⟨released, below⟩) ?_
      intro other refers
      rw [closed] at refers
      exact absurd refers List.not_mem_nil
  pointer := by
    intro other there known
    have split : (m.declare (after, base)).pointers = m.pointers ++ [some base] := rfl
    rw [split]
    rcases Nat.lt_or_ge other objects.length with before | behind
    · rw [List.getElem?_append_left before] at known
      rw [List.getElem?_append_left (by rw [placed.count]; exact before),
        Function.update_of_ne (Nat.ne_of_lt before)]
      exact placed.pointer other there known
    · have inside := (List.getElem?_eq_some_iff.mp known).1
      rw [List.length_append, List.length_singleton] at inside
      obtain rfl : other = objects.length := by omega
      rw [Function.update_self, ← placed.count, List.getElem?_concat_length]
      exact Or.inl rfl

/-! ## Pointers -/

theorem Placed.pointed
    (placed : Placed m objects home cells)
    (found : objects[name]? = some object)
    (exists' : ∀ lost, object ≠ .gone lost) :
    m.pointers[name]? = some (some (home name)) := by
  rcases placed.pointer name object found with pointed | ⟨_, lost, gone⟩
  · exact pointed
  · exact absurd gone (exists' lost)

/-- A pointer in a variable leads to the home of the object. -/
theorem Placed.pointer_eq
    (placed : Placed m objects home cells)
    {address : Nat}
    (pointed : m.pointer name = some address) :
    address = home name ∧ ∃ object, objects[name]? = some object := by
  have known : m.pointers[name]? = some (some address) :=
    Option.join_eq_some_iff.mp pointed
  have inside := (List.getElem?_eq_some_iff.mp known).1
  rw [placed.count] at inside
  obtain ⟨object, found⟩ : ∃ object, objects[name]? = some object :=
    ⟨_, List.getElem?_eq_getElem inside⟩
  rcases placed.pointer name object found with other | ⟨other, _⟩
  · rw [known] at other
    cases other
    exact ⟨rfl, object, found⟩
  · rw [known] at other
    cases other

theorem Placed.pointer_live
    (placed : Placed m objects home cells)
    (found : objects[name]? = some object)
    (exists' : ∀ lost, object ≠ .gone lost) :
    m.pointer name = some (home name) := by
  rw [Lifetimes.pointer, placed.pointed found exists']
  rfl

end Placed

end Hiemal
