import Hiemal.Generator.Defs
import Mathlib.Data.List.Nodup

/-!
# The table of op names

The table is laid out in the order in which the description lists the op types, and
its parts are looked up as if that order were source, sink, dsp. This module says
when each part is found.
-/

namespace Hiemal

open Foundation

variable (ops : OpsDescription)

def opNames (ops : List OpDescription) : List String :=
  ops.map OpDescription.name

/-- The lists of names in the order of the file. -/
def listedNames : List (List String) :=
  ops.items.map fun item => opNames item.2

/-- The lists of names in the order of the op types. -/
def typedNames : List (List String) :=
  [opNames (ops.get .source), opNames (ops.get .sink), opNames (ops.get .dsp)]

/-- Each list, read up to the first `NULL` of the table, has the names of its op
type. -/
structure Partitioned : Prop where
  source : readSegment (hmSourceList ops) = some (opNames (ops.get .source))
  sink : readSegment (hmSinkList ops) = some (opNames (ops.get .sink))
  dsp : readSegment (hmDspList ops) = some (opNames (ops.get .dsp))

/-! ## The layout -/

theorem get_of_mem
    {ops : OpsDescription}
    {item : OpType × List OpDescription}
    (member : item ∈ ops.items) :
    ops.get item.1 = item.2 := by
  have distinct : (ops.items.map Prod.fst).Nodup :=
    ops.keys.nodup_iff.mpr (by decide)
  unfold OpsDescription.get
  cases found : ops.items.find? fun other => other.1 = item.1 with
  | none =>
      have missing := List.find?_eq_none.mp found item member
      simp at missing
  | some other =>
      have key : other.1 = item.1 := by simpa using List.find?_some found
      have same := List.inj_on_of_nodup_map distinct
        (List.mem_of_find?_eq_some found) member key
      exact congrArg Prod.snd same

/-- The file has the same lists as the op types, in some order. -/
theorem listedNames_perm : (listedNames ops).Perm (typedNames ops) := by
  have listed : listedNames ops =
      (ops.items.map Prod.fst).map fun key => opNames (ops.get key) := by
    rw [listedNames, List.map_map]
    apply List.map_congr_left
    intro item member
    exact congrArg opNames (get_of_mem member).symm
  rw [listed]
  exact ops.keys.map fun key => opNames (ops.get key)

/-- The table is declared as large as its initializers are. -/
theorem opsListSize_eq :
    opsListSize ops = (terminated (listedNames ops)).length := by
  have perm := (listedNames_perm ops).map fun names => names.length + 1
  rw [length_terminated, segmentStart, List.take_length, perm.sum_eq]
  simp only [typedNames, opNames, List.map_cons, List.map_nil, List.length_map,
    List.sum_cons, List.sum_nil, opsListSize]
  omega

theorem opsList_eq : opsList ops = terminated (listedNames ops) := by
  have initializers :
      (ops.items.flatMap fun item => item.2.map (fun op => some op.name) ++ [none]) =
        terminated (listedNames ops) := by
    rw [terminated, listedNames, List.flatMap_map]
    apply List.flatMap_congr
    intro item _
    rw [opNames, List.map_map]
    rfl
  rw [opsList, initializers, initializedArray, opsListSize_eq, Nat.sub_self,
    List.replicate_zero, List.append_nil, List.take_length]

theorem exists_listedNames :
    ∃ first second third, listedNames ops = [first, second, third] := by
  have count := (listedNames_perm ops).length_eq
  match listed : listedNames ops, count with
  | [first, second, third], _ => exact ⟨first, second, third, rfl⟩

/-- The list after some others starts behind their names and terminators. -/
theorem readSegment_opsList
    {ops : OpsDescription}
    {before after : List (List String)}
    {names : List String}
    {start : Nat}
    (listed : listedNames ops = before ++ names :: after)
    (starts : start = segmentStart (before ++ names :: after) before.length) :
    readSegment ((opsList ops).drop start) = some names := by
  have inside : before.length < (before ++ names :: after).length := by
    rw [List.length_append, List.length_cons]
    omega
  rw [opsList_eq, listed, starts, readSegment_terminated inside]
  simp

/-- The parts of the table are found exactly if the lists of names are in the order
source, sink, dsp: in the file, or because lists that are out of order have the same
names. -/
theorem partitioned_iff :
    Partitioned ops ↔ listedNames ops = typedNames ops := by
  constructor
  · rintro ⟨source, sink, dsp⟩
    obtain ⟨first, second, third, listed⟩ := exists_listedNames ops
    have readsFirst := @readSegment_opsList ops [] [second, third] first 0 listed rfl
    have isSource : first = opNames (ops.get .source) :=
      Option.some.inj (readsFirst.symm.trans source)
    have sinkStart : sinkListStart ops = first.length + 1 := by
      rw [isSource, opNames, List.length_map]
      rfl
    have readsSecond := @readSegment_opsList ops [first] [third] second
      (sinkListStart ops) listed sinkStart
    have isSink : second = opNames (ops.get .sink) :=
      Option.some.inj (readsSecond.symm.trans sink)
    have dspStart : dspListStart ops = first.length + 1 + (second.length + 1) := by
      rw [isSource, isSink, opNames, opNames, List.length_map, List.length_map,
        dspListStart]
      omega
    have readsThird := @readSegment_opsList ops [first, second] [] third
      (dspListStart ops) listed dspStart
    have isDsp : third = opNames (ops.get .dsp) :=
      Option.some.inj (readsThird.symm.trans dsp)
    rw [listed, typedNames, isSource, isSink, isDsp]
  · intro listed
    refine ⟨?_, ?_, ?_⟩
    · exact @readSegment_opsList ops [] [_, _] _ 0 listed rfl
    · apply @readSegment_opsList ops [_] [_] _ (sinkListStart ops) listed
      change _ = (opNames (ops.get .source)).length + 1
      rw [opNames, List.length_map]
      rfl
    · apply @readSegment_opsList ops [_, _] [] _ (dspListStart ops) listed
      change _ = (opNames (ops.get .source)).length + 1 +
        ((opNames (ops.get .sink)).length + 1)
      rw [opNames, opNames, List.length_map, List.length_map, dspListStart]
      omega

/-- A description that lists the sinks first. -/
def sinksFirst : OpsDescription where
  items :=
    [ (.sink, [⟨"file", [], []⟩]),
      (.source, [⟨"io_device", [], []⟩]),
      (.dsp, []) ]
  keys := by decide

/-- The sink is found as a source. -/
theorem not_partitioned_sinksFirst : ¬Partitioned sinksFirst := by
  intro partitioned
  exact absurd partitioned.source (by decide)

/-- Whatever the order, no part runs past the end of the table. -/
theorem exists_readSegment_drop
    {start : Nat}
    (inside : start < opsListSize ops) :
    ∃ names, readSegment ((opsList ops).drop start) = some names := by
  apply exists_readSegment
  rw [opsList_eq]
  apply none_mem_drop_terminated
  rw [← opsListSize_eq]
  exact inside

/-- Each of the three parts starts within the table. -/
theorem listStart_lt :
    sinkListStart ops < opsListSize ops ∧ dspListStart ops < opsListSize ops := by
  unfold sinkListStart dspListStart opsListSize
  omega

end Hiemal
