import Hiemal.Buffer.Additions
import Mathlib.Logic.Function.Basic

/-!
# Recording sessions

Several buffers are added to one recording, which is started and stopped while they
are in use. The recording has an entry for each addition, and a cell of its array
`buffers`, which has room for ten. Whatever the order of the calls, an entry holds
what was written to its buffer, and nothing of the other buffers: from the addition
to the next one of the same buffer, while the recording is active.
-/

namespace Hiemal

open Foundation

/-- A recording and the buffers of a program, by name. -/
structure RecordingSession where
  recording : Recording
  /-- The array `buffers` of the recording. -/
  members : List ℕ
  buffers : ℕ → Buffer

/-- The recording and one of the buffers, replaced. -/
def RecordingSession.put
    (session : RecordingSession)
    (recording : Recording)
    (n : ℕ)
    (buf : Buffer) : RecordingSession where
  recording := recording
  members := session.members
  buffers := Function.update session.buffers n buf

/-- `hm_recording_buffer_add`; `none` where the buffer is stored behind the array. -/
def RecordingSession.add
    (name : ℕ)
    (session : RecordingSession)
    (n : ℕ) : Option RecordingSession :=
  if session.recording.nBuffer < session.members.length then
    let (recording, buf) :=
      hmRecordingBufferAdd name session.recording (session.buffers n)
    some
      { session.put recording n buf with
        members := store session.members session.recording.nBuffer [n] }
  else none

/-- The recording with its array. -/
def RecordingSession.recordingMembers
    (session : RecordingSession) : RecordingMembers where
  active := session.recording.active
  buflist := session.recording.buflist
  maxBuffer := maxRecordingBuffers
  nBuffer := session.recording.nBuffer
  buffers := session.members

/-- An addition that returns is one to the recording with its array, and stores
inside of it. -/
theorem RecordingSession.add_recordingMembers
    {name : ℕ}
    {session next : RecordingSession}
    {n : ℕ}
    (bounded : session.recording.nBuffer + 1 < 2 ^ 32)
    (added : session.add name n = some next) :
    let call := hmRecordingBufferAddMembers name session.recordingMembers
      ⟨n, session.buffers n⟩
    call.r = next.recordingMembers ∧ call.buf = next.buffers n ∧
      call.store.InBounds := by
  unfold RecordingSession.add at added
  split_ifs at added with room
  cases added
  have whole : (session.recording.nBuffer + 1) % 2 ^ 32 =
      session.recording.nBuffer + 1 :=
    Nat.mod_eq_of_lt bounded
  obtain ⟨_, same⟩ :=
    @hmRecordingBufferAddMembers_recording name session.recordingMembers
      session.recording.counted bounded ⟨n, session.buffers n⟩
  refine ⟨?_, ?_, room⟩
  · simp only [hmRecordingBufferAddMembers, RecordingSession.recordingMembers, whole,
      RecordingSession.put]
  · exact (congrArg Prod.snd same).trans
      (Function.update_self n _ session.buffers).symm

inductive SessionAction
  /-- `hm_recording_start`. -/
  | start
  /-- `hm_recording_stop`. -/
  | stop
  /-- `hm_recording_buffer_add`. -/
  | add (n : ℕ)
  /-- A call on one of the buffers. -/
  | call (n : ℕ) (io : BufferIo)

/-- Execute one call, with the name of the recording. -/
def sessionStep (name : ℕ) (session : RecordingSession) :
    SessionAction → Option (RecordingSession × Option BufferCall)
  | .start =>
      some ({ session with recording := hmRecordingStart session.recording }, none)
  | .stop =>
      some ({ session with recording := hmRecordingStop session.recording }, none)
  | .add n => (session.add name n).map fun next => (next, none)
  | .call n io =>
      (io.call (session.buffers n)).bind fun call =>
        (applyRecords name call.effects session.recording).map fun recording =>
          (session.put recording n call.buf, some call)

/-! ## What is recorded -/

/-- What a call asks a buffer to write. -/
def BufferIo.snapshots : BufferIo → List (List UInt8)
  | .write src nBytes => [src.take nBytes]
  | .read _ _ => []
  | .reset => []

/-- What is written to a buffer until it is added again, while the recording is
active. -/
def takes (n : ℕ) : (active : Bool) → List SessionAction → List (List UInt8)
  | _, [] => []
  | _, .start :: actions => takes n true actions
  | _, .stop :: actions => takes n false actions
  | active, .add m :: actions => if m = n then [] else takes n active actions
  | active, .call m io :: actions =>
      (if m = n ∧ active then io.snapshots else []) ++ takes n active actions

/-- An entry for each addition, with what is written to its buffer from there. -/
def tracks : (active : Bool) → List SessionAction → List (List (List UInt8))
  | _, [] => []
  | _, .start :: actions => tracks true actions
  | _, .stop :: actions => tracks false actions
  | active, .add n :: actions => takes n active actions :: tracks active actions
  | active, .call _ _ :: actions => tracks active actions

/-- The buffers that are added, in order. -/
def additions : List SessionAction → List ℕ
  | [] => []
  | .add n :: actions => n :: additions actions
  | _ :: actions => additions actions

/-! ## Steps -/

section Session

variable {name : ℕ} {session next final : RecordingSession}

/-- The buffer is recorded in the entry. -/
def RecordingSession.Attached
    (name : ℕ)
    (session : RecordingSession)
    (n entry : ℕ) : Prop :=
  (session.buffers n).r = some name ∧ (session.buffers n).rId = entry

instance decidableAttached
    (name : ℕ)
    (session : RecordingSession)
    (n entry : ℕ) :
    Decidable (session.Attached name n entry) :=
  inferInstanceAs (Decidable (_ ∧ _))

/-- No mutex is held, and each attached buffer has an entry to itself. -/
structure SessionHolds (name : ℕ) (session : RecordingSession) : Prop where
  free : ∀ n, (session.buffers n).m.locked = false
  known :
    ∀ n entry, session.Attached name n entry →
      entry < session.recording.buflist.length
  apart :
    ∀ n m entry, session.Attached name n entry → session.Attached name m entry →
      n = m
  room : session.recording.buflist.length ≤ session.members.length

/-- A step that neither adds a buffer nor records anything. -/
structure Keeps (name : ℕ) (session next : RecordingSession) : Prop where
  attached : ∀ n entry, next.Attached name n entry ↔ session.Attached name n entry
  length : next.recording.buflist.length = session.recording.buflist.length
  members : next.members = session.members

theorem SessionHolds.of_keeps
    (holds : SessionHolds name session)
    (keeps : Keeps name session next)
    (free : ∀ n, (next.buffers n).m.locked = false) :
    SessionHolds name next where
  free := free
  known := by
    intro n entry attached
    rw [keeps.length]
    exact holds.known n entry ((keeps.attached n entry).mp attached)
  apart := by
    intro n m entry first second
    exact holds.apart n m entry ((keeps.attached n entry).mp first)
      ((keeps.attached m entry).mp second)
  room := by
    rw [keeps.length, keeps.members]
    exact holds.room

section Put

variable {recording : Recording} {n : ℕ} {buf : Buffer}

@[simp] theorem recording_put :
    (session.put recording n buf).recording = recording := rfl

@[simp] theorem buffers_put_self :
    (session.put recording n buf).buffers n = buf := by
  unfold RecordingSession.put
  exact Function.update_self n buf session.buffers

theorem buffers_put_of_ne {m : ℕ} (other : m ≠ n) :
    (session.put recording n buf).buffers m = session.buffers m := by
  unfold RecordingSession.put
  exact Function.update_of_ne other buf session.buffers

theorem attached_put_of_ne {m entry : ℕ} (other : m ≠ n) :
    (session.put recording n buf).Attached name m entry ↔
      session.Attached name m entry := by
  unfold RecordingSession.Attached
  rw [buffers_put_of_ne other]

theorem attached_put_self {entry : ℕ} :
    (session.put recording n buf).Attached name n entry ↔
      buf.r = some name ∧ buf.rId = entry := by
  unfold RecordingSession.Attached
  rw [buffers_put_self]

theorem free_put
    (holds : SessionHolds name session)
    (free : buf.m.locked = false) :
    ∀ m, ((session.put recording n buf).buffers m).m.locked = false := by
  intro m
  by_cases same : m = n
  · subst same
    rw [buffers_put_self]
    exact free
  · rw [buffers_put_of_ne same]
    exact holds.free m

end Put

/-- An addition to a full array does not return. -/
theorem sessionStep_add_full
    (full : session.members.length ≤ session.recording.buflist.length)
    (n : ℕ) :
    sessionStep name session (.add n) = none := by
  rw [sessionStep, RecordingSession.add, if_neg, Option.map_none]
  rw [session.recording.counted]
  exact Nat.not_lt.mpr full

/-- What an addition leaves behind. -/
structure Adds
    (name : ℕ)
    (session next : RecordingSession)
    (n : ℕ) : Prop where
  active : next.recording.active = session.recording.active
  buflist : next.recording.buflist = session.recording.buflist ++ [[]]
  size : next.members.length = session.members.length
  stored :
    next.members.take next.recording.buflist.length =
      session.members.take session.recording.buflist.length ++ [n]
  own : next.Attached name n session.recording.buflist.length
  others :
    ∀ m entry, m ≠ n →
      (next.Attached name m entry ↔ session.Attached name m entry)

/-- After an addition the buffer has the last entry, and the last cell in use. -/
theorem SessionHolds.add
    (holds : SessionHolds name session)
    (room : session.recording.buflist.length < session.members.length)
    (n : ℕ) :
    ∃ next,
      sessionStep name session (.add n) = some (next, none) ∧
        SessionHolds name next ∧ Adds name session next n := by
  let added := hmRecordingBufferAdd name session.recording (session.buffers n)
  let next : RecordingSession :=
    { session.put added.1 n added.2 with
      members := store session.members session.recording.nBuffer [n] }
  have others (m entry : ℕ) (other : m ≠ n) :
      next.Attached name m entry ↔ session.Attached name m entry :=
    @attached_put_of_ne name session added.1 n added.2 m entry other
  have own (entry : ℕ) :
      next.Attached name n entry ↔ session.recording.buflist.length = entry := by
    exact (@attached_put_self name session added.1 n added.2 entry).trans (by
      rw [← session.recording.counted]
      exact and_iff_right rfl)
  have length :
      next.recording.buflist.length = session.recording.buflist.length + 1 :=
    List.length_append
  have size : next.members.length = session.members.length :=
    length_store ..
  have stepped : sessionStep name session (.add n) = some (next, none) := by
    rw [sessionStep, RecordingSession.add, if_pos, Option.map_some]
    rw [session.recording.counted]
    exact room
  have stored :
      next.members.take next.recording.buflist.length =
        session.members.take session.recording.buflist.length ++ [n] := by
    rw [length, ← session.recording.counted]
    rw [← session.recording.counted] at room
    exact take_store_singleton room n
  refine ⟨next, stepped,
    ⟨@free_put name session added.1 n added.2 holds (holds.free n), ?_, ?_,
      by rw [length, size]; exact room⟩,
    rfl, rfl, size, stored, (own _).mpr rfl, others⟩
  · intro m entry attached
    rw [length]
    by_cases same : m = n
    · subst same
      rw [← (own entry).mp attached]
      exact Nat.lt_succ_self _
    · exact Nat.lt_succ_of_lt
        (holds.known m entry ((others m entry same).mp attached))
  · -- the other buffers have the entries they had, which are not the last one
    have before {m entry : ℕ}
        (other : m ≠ n)
        (attached : next.Attached name m entry) :
        entry ≠ session.recording.buflist.length :=
      Nat.ne_of_lt (holds.known m entry ((others m entry other).mp attached))
    intro m k entry first second
    by_cases firstSame : m = n
    · subst firstSame
      by_contra different
      exact before (Ne.symm different) second ((own entry).mp first).symm
    · by_cases secondSame : k = n
      · subst secondSame
        exact absurd ((own entry).mp second).symm (before firstSame first)
      · exact holds.apart m k entry ((others m entry firstSame).mp first)
          ((others k entry secondSame).mp second)

/-- A write to the recording extends one entry. -/
theorem hmRecordingWrite_extends
    {r : Recording}
    {rId : ℕ}
    (known : rId < r.buflist.length)
    (data : List UInt8) :
    ∃ written rc,
      hmRecordingWrite r rId data = some (written, rc) ∧
        written.active = r.active ∧
        written.buflist.length = r.buflist.length ∧
        ∀ entry,
          written.snapshots entry =
            r.snapshots entry ++
              if entry = rId ∧ r.active = true then [data] else [] := by
  unfold hmRecordingWrite
  by_cases active : r.active = true
  · have inactive : ¬(!r.active) = true := by
      rw [active]
      decide
    rw [if_neg inactive, if_pos known]
    refine ⟨_, _, rfl, rfl, List.length_modify .., ?_⟩
    intro entry
    by_cases same : entry = rId
    · subst same
      rw [if_pos ⟨rfl, active⟩]
      simp [Recording.snapshots, known]
    · rw [if_neg fun both => same both.1, List.append_nil]
      simp [Recording.snapshots, Ne.symm same]
  · have inactive : (!r.active) = true := by
      rw [Bool.not_eq_true _ |>.mp active]
      rfl
    rw [if_pos inactive]
    refine ⟨r, -1, rfl, rfl, rfl, ?_⟩
    intro entry
    rw [if_neg fun both => active both.2, List.append_nil]

/-- What a call records extends the entry of its buffer, if it has one. -/
theorem applyRecords_extends
    {buf : Buffer}
    {r : Recording}
    (known : buf.r = some name → buf.rId < r.buflist.length)
    (io : BufferIo) :
    ∃ written,
      applyRecords name (io.recorded buf) r = some written ∧
        written.active = r.active ∧
        written.buflist.length = r.buflist.length ∧
        ∀ entry,
          written.snapshots entry =
            r.snapshots entry ++
              if (buf.r = some name ∧ buf.rId = entry) ∧ r.active = true then
                io.snapshots
              else [] := by
  have nothing (silent : io.recorded buf = [])
      (none : ∀ entry,
        (if (buf.r = some name ∧ buf.rId = entry) ∧ r.active = true then
          io.snapshots else []) = []) :
      ∃ written,
        applyRecords name (io.recorded buf) r = some written ∧
          written.active = r.active ∧
          written.buflist.length = r.buflist.length ∧
          ∀ entry,
            written.snapshots entry =
              r.snapshots entry ++
                if (buf.r = some name ∧ buf.rId = entry) ∧ r.active = true then
                  io.snapshots
                else [] := by
    rw [silent]
    refine ⟨r, rfl, rfl, rfl, ?_⟩
    intro entry
    rw [none entry, List.append_nil]
  cases io with
  | read dest nBytes => exact nothing rfl fun entry => ite_self []
  | reset => exact nothing rfl fun entry => ite_self []
  | write src nBytes =>
      cases attached : buf.r with
      | none =>
          have silent : recordWrite buf src nBytes = [] := by
            rw [recordWrite, attached]
          rw [attached] at nothing
          apply nothing silent
          intro entry
          rw [if_neg]
          rintro ⟨⟨same, _⟩, _⟩
          cases same
      | some other =>
          have recorded :
              recordWrite buf src nBytes =
                [.record other buf.rId (src.take nBytes)] := by
            rw [recordWrite, attached]
          rw [BufferIo.recorded, recorded, applyRecords]
          by_cases mine : other = name
          · subst mine
            obtain ⟨written, rc, writes, active, length, snapshots⟩ :=
              hmRecordingWrite_extends (known attached) (src.take nBytes)
            rw [if_pos rfl, writes]
            refine ⟨written, rfl, active, length, ?_⟩
            intro entry
            rw [snapshots entry]
            congr 1
            simp only [true_and, BufferIo.snapshots, @eq_comm _ entry]
          · rw [if_neg mine]
            refine ⟨r, rfl, rfl, rfl, ?_⟩
            intro entry
            rw [if_neg, List.append_nil]
            rintro ⟨⟨same, _⟩, _⟩
            exact mine (Option.some_inj.mp same)

/-- A call on a buffer extends the entry of the buffer, and no other. -/
theorem SessionHolds.call
    (holds : SessionHolds name session)
    (n : ℕ)
    (io : BufferIo) :
    ∃ next call,
      sessionStep name session (.call n io) = some (next, some call) ∧
        SessionHolds name next ∧
        Keeps name session next ∧
        next.recording.active = session.recording.active ∧
        ∀ entry,
          next.recording.snapshots entry =
            session.recording.snapshots entry ++
              if session.Attached name n entry ∧ session.recording.active = true then
                io.snapshots
              else [] := by
  obtain ⟨call, returns, releases⟩ := io.call_releases (holds.free n)
  have setup := BufferIo.call_setup returns
  have known (attached : (session.buffers n).r = some name) :
      (session.buffers n).rId < session.recording.buflist.length :=
    holds.known n _ ⟨attached, rfl⟩
  obtain ⟨written, writes, active, length, snapshots⟩ :=
    applyRecords_extends known io
  have attached (m entry : ℕ) :
      (session.put written n call.buf).Attached name m entry ↔
        session.Attached name m entry := by
    by_cases same : m = n
    · subst same
      have recording := congrArg BufferSetup.r setup
      have number := congrArg BufferSetup.rId setup
      rw [attached_put_self]
      exact and_congr (iff_of_eq (congrArg (· = some name) recording))
        (iff_of_eq (congrArg (· = entry) number))
    · exact attached_put_of_ne same
  have keeps : Keeps name session (session.put written n call.buf) :=
    { attached := attached
      length := length
      members := rfl }
  refine ⟨session.put written n call.buf, call, ?_,
    holds.of_keeps keeps (free_put holds releases.locksOnce.free), keeps, active,
    snapshots⟩
  rw [sessionStep, returns, Option.bind_some, BufferIo.applyRecords_eq returns,
    writes, Option.map_some]

end Session

/-! ## Runs -/

section Runs

variable {name : ℕ}

/-- What a run has recorded: the entries of the attached buffers are extended by what
is written to them, the others are as they were, and there is one more for each
addition. -/
structure SessionRecords
    (name : ℕ)
    (session final : RecordingSession)
    (actions : List SessionAction) : Prop where
  grows : session.recording.buflist.length ≤ final.recording.buflist.length
  attached :
    ∀ n entry, session.Attached name n entry →
      final.recording.snapshots entry =
        session.recording.snapshots entry ++
          takes n session.recording.active actions
  detached :
    ∀ entry, entry < session.recording.buflist.length →
      (∀ n, ¬session.Attached name n entry) →
        final.recording.snapshots entry = session.recording.snapshots entry
  added :
    final.recording.buflist.drop session.recording.buflist.length =
      tracks session.recording.active actions
  stored :
    final.members.take final.recording.buflist.length =
      session.members.take session.recording.buflist.length ++ additions actions

section Steps

variable {session next final : RecordingSession} {actions : List SessionAction}
variable {n : ℕ}

/-- A new entry holds nothing. -/
theorem snapshots_of_append
    {r other : Recording}
    (buflist : other.buflist = r.buflist ++ [[]])
    (entry : ℕ) :
    other.snapshots entry = r.snapshots entry := by
  unfold Recording.snapshots
  rw [buflist, List.getElem?_append]
  split
  · rfl
  · rename_i outside
    rw [List.getElem?_eq_none (Nat.le_of_not_lt outside), Option.getD_none]
    cases entry - r.buflist.length <;> rfl

/-- What is recorded from an addition on: the buffer leaves its old entry, and what is
written to it goes to the new one. -/
theorem SessionRecords.of_add
    (records : SessionRecords name next final actions)
    (holds : SessionHolds name session)
    (adds : Adds name session next n) :
    SessionRecords name session final (.add n :: actions) := by
  obtain ⟨active, buflist, _, stored, own, others⟩ := adds
  have length :
      next.recording.buflist.length = session.recording.buflist.length + 1 := by
    rw [buflist, List.length_append, List.length_singleton]
  have same := snapshots_of_append buflist
  have grows := records.grows
  -- an entry that no other buffer has is not extended any more
  have left (entry : ℕ)
      (known : entry < session.recording.buflist.length)
      (none : ∀ m, m ≠ n → ¬session.Attached name m entry) :
      final.recording.snapshots entry = session.recording.snapshots entry := by
    rw [records.detached entry (by omega), same]
    intro m attached
    by_cases mine : m = n
    · subst mine
      have last : entry = session.recording.buflist.length :=
        attached.2.symm.trans own.2
      omega
    · exact none m mine ((others m entry mine).mp attached)
  refine ⟨by omega, ?_, ?_, ?_, ?_⟩
  · intro m entry attached
    by_cases mine : m = n
    · subst mine
      rw [takes, if_pos rfl, List.append_nil]
      apply left entry (holds.known m entry attached)
      intro k different other
      exact different (holds.apart k m entry other attached)
    · rw [takes, if_neg (Ne.symm mine), ← active, ← same]
      exact records.attached m entry ((others m entry mine).mpr attached)
  · intro entry known none
    exact left entry known fun m _ => none m
  · have inside :
        session.recording.buflist.length < final.recording.buflist.length := by
      omega
    have entry :
        final.recording.buflist[session.recording.buflist.length] =
          takes n session.recording.active actions := by
      have extended := records.attached n _ own
      have new :
          session.recording.snapshots session.recording.buflist.length = [] := by
        rw [Recording.snapshots, List.getElem?_eq_none le_rfl, Option.getD_none]
      rw [same, new, List.nil_append, active, Recording.snapshots,
        List.getElem?_eq_getElem inside, Option.getD_some] at extended
      exact extended
    rw [List.drop_eq_getElem_cons inside, entry, ← length, records.added, active,
      tracks]
  · rw [records.stored, stored, List.append_assoc, List.singleton_append, additions]

/-- What is recorded from a call on. -/
theorem SessionRecords.of_call
    {io : BufferIo}
    (records : SessionRecords name next final actions)
    (holds : SessionHolds name session)
    (keeps : Keeps name session next)
    (active : next.recording.active = session.recording.active)
    (snapshots :
      ∀ entry,
        next.recording.snapshots entry =
          session.recording.snapshots entry ++
            if session.Attached name n entry ∧ session.recording.active = true then
              io.snapshots
            else []) :
    SessionRecords name session final (.call n io :: actions) := by
  refine ⟨?_, ?_, ?_, ?_, ?_⟩
  · rw [← keeps.length]
    exact records.grows
  · intro m entry attached
    have mine : session.Attached name n entry ↔ n = m := by
      constructor
      · intro other
        exact holds.apart n m entry other attached
      · rintro rfl
        exact attached
    rw [records.attached m entry ((keeps.attached m entry).mpr attached),
      snapshots, active, List.append_assoc, takes]
    simp only [mine]
  · intro entry known none
    rw [records.detached entry (by rw [keeps.length]; exact known), snapshots,
      if_neg fun both => none n both.1, List.append_nil]
    intro m attached
    exact none m ((keeps.attached m entry).mp attached)
  · rw [← keeps.length, records.added, active, tracks]
  · rw [records.stored, keeps.members, keeps.length, additions]
    intro m same
    cases same

end Steps

/-- Run lemma: with room for all additions, the run returns. -/
theorem runSteps_sessionRecords
    {session : RecordingSession}
    (holds : SessionHolds name session)
    (actions : List SessionAction)
    (room :
      session.recording.buflist.length + (additions actions).length ≤
        session.members.length) :
    ∃ final outputs,
      runSteps (sessionStep name) session actions = some (final, outputs) ∧
        SessionRecords name session final actions := by
  induction actions generalizing session with
  | nil =>
      refine ⟨session, [], rfl, le_rfl, ?_, fun _ _ _ => rfl, List.drop_length,
        (List.append_nil _).symm⟩
      intro n entry _
      rw [takes, List.append_nil]
  | cons action actions ih =>
      cases action with
      | start =>
          obtain ⟨final, outputs, ran, records⟩ :=
            @ih { session with recording := hmRecordingStart session.recording }
              ⟨holds.free, holds.known, holds.apart, holds.room⟩ room
          exact ⟨final, none :: outputs,
            runSteps_cons_eq_some.mpr ⟨_, _, _, rfl, ran, rfl⟩,
            records.grows, records.attached, records.detached, records.added,
            records.stored⟩
      | stop =>
          obtain ⟨final, outputs, ran, records⟩ :=
            @ih { session with recording := hmRecordingStop session.recording }
              ⟨holds.free, holds.known, holds.apart, holds.room⟩ room
          exact ⟨final, none :: outputs,
            runSteps_cons_eq_some.mpr ⟨_, _, _, rfl, ran, rfl⟩,
            records.grows, records.attached, records.detached, records.added,
            records.stored⟩
      | add n =>
          rw [additions, List.length_cons] at room
          obtain ⟨next, stepped, nextHolds, adds⟩ := holds.add (by omega) n
          obtain ⟨final, outputs, ran, records⟩ := ih nextHolds (by
            rw [adds.buflist, adds.size, List.length_append, List.length_singleton]
            omega)
          exact ⟨final, none :: outputs,
            runSteps_cons_eq_some.mpr ⟨_, _, _, stepped, ran, rfl⟩,
            records.of_add holds adds⟩
      | call n io =>
          obtain ⟨next, call, stepped, nextHolds, keeps, active, snapshots⟩ :=
            holds.call n io
          obtain ⟨final, outputs, ran, records⟩ := ih nextHolds (by
            rw [keeps.length, keeps.members]
            exact room)
          exact ⟨final, some call :: outputs,
            runSteps_cons_eq_some.mpr ⟨_, _, _, stepped, ran, rfl⟩,
            records.of_call holds keeps active snapshots⟩

/-- Without room for all additions, the run does not return. -/
theorem runSteps_sessionStep_full
    {session : RecordingSession}
    (holds : SessionHolds name session)
    (actions : List SessionAction)
    (full :
      session.members.length <
        session.recording.buflist.length + (additions actions).length) :
    runSteps (sessionStep name) session actions = none := by
  induction actions generalizing session with
  | nil =>
      have room := holds.room
      rw [additions, List.length_nil] at full
      omega
  | cons action actions ih =>
      rw [runSteps, Option.bind_eq_bind, Option.bind_eq_none_iff]
      rintro ⟨next, output⟩ stepped
      suffices blocked : runSteps (sessionStep name) next actions = none by
        simp only [blocked, Option.bind_eq_bind, Option.bind_none]
      cases action with
      | start =>
          cases stepped
          exact @ih { session with recording := hmRecordingStart session.recording }
            ⟨holds.free, holds.known, holds.apart, holds.room⟩ full
      | stop =>
          cases stepped
          exact @ih { session with recording := hmRecordingStop session.recording }
            ⟨holds.free, holds.known, holds.apart, holds.room⟩ full
      | add n =>
          rw [additions, List.length_cons] at full
          by_cases room :
              session.recording.buflist.length < session.members.length
          · obtain ⟨added, returns, nextHolds, adds⟩ := holds.add room n
            cases stepped.symm.trans returns
            apply ih nextHolds
            rw [adds.buflist, adds.size, List.length_append, List.length_singleton]
            omega
          · rw [sessionStep_add_full (Nat.le_of_not_lt room)] at stepped
            cases stepped
      | call n io =>
          obtain ⟨called, call, returns, nextHolds, keeps, _⟩ := holds.call n io
          cases stepped.symm.trans returns
          apply ih nextHolds
          rw [keeps.length, keeps.members]
          exact full

/-- **Every buffer has its own track.** Every run of a new recording, with any number
of buffers, returns exactly if there are at most as many additions as the array has
cells. The array then holds the added buffers in order, and the recording has an
entry for each addition, which holds exactly what its buffer was asked to write while
the recording was active, until the buffer was added again. -/
theorem recordingSession_tracks
    (members : List ℕ)
    (size : members.length = maxRecordingBuffers)
    (buffers : ℕ → Buffer)
    (free : ∀ n, (buffers n).m.locked = false)
    (unrecorded : ∀ n, (buffers n).r ≠ some name)
    (actions : List SessionAction) :
    (∃ final outputs,
      runSteps (sessionStep name)
          { recording := hmRecordingInit, members := members, buffers := buffers }
          actions =
        some (final, outputs) ∧
      final.recording.buflist = tracks true actions ∧
      final.members.take final.recording.nBuffer = additions actions) ↔
      (additions actions).length ≤ maxRecordingBuffers := by
  have holds :
      SessionHolds name
        { recording := hmRecordingInit, members := members, buffers := buffers } := by
    refine ⟨free, ?_, ?_, Nat.zero_le _⟩
    · intro n entry attached
      exact absurd attached.1 (unrecorded n)
    · intro n m entry attached
      exact absurd attached.1 (unrecorded n)
  have nothing : hmRecordingInit.buflist.length = 0 := rfl
  rw [← size]
  constructor
  · rintro ⟨final, outputs, ran, _⟩
    by_contra many
    rw [runSteps_sessionStep_full holds actions (by
      show members.length < hmRecordingInit.buflist.length + _
      omega)] at ran
    cases ran
  · intro few
    obtain ⟨final, outputs, ran, records⟩ :=
      runSteps_sessionRecords holds actions (by
        show hmRecordingInit.buflist.length + _ ≤ members.length
        omega)
    refine ⟨final, outputs, ran, records.added, ?_⟩
    rw [final.recording.counted]
    exact records.stored

/-- Two buffers, one of them added twice. -/
theorem recordingSession_tracks_twice :
    ∃ final outputs,
      runSteps (sessionStep 0)
          { recording := hmRecordingInit
            members := List.replicate 10 0
            buffers := fun _ => bufferInit 2 .ring }
          [.add 1, .add 2, .call 1 (.write [5] 1), .stop, .call 2 (.write [6] 1),
            .start, .add 1, .call 1 (.write [7, 8] 2), .call 2 (.write [9] 1)] =
        some (final, outputs) ∧
      final.recording.buflist = [[[5]], [[9]], [[7, 8]]] ∧
      final.members.take final.recording.nBuffer = [1, 2, 1] :=
  (recordingSession_tracks (List.replicate 10 0) rfl (fun _ => bufferInit 2 .ring)
    (fun _ => rfl) (fun _ => by simp [bufferInit, bufferInitExt]) _).mpr (by decide)

end Runs

end Hiemal
