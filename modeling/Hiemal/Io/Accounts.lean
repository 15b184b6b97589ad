import Hiemal.Buffer.Room
import Hiemal.Io.RoundTrip

/-!
# The accounts of the descriptor source

`src_fd_impl` reduces its request to what is left of the file before it reads, and
moves that number of bytes whatever the buffer has room for. What is left is
computed from a size and an offset narrowed to an `int`, and compared as
`unsigned int`, so it is known up to a multiple of `2 ^ 32` only.
-/

namespace Hiemal

open Foundation

section Accounts

variable {capacity room : Nat} {buf : Buffer} {items : List UInt8}

/-- The number of bytes a call has to move. -/
def bytesToMove (nBytes : Nat) (fd : OpenFile) (room : Nat) : Nat :=
  min nBytes (min (fd.content.length - fd.offset) room)

/-- A call consumes as many bytes of the descriptor as it appends and returns, and
these are the next bytes of the file. -/
structure KeepsAccounts
    (capacity : Nat)
    (items : List UInt8)
    (nBytes : Nat)
    (fd : OpenFile)
    (room : Nat)
    (call : FdCall) : Prop where
  consumed :
    call.fd = { fd with offset := fd.offset + bytesToMove nBytes fd room }
  appended :
    BufferHolds capacity call.buf
      (items ++ load fd.content fd.offset (bytesToMove nBytes fd room))
  returned : call.rc = bytesToMove nBytes fd room

/-- What is left of a file behind the offset, modulo `2 ^ 32`. Past its end this is
not zero but wraps around. -/
def narrowedRest (fd : OpenFile) : Nat :=
  toUnsigned 32 ((fd.content.length : Int) - fd.offset)

/-- The number of bytes to move is an `int`, and narrowing does not change it: the
request is at most what is left as narrowed, or it exceeds what is left, and
narrowing keeps that, or it exceeds the room, and narrowing happens to end at
that. -/
def SurvivesNarrowing (nBytes : Nat) (fd : OpenFile) (room : Nat) : Prop :=
  let rest := fd.content.length - fd.offset
  bytesToMove nBytes fd room < 2 ^ 31 ∧
    (nBytes ≤ rest ∧ nBytes ≤ room ∧ nBytes ≤ narrowedRest fd ∨
      rest < nBytes ∧ rest ≤ room ∧ narrowedRest fd = rest ∨
      room < nBytes ∧ room < rest ∧ narrowedRest fd = room)

instance decidableSurvivesNarrowing (nBytes : Nat) (fd : OpenFile) (room : Nat) :
    Decidable (SurvivesNarrowing nBytes fd room) :=
  inferInstanceAs (Decidable (_ ∧ _))

/-- The clamp is a minimum with what is left as narrowed. -/
theorem clampRequest_fdBytesAvailable (nBytes : Nat) (fd : OpenFile) :
    clampRequest nBytes (fdBytesAvailable fd) =
      min nBytes (narrowedRest fd) := by
  have narrowed :
      toUnsigned 32 (fdBytesAvailable fd) = narrowedRest fd := by
    rw [fdBytesAvailable, toUnsigned_toSigned_eq, toUnsigned_toSigned_sub,
      narrowedRest]
  rw [clampRequest, narrowed]
  split_ifs <;> omega

/-- The source asks for the clamped request and writes a block of that many bytes,
of which those beyond the end of the file are the cells `malloc` left. -/
theorem srcFdImpl_moves
    (offers : BufferOffers capacity buf items room)
    (capacityBound : capacity < 2 ^ 32)
    (free : buf.m.locked = false)
    {nBytes asked : Nat}
    {fd advanced : OpenFile}
    {data : List UInt8}
    (clamped : min nBytes (narrowedRest fd) = asked)
    (read : fd.read asked = (advanced, data))
    (fresh : Nat → UInt8) :
    ∃ call,
      srcFdImpl nBytes fd buf fresh = some call ∧
        call.fd = advanced ∧
          call.rc = toSigned 32 asked ∧
            BufferHolds capacity call.buf
              (items ++
                (store (resize [] asked fresh) 0 data).take
                  (min asked room)) := by
  have tmpLength : (store (resize [] asked fresh) 0 data).length = asked := by
    rw [length_store, length_resize]
  obtain ⟨call, returns, moves⟩ :=
    offers.bufferWrite capacityBound free (Nat.le_of_eq tmpLength.symm)
  refine ⟨{ fd := advanced, buf := call.buf, rc := toSigned 32 asked }, ?_,
    rfl, by dsimp only, moves.after.holds⟩
  rw [srcFdImpl]
  simp only [clampRequest_fdBytesAvailable, clamped, read, returns,
    Option.bind_eq_bind, Option.bind_some]
  rfl

/-- Narrowing keeps the number of bytes to move exactly if the clamped request is
that number, and is returned as it is. -/
theorem survivesNarrowing_iff
    (nBytes : Nat)
    (fd : OpenFile)
    (room : Nat) :
    SurvivesNarrowing nBytes fd room ↔
      min nBytes (narrowedRest fd) = bytesToMove nBytes fd room ∧
        bytesToMove nBytes fd room < 2 ^ 31 := by
  simp only [SurvivesNarrowing, bytesToMove]
  omega

/-- `src_fd_impl` keeps its accounts exactly if the number of bytes to move survives
narrowing. -/
theorem srcFdImpl_keepsAccounts_iff
    (offers : BufferOffers capacity buf items room)
    (capacityBound : capacity < 2 ^ 32)
    (free : buf.m.locked = false)
    (nBytes : Nat)
    (fd : OpenFile)
    (fresh : Nat → UInt8) :
    (∃ call,
      srcFdImpl nBytes fd buf fresh = some call ∧
        KeepsAccounts capacity items nBytes fd room call) ↔
      SurvivesNarrowing nBytes fd room := by
  obtain ⟨asked, clamped⟩ : ∃ asked, min nBytes (narrowedRest fd) = asked :=
    ⟨_, rfl⟩
  obtain ⟨advanced, data, read⟩ :
      ∃ advanced data, fd.read asked = (advanced, data) :=
    ⟨_, _, rfl⟩
  obtain ⟨call, returns, consumed, rc, holds⟩ :=
    srcFdImpl_moves offers capacityBound free clamped read fresh
  have askedBound : asked < 2 ^ 32 := by
    have narrowed := toUnsigned_lt 32 ((fd.content.length : Int) - fd.offset)
    rw [← narrowedRest] at narrowed
    omega
  rw [survivesNarrowing_iff, clamped, returns,
    ← toSigned_eq_natCast_iff 31 askedBound, ← rc]
  constructor
  · rintro ⟨returned, same, accounts⟩
    obtain rfl := Option.some.inj same
    exact accounts.returned
  · intro returned
    have exactly : asked = bytesToMove nBytes fd room :=
      ((toSigned_eq_natCast_iff 31 askedBound).mp (rc.symm.trans returned)).1
    have length : data.length = asked := by
      have stops := length_read fd asked
      rw [read] at stops
      rw [bytesToMove] at exactly
      rw [stops]
      omega
    have loaded : data = load fd.content fd.offset asked := by
      cases read
      rfl
    refine ⟨call, rfl, ?_, ?_, returned⟩
    · cases read
      rw [consumed, length, exactly]
    · rw [store_resize_nil length, List.take_of_length_le, loaded, exactly]
        at holds
      · exact holds
      · rw [bytesToMove] at exactly
        rw [length]
        omega

end Accounts

/-- The two bytes behind the offset of a file go to a ring buffer of four cells. -/
theorem srcFdImpl_keepsAccounts_iff_two :
    ∃ call,
      srcFdImpl 5 { content := [1, 2, 3], offset := 1 } (bufferInit 4 .ring)
          (fun _ => 0) = some call ∧
        KeepsAccounts 4 [] 5 { content := [1, 2, 3], offset := 1 } 4 call :=
  (srcFdImpl_keepsAccounts_iff
    (bufferOffers_bufferInit (by decide) .ring) (by decide) rfl 5
    { content := [1, 2, 3], offset := 1 } fun _ => 0).mpr (by decide)

/-- Past the end of a file, a byte that is not in it is appended; and a buffer of one
cell loses the second of two bytes. -/
theorem not_keepsAccounts_past_end_and_full :
    (¬∃ call,
      srcFdImpl 1 { content := [], offset := 1 } (bufferInit 4 .ring)
          (fun _ => 0) = some call ∧
        KeepsAccounts 4 [] 1 { content := [], offset := 1 } 4 call) ∧
      ¬∃ call,
        srcFdImpl 2 { content := [1, 2], offset := 0 } (bufferInit 1 .ring)
            (fun _ => 0) = some call ∧
          KeepsAccounts 1 [] 2 { content := [1, 2], offset := 0 } 1 call := by
  constructor
  · rintro ⟨call, returns, accounts⟩
    have rc := congrArg (Option.map (·.rc)) returns
    rw [Option.map_some, accounts.returned] at rc
    exact absurd rc (by decide)
  · rintro ⟨call, returns, accounts⟩
    have rc := congrArg (Option.map (·.rc)) returns
    rw [Option.map_some, accounts.returned] at rc
    exact absurd rc (by decide)

end Hiemal
