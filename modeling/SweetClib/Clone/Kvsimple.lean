import Mathlib.Data.List.AList
import SweetClib.Majordomo.Zmsg

/-!
# Key-value messages

`kvsimple.c`. A message has a key, a sequence and a body frame, each of which may be absent, and a
buffer that caches the key as a C string. The sequence is written into its frame and read back by
the two halves of a `Codec`; those of the source are `kvsimple`. A socket is read frame by frame,
each frame with the flag that says whether more frames of its message follow. Where an assert of
the source fails, or a null pointer is read, the model has no result.

C → Lean naming:
* `kvmsg_new` → `kvmsgNew`, `kvmsg_recv` → `kvmsgRecv`, `kvmsg_send` → `kvmsgSend`
* `kvmsg_key` → `kvmsgKey`, `kvmsg_set_key` → `kvmsgSetKey`, `kvmsg_fmt_key` → `kvmsgFmtKey`
* `kvmsg_sequence` → `kvmsgSequence`, `kvmsg_set_sequence` → `kvmsgSetSequence`
* `kvmsg_set_body` → `kvmsgSetBody`, `kvmsg_fmt_body` → `kvmsgFmtBody`, `kvmsg_store` → `kvmsgStore`

Of the sequences, exactly those come back as they were written whose third lowest byte is zero
(`kvmsg_sequence_round_trip`): the source shifts that byte by 26 where it was taken from bit 16.
-/

namespace SweetClib.Clone
open SweetClib.Majordomo (Frame Str Zmsg)

/-- A key-value message (C `kvmsg_t`); an absent frame is `none`, and `key` is what was copied to
the buffer. -/
structure Kvmsg where
  frameKey : Option Frame
  frameSeq : Option Frame
  frameBody : Option Frame
  key : Str
deriving DecidableEq

/-- How a sequence is written to its frame, and read from it unless an assert fails. -/
structure Codec where
  encode : BitVec 64 → Frame
  decode : Frame → Option (BitVec 64)

/-- The map of a program (C `zhash_t`), by C strings. -/
abbrev Kvmap := AList fun _ : Str => Kvmsg

/-- The frames waiting on a socket, each with its flag for more frames (C `zsocket_rcvmore`). -/
abbrev Input := List (Frame × Bool)

/-- The most bytes of a key in the buffer. -/
def KVMSG_KEY_MAX : Nat := 255

/-- A byte of a sequence (C `(byte)((sequence >> n) & 255)`). -/
def sequenceByte (sequence : BitVec 64) (n : Nat) : UInt8 :=
  ⟨(sequence.sshiftRight n &&& 255#64).setWidth 8⟩

/-- A byte as a 64-bit integer (C `(int64_t)`). -/
def byteInt (b : UInt8) : BitVec 64 :=
  b.toBitVec.setWidth 64

/-- The codec of `kvmsg_set_sequence` and `kvmsg_sequence`. -/
def kvsimple : Codec where
  encode sequence :=
    [sequenceByte sequence 56, sequenceByte sequence 48, sequenceByte sequence 40,
      sequenceByte sequence 32, sequenceByte sequence 24, sequenceByte sequence 16,
      sequenceByte sequence 8, sequenceByte sequence 0]
  decode
    | [b₀, b₁, b₂, b₃, b₄, b₅, b₆, b₇] =>
      some ((byteInt b₀ <<< 56) + (byteInt b₁ <<< 48) + (byteInt b₂ <<< 40) + (byteInt b₃ <<< 32)
        + (byteInt b₄ <<< 24) + (byteInt b₅ <<< 26) + (byteInt b₆ <<< 8) + byteInt b₇)
    | _ => none

section Functions

variable (codec : Codec)

/-- Write the sequence (C `kvmsg_set_sequence`). -/
def kvmsgSetSequence (self : Kvmsg) (sequence : BitVec 64) : Kvmsg :=
  { self with frameSeq := some (codec.encode sequence) }

/-- Read the sequence (C `kvmsg_sequence`). -/
def kvmsgSequence (self : Kvmsg) : Option (BitVec 64) :=
  match self.frameSeq with
  | some frame => codec.decode frame
  | none => some 0

/-- A new message (C `kvmsg_new`). -/
def kvmsgNew (sequence : BitVec 64) : Kvmsg :=
  kvmsgSetSequence codec { frameKey := none, frameSeq := none, frameBody := none, key := [] }
    sequence

end Functions

/-- Set the key to a C string (C `kvmsg_set_key`); the buffer is left as it is. -/
def kvmsgSetKey (self : Kvmsg) (key : Str) : Kvmsg :=
  { self with frameKey := some key }

/-- Set the key to the text of a format, cut to the buffer of `vsnprintf` and as a C string
(C `kvmsg_fmt_key`). -/
def kvmsgFmtKey (self : Kvmsg) (text : Str) : Kvmsg :=
  kvmsgSetKey self ((text.take (KVMSG_KEY_MAX - 1)).takeWhile (· ≠ 0))

/-- Set the body (C `kvmsg_set_body`). -/
def kvmsgSetBody (self : Kvmsg) (body : Frame) : Kvmsg :=
  { self with frameBody := some body }

/-- Set the body to the text of a format, cut to the buffer of `vsnprintf` and as a C string
(C `kvmsg_fmt_body`). -/
def kvmsgFmtBody (self : Kvmsg) (text : Str) : Kvmsg :=
  kvmsgSetBody self ((text.take 254).takeWhile (· ≠ 0))

/-- The key as a C string, `none` if there is no key frame (C `kvmsg_key`); it is copied to the
buffer when the buffer holds the empty string. -/
def kvmsgKey (self : Kvmsg) : Option Str × Kvmsg :=
  match self.frameKey with
  | none => (none, self)
  | some frame =>
    let key := if self.key.headD 0 = 0 then frame.take KVMSG_KEY_MAX else self.key
    (some (key.takeWhile (· ≠ 0)), { self with key })

/-- The frames of a message as it is sent, absent ones empty (C `kvmsg_send`). -/
def kvmsgSend (self : Kvmsg) : Zmsg :=
  [self.frameKey.getD [], self.frameSeq.getD [], self.frameBody.getD []]

/-- Read the frames of a message up to its last one; the message is given up when it has fewer or
more frames. There is no result when the socket has no more frames and the program waits. -/
def recvFrames : Nat → Input → Option (Option (List Frame) × Input)
  | 0, input => some (some [], input)
  | _ + 1, [] => none
  | n + 1, (frame, more) :: input =>
    if more ≠ decide (0 < n) then some (none, input)
    else (recvFrames n input).map fun r => (r.1.map (frame :: ·), r.2)

/-- Receive a message (C `kvmsg_recv`); `some (none, _)` is a null pointer. -/
def kvmsgRecv (input : Input) : Option (Option Kvmsg × Input) :=
  (recvFrames 3 input).map fun r => (r.1.bind fun
    | [key, sequence, body] =>
      some { frameKey := some key, frameSeq := some sequence, frameBody := some body, key := [] }
    | _ => none, r.2)

/-- A read takes frames from the socket only. -/
lemma recvFrames_length {n : Nat} {input rest : Input} {ret : Option (List Frame)}
    (e : recvFrames n input = some (ret, rest)) : rest.length ≤ input.length := by
  induction n generalizing input ret with
  | zero =>
    cases e
    exact le_rfl
  | succ n ih =>
    cases input with
    | nil => cases e
    | cons f input =>
      rw [recvFrames] at e
      split at e
      · cases e
        exact Nat.le_succ _
      · obtain ⟨r, more, e⟩ := Option.map_eq_some_iff.mp e
        cases e
        exact (ih more).trans (Nat.le_succ _)

/-- A call of `kvmsg_recv` takes a frame at least. -/
lemma kvmsgRecv_length {input rest : Input} {ret : Option Kvmsg}
    (e : kvmsgRecv input = some (ret, rest)) : rest.length < input.length := by
  obtain ⟨r, frames, e⟩ := Option.map_eq_some_iff.mp e
  cases e
  cases input with
  | nil => cases frames
  | cons f input =>
    rw [recvFrames] at frames
    split at frames
    · cases frames
      exact Nat.lt_succ_self _
    · obtain ⟨r, more, e⟩ := Option.map_eq_some_iff.mp frames
      cases e
      exact Nat.lt_succ_of_le (recvFrames_length more)

/-- Store a message under its key if it has a key and a body (C `kvmsg_store`). -/
def kvmsgStore (self : Kvmsg) (hash : Kvmap) : Kvmap :=
  if self.frameKey.isSome ∧ self.frameBody.isSome then
    match kvmsgKey self with
    | (some key, self) => hash.insert key self
    | (none, _) => hash
  else hash

/-- The byte at a shift, as a number. -/
lemma sequenceByte_toNat (s : BitVec 64) {n : Nat} (le : n ≤ 56) :
    (byteInt (sequenceByte s n)).toNat = s.toNat / 2 ^ n % 256 := by
  apply Nat.eq_of_testBit_eq
  intro i
  have mask : (255#64).getLsbD i = decide (i < 8) := by
    rw [BitVec.getLsbD_ofNat, show 255 = 2 ^ 8 - 1 from rfl, Nat.testBit_two_pow_sub_one]
    by_cases h : i < 8
    · simp [h, Nat.lt_of_lt_of_le h]
    · simp [h]
  rw [show 256 = 2 ^ 8 from rfl, Nat.testBit_mod_two_pow, Nat.testBit_div_two_pow,
    BitVec.testBit_toNat, BitVec.testBit_toNat]
  simp only [byteInt, sequenceByte, BitVec.getLsbD_setWidth, BitVec.getLsbD_and, mask,
    BitVec.getLsbD_sshiftRight]
  by_cases h : i < 8
  · have lt : n + i < 64 := by omega
    have lt' : i < 64 := by omega
    simp [h, lt, lt', Nat.add_comm i n]
  · simp [h]

/-- A 64-bit number is the sum of its bytes in their places. -/
lemma sum_bytes {n : Nat} (lt : n < 2 ^ 64) :
    n / 2 ^ 56 % 256 * 2 ^ 56 + n / 2 ^ 48 % 256 * 2 ^ 48 + n / 2 ^ 40 % 256 * 2 ^ 40
      + n / 2 ^ 32 % 256 * 2 ^ 32 + n / 2 ^ 24 % 256 * 2 ^ 24 + n / 2 ^ 16 % 256 * 2 ^ 16
      + n / 2 ^ 8 % 256 * 2 ^ 8 + n / 2 ^ 0 % 256 = n := by
  have next : ∀ k, n / 2 ^ k = 256 * (n / 2 ^ (k + 8)) + n / 2 ^ k % 256 := by
    intro k
    rw [pow_add, ← Nat.div_div_eq_div_mul]
    exact (Nat.div_add_mod _ _).symm
  have h₀ := next 0
  have h₁ := next 8
  have h₂ := next 16
  have h₃ := next 24
  have h₄ := next 32
  have h₅ := next 40
  have h₆ := next 48
  have last : n / 2 ^ 56 % 256 = n / 2 ^ 56 := Nat.mod_eq_of_lt (by omega)
  simp only [pow_zero, Nat.div_one, Nat.zero_add, Nat.reduceAdd] at h₀ h₁ h₂ h₃ h₄ h₅ h₆ ⊢
  rw [last]
  generalize n / 2 ^ 56 = q₇ at *
  generalize n / 2 ^ 48 = q₆ at *
  generalize n / 2 ^ 40 = q₅ at *
  generalize n / 2 ^ 32 = q₄ at *
  generalize n / 2 ^ 24 = q₃ at *
  generalize n / 2 ^ 16 = q₂ at *
  generalize n / 2 ^ 8 = q₁ at *
  omega

/-- What is read back from the bytes of a sequence, as a number. -/
lemma kvsimple_decode_toNat (s : BitVec 64) : ∃ r, kvsimple.decode (kvsimple.encode s) = some r ∧
    r.toNat = (s.toNat + s.toNat / 2 ^ 16 % 256 * (2 ^ 26 - 2 ^ 16)) % 2 ^ 64 := by
  refine ⟨_, rfl, ?_⟩
  simp only [BitVec.toNat_add, BitVec.toNat_shiftLeft, Nat.shiftLeft_eq, Nat.add_mod_mod,
    Nat.mod_add_mod, sequenceByte_toNat s (show 56 ≤ 56 by decide),
    sequenceByte_toNat s (show 48 ≤ 56 by decide),
    sequenceByte_toNat s (show 40 ≤ 56 by decide), sequenceByte_toNat s (show 32 ≤ 56 by decide),
    sequenceByte_toNat s (show 24 ≤ 56 by decide), sequenceByte_toNat s (show 16 ≤ 56 by decide),
    sequenceByte_toNat s (show 8 ≤ 56 by decide), sequenceByte_toNat s (show 0 ≤ 56 by decide)]
  have sum := sum_bytes s.isLt
  have moved : s.toNat / 2 ^ 16 % 256 * 2 ^ 26 =
      s.toNat / 2 ^ 16 % 256 * 2 ^ 16 + s.toNat / 2 ^ 16 % 256 * (2 ^ 26 - 2 ^ 16) := by
    rw [← Nat.mul_add, Nat.add_sub_cancel' (by decide)]
  refine congrArg (· % 2 ^ 64) ?_
  rw [moved]
  linarith

/-- A sequence that was written is read back iff its third lowest byte is zero. -/
lemma kvmsgSequence_kvmsgSetSequence (self : Kvmsg) (s : BitVec 64) :
    kvmsgSequence kvsimple (kvmsgSetSequence kvsimple self s) = some s ↔
      s.toNat / 2 ^ 16 % 256 = 0 := by
  obtain ⟨r, e, hr⟩ := kvsimple_decode_toNat s
  have same : kvmsgSequence kvsimple (kvmsgSetSequence kvsimple self s) = some r := e
  have := s.isLt
  rw [same, Option.some.injEq, ← BitVec.toNat_inj, hr]
  omega

/-- Exactly the sequences whose third lowest byte is zero are read back as they were written; and
on these what is read back is in the same order and tells them apart. -/
theorem kvmsg_sequence_round_trip (self self' : Kvmsg) (s t : BitVec 64) :
    (kvmsgSequence kvsimple (kvmsgSetSequence kvsimple self s) = some s ↔
      s.toNat / 2 ^ 16 % 256 = 0) ∧
    (s.toNat / 2 ^ 16 % 256 = 0 → t.toNat / 2 ^ 16 % 256 = 0 →
      ∃ r u, kvmsgSequence kvsimple (kvmsgSetSequence kvsimple self s) = some r ∧
        kvmsgSequence kvsimple (kvmsgSetSequence kvsimple self' t) = some u ∧
        (r = u → s = t) ∧ (s.toInt < t.toInt → r.toInt < u.toInt)) := by
  refine ⟨kvmsgSequence_kvmsgSetSequence self s, fun hs ht => ⟨s, t, ?_, ?_, id, id⟩⟩
  · exact (kvmsgSequence_kvmsgSetSequence self s).mpr hs
  · exact (kvmsgSequence_kvmsgSetSequence self' t).mpr ht

/-- The sequence 65536 is read back as 67108864. It is so confused with 67108864 itself, and comes
after 16777216. -/
theorem third_byte_misplaced :
    kvmsgSequence kvsimple (kvmsgNew kvsimple 65536) = some 67108864 ∧
    kvmsgSequence kvsimple (kvmsgNew kvsimple 67108864) = some 67108864 ∧
    kvmsgSequence kvsimple (kvmsgNew kvsimple 16777216) = some 16777216 := by
  decide +kernel

end SweetClib.Clone
