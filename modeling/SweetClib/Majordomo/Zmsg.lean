import Mathlib.Tactic

/-!
# Frames, messages and the protocol constants

The parts of czmq the Majordomo programs rest on, and `mdp.h`. A frame is its bytes, a message is
the list of its frames, and a C string is its bytes without the terminator.

C → Lean naming:
* `zmsg_wrap` → `zmsgWrap`, `zmsg_unwrap` → `zmsgUnwrap`
* `zframe_strdup` → `zframeStrdup`, `zframe_strhex` → `zframeStrhex`
* `zframe_streq` is equality of bytes; `zmsg_push` and `zmsg_pop` are `cons` and matching.
-/

namespace SweetClib.Majordomo

/-- The bytes of a frame (C `zframe_t`). -/
abbrev Frame := List UInt8

/-- The bytes of a C string. -/
abbrev Str := List UInt8

/-- The frames of a message (C `zmsg_t`). -/
abbrev Zmsg := List Frame

/-- The header of client messages, `"MDPC01"`. -/
def MDPC_CLIENT : Str := [77, 68, 80, 67, 48, 49]

/-- The header of worker messages, `"MDPW01"`. -/
def MDPW_WORKER : Str := [77, 68, 80, 87, 48, 49]

/-- The command `"\001"`. -/
def MDPW_READY : Str := [1]

/-- The command `"\002"`. -/
def MDPW_REQUEST : Str := [2]

/-- The command `"\003"`. -/
def MDPW_REPLY : Str := [3]

/-- The command `"\004"`. -/
def MDPW_HEARTBEAT : Str := [4]

/-- The command `"\005"`. -/
def MDPW_DISCONNECT : Str := [5]

/-- Push an address and an empty frame (C `zmsg_wrap`). -/
def zmsgWrap (msg : Zmsg) (frame : Frame) : Zmsg :=
  frame :: [] :: msg

/-- Pop an address, and the empty frame after it if there is one (C `zmsg_unwrap`). -/
def zmsgUnwrap : Zmsg → Option (Frame × Zmsg)
  | [] => none
  | frame :: [] :: msg => some (frame, msg)
  | frame :: msg => some (frame, msg)

/-- A message with a frame has an address. -/
lemma zmsgUnwrap_cons (frame : Frame) (msg : Zmsg) :
    ∃ rest, zmsgUnwrap (frame :: msg) = some (frame, rest) := by
  rcases msg with _ | ⟨next, msg⟩
  · exact ⟨[], rfl⟩
  · cases next with
    | nil => exact ⟨msg, rfl⟩
    | cons byte next => exact ⟨(byte :: next) :: msg, rfl⟩

/-- The frame as a C string, which ends at the first zero byte (C `zframe_strdup`). -/
def zframeStrdup (frame : Frame) : Str :=
  frame.takeWhile (· ≠ 0)

/-- A hexadecimal digit, one of `"0123456789ABCDEF"`. -/
def hexChar (n : Nat) : UInt8 :=
  if n < 10 then 48 + UInt8.ofNat n else 55 + UInt8.ofNat n

/-- The frame in hexadecimal, two digits a byte (C `zframe_strhex`). -/
def zframeStrhex : Frame → Str
  | [] => []
  | byte :: frame => hexChar (byte.toNat / 16) :: hexChar (byte.toNat % 16) :: zframeStrhex frame

lemma hexChar_inj : ∀ m < 16, ∀ n < 16, hexChar m = hexChar n → m = n := by decide

lemma zframeStrhex_inj {f g : Frame} (e : zframeStrhex f = zframeStrhex g) : f = g := by
  induction f generalizing g with
  | nil =>
    cases g with
    | nil => rfl
    | cons y g => cases e
  | cons x f ih =>
    cases g with
    | nil => cases e
    | cons y g =>
      simp only [zframeStrhex, List.cons.injEq] at e
      obtain ⟨hi, lo, rest⟩ := e
      have xlt := x.toNat_lt
      have ylt := y.toNat_lt
      have hi := hexChar_inj _ (by omega) _ (by omega) hi
      have lo := hexChar_inj _ (by omega) _ (by omega) lo
      have same : x = y := UInt8.toNat_inj.mp (by omega)
      rw [same, ih rest]

end SweetClib.Majordomo
