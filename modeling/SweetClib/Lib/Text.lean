import Mathlib.Tactic

/-!
# Strings and character buffers

A C string is the list of its characters before the terminator, none of which is the terminator
(`CStr`). A pointer into a string is the part of it that is still ahead, and the empty list is the
terminator itself. A buffer is an array of characters; a store behind its end, and reading a string
from a buffer without a terminator, are faults, `none`.

A buffer that is filled from the front is `w ++ r`, with `w` what was stored so far: the next
character takes the place of the first one of `r` (`Buf.put_append`), and the string in the buffer
is `w` and what the string in `r` adds to it (`Buf.str_append`).
-/

namespace SweetClib.Lib

/-- A C string. -/
structure CStr where
  chars : List UInt8
  terminated : 0 ∉ chars
  deriving DecidableEq

/-- An array of characters. -/
abbrev Buf := List UInt8

/-- Store a character (C `b[i] = c`). -/
def Buf.put (b : Buf) (i : Nat) (c : UInt8) : Option Buf :=
  if i < b.length then some (b.set i c) else none

/-- Clear the first `k` characters (C `memset(b, 0, k)`). -/
def Buf.clear (b : Buf) (k : Nat) : Option Buf :=
  if k ≤ b.length then some (List.replicate k 0 ++ b.drop k) else none

/-- The string in a buffer. -/
def Buf.str (b : Buf) : Option (List UInt8) :=
  if 0 ∈ b then some (b.takeWhile (· ≠ 0)) else none

variable {w r : Buf}

/-- A store right behind what was stored so far. -/
lemma Buf.put_append (c : UInt8) :
    Buf.put (w ++ r) w.length c = if r = [] then none else some (w ++ c :: r.tail) := by
  cases r with
  | nil => simp [Buf.put]
  | cons x r => simp [Buf.put]

/-- The string starts with what was stored. -/
lemma Buf.str_append (plain : 0 ∉ w) : Buf.str (w ++ r) = (Buf.str r).map (w ++ ·) := by
  have mem : 0 ∈ w ++ r ↔ 0 ∈ r := by simp [plain]
  have take : (w ++ r).takeWhile (· ≠ 0) = w ++ r.takeWhile (· ≠ 0) := by
    apply List.takeWhile_append_of_pos
    intro c hc
    simp only [ne_eq, decide_not, Bool.not_eq_eq_eq_not, Bool.not_true, decide_eq_false_iff_not]
    rintro rfl
    exact plain hc
  by_cases zero : 0 ∈ r
  · simp only [Buf.str, mem, zero, if_true, Option.map_some, take]
  · simp only [Buf.str, mem, zero, if_false, Option.map_none]

/-- A buffer that starts with the terminator holds the empty string. -/
@[simp] lemma Buf.str_zero : Buf.str (0 :: r) = some [] := by
  simp [Buf.str]

end SweetClib.Lib
