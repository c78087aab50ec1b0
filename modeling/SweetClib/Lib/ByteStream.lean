import Mathlib.Data.List.Basic
import Mathlib.Tactic

/-!
# Byte streams

One direction of a connection, seen from the side that reads: what the other side wrote, what was
read of it, and whether the other side has closed. What was read and what is left are, in this
order, what was written; this is a field of the structure.

`recv` answers with some of the bytes that are there, at least one and at most as many as it was
asked for. How many is up to the kernel, and given as an argument.
-/

namespace SweetClib.Lib

variable {α : Type*}

/-- A stream. -/
structure ByteStream (α : Type*) where
  wrote : List α
  got : List α
  unread : List α
  ended : Bool
  whole : got ++ unread = wrote

/-- The answers of a non-blocking `recv`: bytes, the end of the stream, or `EAGAIN`. -/
inductive Recv (α : Type*) where
  | bytes (bs : List α)
  | eof
  | again

namespace ByteStream

/-- A stream of which nothing was read. -/
def fresh (bs : List α) (ended : Bool) : ByteStream α := ⟨bs, [], bs, ended, rfl⟩

/-- A write keeps the account. -/
lemma whole_write (s : ByteStream α) (bs : List α) : s.got ++ (s.unread ++ bs) = s.wrote ++ bs := by
  rw [← List.append_assoc, s.whole]

/-- The other side writes; there is no result after it has closed. -/
def write (s : ByteStream α) (bs : List α) : Option (ByteStream α) :=
  if s.ended then none else some ⟨s.wrote ++ bs, s.got, s.unread ++ bs, false, s.whole_write bs⟩

/-- The other side closes. -/
def finish (s : ByteStream α) : ByteStream α := { s with ended := true }

/-- A read finds something: bytes, or the end. -/
def ready (s : ByteStream α) : Bool := !s.unread.isEmpty || s.ended

/-- So does a read. -/
lemma whole_drop (s : ByteStream α) (n : Nat) :
    (s.got ++ s.unread.take n) ++ s.unread.drop n = s.wrote := by
  rw [List.append_assoc, List.take_append_drop, s.whole]

/-- Take the first `n` bytes. -/
def drop (s : ByteStream α) (n : Nat) : ByteStream α :=
  ⟨s.wrote, s.got ++ s.unread.take n, s.unread.drop n, s.ended, s.whole_drop n⟩

/-- `recv` of up to `size` bytes, where the kernel gives `k` if it can. -/
def recv (s : ByteStream α) (size k : Nat) : Recv α × ByteStream α :=
  match s.unread with
  | [] => (if s.ended then .eof else .again, s)
  | _ :: _ =>
    let n := min size (k + 1)
    (.bytes (s.unread.take n), s.drop n)

variable {s s' : ByteStream α} {bs : List α} {size k : Nat}

/-- What a write does. -/
lemma write_eq_some (st : s.write bs = some s') :
    s.ended = false ∧ s'.wrote = s.wrote ++ bs ∧ s'.got = s.got ∧ s'.unread = s.unread ++ bs ∧
      s'.ended = false := by
  rw [write] at st
  split at st
  · cases st
  · rename_i going
    cases st
    exact ⟨Bool.eq_false_of_not_eq_true going, rfl, rfl, rfl, rfl⟩

/-- A stream that has not ended can be written to. -/
lemma write_of_going (going : s.ended = false) (bs : List α) : ∃ s', s.write bs = some s' := by
  rw [write, going]
  exact ⟨_, rfl⟩

/-- Where bytes are there, some are read. -/
lemma recv_of_unread (ne : s.unread ≠ []) (size k : Nat) :
    ∃ bs s', s.recv size k = (.bytes bs, s') := by
  rw [recv]
  split
  · rename_i none
    exact absurd none ne
  · exact ⟨_, _, rfl⟩

/-- A stream that is ready and has not ended has bytes. -/
lemma unread_of_ready (going : s.ended = false) (ready : s.ready = true) : s.unread ≠ [] := by
  intro none
  rw [ByteStream.ready, none, going] at ready
  cases ready

/-- Where nothing was written, nothing is unread. -/
lemma unread_of_wrote (none : s.wrote = []) :
    s.unread = [] := (List.append_eq_nil_iff.mp (s.whole.trans none)).2

/-- `recv` would block where there is nothing, and changes nothing. -/
lemma recv_again (st : s.recv size k = (.again, s')) : s' = s ∧ s.ready = false := by
  rw [recv] at st
  split at st
  · rename_i none
    obtain ⟨answer, rfl⟩ := Prod.mk.inj st
    split at answer
    · cases answer
    · rename_i going
      exact ⟨rfl, by rw [ready, none, Bool.eq_false_of_not_eq_true going]; rfl⟩
  · cases st

/-- `recv` answers with the end where everything was read. -/
lemma recv_eof (st : s.recv size k = (.eof, s')) : s' = s ∧ s.unread = [] ∧ s.ended = true := by
  rw [recv] at st
  split at st
  · rename_i none
    obtain ⟨answer, rfl⟩ := Prod.mk.inj st
    split at answer
    · rename_i ended
      exact ⟨rfl, none, ended⟩
    · cases answer
  · cases st

/-- Bytes that are read are some, no more than asked for, and the next ones. -/
lemma recv_bytes (some : 0 < size) (st : s.recv size k = (.bytes bs, s')) :
    bs ≠ [] ∧ bs.length ≤ size ∧ s'.wrote = s.wrote ∧ s'.got = s.got ++ bs ∧
      s.unread = bs ++ s'.unread ∧
      s'.ended = s.ended := by
  rw [recv] at st
  split at st
  · obtain ⟨answer, _⟩ := Prod.mk.inj st
    split at answer <;> cases answer
  · rename_i b rest unread
    cases st
    refine ⟨?_, ?_, rfl, rfl, (List.take_append_drop _ _).symm, rfl⟩
    · rw [unread, ne_eq, List.take_eq_nil_iff]
      simp only [List.cons_ne_nil, or_false]
      omega
    · rw [List.length_take]
      omega

/-- Bytes come from a stream that is ready. -/
lemma ready_of_bytes (some : 0 < size) (st : s.recv size k = (.bytes bs, s')) : s.ready = true := by
  obtain ⟨ne, _, _, _, unread, _⟩ := recv_bytes some st
  cases bs with
  | nil => exact absurd rfl ne
  | cons => rw [ready, unread, List.cons_append, List.isEmpty_cons, Bool.not_false, Bool.true_or]

/-- A stream that is ready is so after a write. -/
lemma ready_write (st : s.write bs = some s') (was : s.ready = true) : s'.ready = true := by
  obtain ⟨going, _, _, unread, _⟩ := write_eq_some st
  rw [ready, going, Bool.or_false] at was
  rw [ready, unread]
  cases left : s.unread with
  | nil =>
    rw [left] at was
    cases was
  | cons => rw [List.cons_append, List.isEmpty_cons, Bool.not_false, Bool.true_or]

/-- Where a read finds nothing, all that was written was read. -/
lemma got_of_not_ready (dry : s.ready = false) : s.got = s.wrote ∧ s.ended = false := by
  obtain ⟨none, going⟩ := Bool.or_eq_false_iff.mp dry
  have none : s.unread = [] := by simpa using none
  exact ⟨by rw [← s.whole, none, List.append_nil], going⟩

end ByteStream

end SweetClib.Lib
