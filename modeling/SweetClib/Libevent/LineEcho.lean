import Mathlib.Data.List.DropRight
import SweetClib.Lib.Run

/-!
# The line echo server

Model of `libevent/lowlevel_libevent_server.c`: a connection has a buffer that `do_read` fills and
`do_write` sends from. What is before `buffer_used` was received, what is before `write_upto` ends
in a newline and may be sent, and what is before `n_written` was sent. When all of it was sent, the
three indices go back to 1, and the first character of the buffer is not used again.

The callbacks of one connection come in any order, with any answers of `recv` and `send`. `recv`
gives chunks of at least one and at most 20 characters (`Chunk`) and ends with 0 or an error;
`errno = EAGAIN` in the source is an assignment, so that every error of `recv` is taken for that
one. `send` takes at least one and at most all of the characters it is given, or fails (`Send`).
After `free_fd_state` there is no state, and no callback.

The characters between two indices are `between`. As long as no character was dropped, what was
received is what was sent and what lies between `n_written` and `buffer_used` (`Streams`), wherever
in the buffer that is.
-/

namespace SweetClib.Libevent
open Lib

/-- Size of the buffer (C `MAX_LINE`). -/
def MAX_LINE : Nat := 80

/-- A connection (C `struct fd_state`); of the events only whether the write event is added. -/
structure FdState where
  buffer : Vector UInt8 MAX_LINE
  bufferUsed : Nat
  nWritten : Nat
  writeUpto : Nat
  writeEvent : Bool

/-- The state of a new connection (C `alloc_fd_state`), for which everything could be allocated;
the buffer is not initialised. -/
def allocFdState (buffer : Vector UInt8 MAX_LINE) : FdState where
  buffer := buffer
  bufferUsed := 0
  nWritten := 0
  writeUpto := 0
  writeEvent := false

/-- What a call of `recv` stores in `buf`. -/
structure Chunk where
  bytes : List UInt8
  some_byte : bytes ≠ []
  fits : bytes.length ≤ 20

/-- The answer of `recv` that ends the loop: 0, or an error. -/
inductive RecvEnd where
  | closed
  | error
  deriving DecidableEq

/-- The answer of `send`: at most so many characters and one more, or an error. -/
inductive Send where
  | sent (extra : Nat)
  | again
  | error

/-- A callback, with the answers of the calls it makes. -/
inductive Callback where
  | read (chunks : List Chunk) (last : RecvEnd)
  | write (send : Nat → Send)

/-- What a callback has done: the characters it has sent, the first index and the length of each
call of `send`, the number of characters dropped because the buffer was full, and whether the write
event was removed (C `event_del`). -/
structure Outcome where
  sent : List UInt8
  ranges : List (Nat × Nat)
  dropped : Nat
  removed : Bool

/-- The part of the buffer between two indices. -/
def between (buffer : Vector UInt8 MAX_LINE) (lo hi : Nat) :
    List UInt8 := (buffer.toList.take hi).drop lo

/-- The body of the inner loop of `do_read`, with the number of characters dropped. -/
def readByte (r : FdState × Nat) (c : UInt8) : FdState × Nat :=
  let (state, dropped) :=
    if h : r.1.bufferUsed < MAX_LINE then
      ({ r.1 with buffer := r.1.buffer.set r.1.bufferUsed c h, bufferUsed := r.1.bufferUsed + 1 },
        r.2)
    else (r.1, r.2 + 1)
  if c = 10 then ({ state with writeEvent := true, writeUpto := state.bufferUsed }, dropped)
  else (state, dropped)

/-- The inner loop of `do_read`. -/
def readChunk (r : FdState × Nat) (chunk : Chunk) : FdState × Nat := chunk.bytes.foldl readByte r

/-- C `do_read` -/
def doRead (state : FdState) (chunks : List Chunk) (last : RecvEnd) : Outcome × Option FdState :=
  let (state, dropped) := chunks.foldl readChunk (state, 0)
  (⟨[], [], dropped, false⟩,
    match last with
    | .closed => none
    | .error => some state)

/-- How the loop of `do_write` ends: at `write_upto`, with `EAGAIN`, or with another error. -/
inductive WriteEnd where
  | flushed
  | blocked
  | failed

/-- The loop of `do_write`, for so many rounds; a call of `send` behind the end of the buffer is a
fault. -/
def writeLoop (send : Nat → Send) : Nat → FdState → Outcome → Option (WriteEnd × FdState × Outcome)
  | 0, _, _ => none
  | rounds + 1, state, out =>
    if state.nWritten < state.writeUpto then
      if state.writeUpto ≤ MAX_LINE then
        let len := state.writeUpto - state.nWritten
        let ranges := out.ranges ++ [(state.nWritten, len)]
        match send out.ranges.length with
        | .again => some (.blocked, state, { out with ranges })
        | .error => some (.failed, state, { out with ranges })
        | .sent extra =>
          let result := min (extra + 1) len
          let bytes := between state.buffer state.nWritten (state.nWritten + result)
          writeLoop send rounds { state with nWritten := state.nWritten + result }
            { out with sent := out.sent ++ bytes, ranges }
      else none
    else some (.flushed, state, out)

/-- C `do_write` -/
def doWrite (state : FdState) (send : Nat → Send) : Option (Outcome × Option FdState) :=
  (writeLoop send (state.writeUpto - state.nWritten + 1) state ⟨[], [], 0, false⟩).map fun (ending,
      state, out) =>
    match ending with
    | .blocked => (out, some state)
    | .failed => (out, none)
    | .flushed =>
      let state := if state.nWritten = state.bufferUsed then
        { state with nWritten := 1, writeUpto := 1, bufferUsed := 1 } else state
      ({ out with removed := true }, some { state with writeEvent := false })

/-- A callback for a connection that is there. -/
def callback : Option FdState → Callback → Option (Outcome × Option FdState)
  | none, _ => none
  | some state, .read chunks last => some (doRead state chunks last)
  | some state, .write send => doWrite state send

/-- The characters a callback receives. -/
def Callback.bytes : Callback → List UInt8
  | .read chunks _ => chunks.flatMap Chunk.bytes
  | .write _ => []

/-- A history of callbacks, the last one first. -/
abbrev History := List (Callback × Outcome)

/-- What the callbacks received in a history. -/
def received (tr : History) : List UInt8 := tr.reverse.flatMap fun a => a.1.bytes

/-- What they sent. -/
def sent (tr : History) : List UInt8 := tr.reverse.flatMap fun a => a.2.sent

/-- How many characters they dropped. -/
def dropped (tr : History) : Nat := (tr.map fun a => a.2.dropped).sum

/-- The characters up to the last newline, with it. -/
def throughNewline (s : List UInt8) : List UInt8 := s.rdropWhile (· ≠ 10)

/-- The order of the indices. -/
structure Indices (state : FdState) : Prop where
  written : state.nWritten ≤ state.writeUpto
  upto : state.writeUpto ≤ state.bufferUsed
  used : state.bufferUsed ≤ MAX_LINE

/-- What was received is what was sent and what waits in the buffer, and the lines of it are sent
up to `write_upto`. -/
structure Streams (rcvd snt : List UInt8) (state : FdState) : Prop where
  all : rcvd = snt ++ between state.buffer state.nWritten state.bufferUsed
  lines : throughNewline rcvd = snt ++ between state.buffer state.nWritten state.writeUpto

section Between

variable {buffer : Vector UInt8 MAX_LINE} {lo mid hi : Nat}

/-- Nothing is between an index and itself. -/
@[simp] lemma between_self : between buffer lo lo = [] := by
  rw [between, List.drop_eq_nil_iff, List.length_take]
  exact Nat.min_le_left _ _

/-- The characters between two indices, cut at one in the middle. -/
lemma between_append (le : lo ≤ mid) (le' : mid ≤ hi) :
    between buffer lo mid ++ between buffer mid hi = between buffer lo hi := by
  have cut := List.take_add (l := buffer.toList.drop lo) (i := mid - lo) (j := hi - mid)
  rw [List.drop_drop, show mid - lo + (hi - mid) = hi - lo by
    omega, show lo + (mid - lo) = mid by omega] at cut
  rw [between, between, between, List.drop_take, List.drop_take, List.drop_take, cut]

/-- A character is stored behind the others. -/
lemma between_set (le : lo ≤ hi) (h : hi < MAX_LINE) (c : UInt8) :
    between (buffer.set hi c h) lo (hi + 1) = between buffer lo hi ++ [c] := by
  have size : buffer.toList.length = MAX_LINE := buffer.length_toList
  have stored : (buffer.toList.set hi c).take (hi + 1) = buffer.toList.take hi ++ [c] := by
    rw [List.take_add_one, List.take_set_of_le le_rfl, List.getElem?_set_self (by omega)]
    rfl
  rw [between, Vector.toList_set, stored,
    List.drop_append_of_le_length (by rw [List.length_take]; omega), between]

/-- A write behind a part does not change it. -/
lemma between_set_of_le (le : mid ≤ hi) (h : hi < MAX_LINE) (c : UInt8) :
    between (buffer.set hi c h) lo mid = between buffer lo mid := by
  rw [between, Vector.toList_set, List.take_set_of_le le, between]

end Between

section Read

variable {rcvd snt : List UInt8} {r : FdState × Nat}

/-- A character that there is room for. -/
lemma readByte_room (room : r.1.bufferUsed < MAX_LINE) (c : UInt8) :
    readByte r c = (⟨r.1.buffer.set r.1.bufferUsed c room, r.1.bufferUsed + 1, r.1.nWritten,
      if c = 10 then r.1.bufferUsed + 1 else r.1.writeUpto, if c = 10 then true
      else r.1.writeEvent⟩, r.2) := by
  simp only [readByte, dif_pos room]
  split
  · rfl
  · rfl

/-- A character that there is no room for. -/
lemma readByte_full (full : ¬ r.1.bufferUsed < MAX_LINE) (c : UInt8) :
    readByte r c =
      (⟨r.1.buffer, r.1.bufferUsed, r.1.nWritten, if c = 10 then r.1.bufferUsed else r.1.writeUpto,
      if c = 10 then true else r.1.writeEvent⟩, r.2 + 1) := by
  simp only [readByte, dif_neg full]
  split
  · rfl
  · rfl

/-- One character keeps the order of the indices, and counts if it is dropped. -/
lemma readByte_indices (ix : Indices r.1) (c : UInt8) :
    Indices (readByte r c).1 ∧ r.2 ≤ (readByte r c).2 := by
  obtain ⟨written, upto, used⟩ := ix
  by_cases room : r.1.bufferUsed < MAX_LINE
  · rw [readByte_room room]
    refine ⟨⟨?_, ?_, room⟩, le_rfl⟩
    · simp only
      split <;> omega
    · simp only
      split <;> omega
  · rw [readByte_full room]
    refine ⟨⟨?_, ?_, used⟩, Nat.le_succ _⟩
    · simp only
      split <;> omega
    · simp only
      split <;> omega

/-- One character that is not dropped is received, and ends a line if it is a newline. -/
lemma readByte_streams (ix : Indices r.1) (st : Streams rcvd snt r.1) (c : UInt8)
    (kept : (readByte r c).2 = r.2) : Streams (rcvd ++ [c]) snt (readByte r c).1 := by
  obtain ⟨all, lines⟩ := st
  have room : r.1.bufferUsed < MAX_LINE := by
    by_contra full
    rw [readByte_full full] at kept
    exact absurd kept (Nat.succ_ne_self _)
  have le : r.1.nWritten ≤ r.1.bufferUsed := ix.written.trans ix.upto
  have longer :
      rcvd ++ [c] = snt ++ between (r.1.buffer.set r.1.bufferUsed c room) r.1.nWritten
      (r.1.bufferUsed + 1) := by
    rw [between_set le, ← List.append_assoc, ← all]
  rw [readByte_room room]
  refine ⟨longer, ?_⟩
  by_cases newline : c = 10
  · simp only [if_pos newline]
    rw [throughNewline, List.rdropWhile_concat_neg _ _ _ (by simp [newline])]
    exact longer
  · simp only [if_neg newline]
    rw [throughNewline, List.rdropWhile_concat_pos _ _ _ (by simp [newline]),
      between_set_of_le ix.upto]
    exact lines

/-- The loop over the characters of a chunk. -/
lemma readBytes_spec (bytes : List UInt8) (ix : Indices r.1) :
    Indices (bytes.foldl readByte r).1 ∧ r.2 ≤ (bytes.foldl readByte r).2 ∧
      ∀ rcvd snt, Streams rcvd snt r.1 → (bytes.foldl readByte r).2 = r.2 →
        Streams (rcvd ++ bytes) snt (bytes.foldl readByte r).1 := by
  induction bytes generalizing r with
  | nil => exact ⟨ix, le_rfl, fun rcvd snt st _ => by rwa [List.append_nil]⟩
  | cons c bytes ih =>
    obtain ⟨ix₁, first⟩ := readByte_indices ix c
    obtain ⟨ix', le, streams⟩ := ih ix₁
    refine ⟨ix', first.trans le, fun rcvd snt st kept => ?_⟩
    rw [List.foldl_cons] at kept ⊢
    rw [List.append_cons]
    exact streams _ _ (readByte_streams ix st c (by omega)) (by omega)

/-- The loops of `do_read` are one loop over all characters. -/
lemma foldl_readChunk (chunks : List Chunk) :
    chunks.foldl readChunk r = (chunks.flatMap Chunk.bytes).foldl readByte r := by
  rw [List.foldl_flatMap]
  rfl

end Read

/-- What the loop of `do_write` does: it sends what is between `n_written` and some index up to
`write_upto`, with calls inside of the buffer, and that index is `write_upto` if it ends there. -/
structure Flushed (state : FdState) (out : Outcome) (ending : WriteEnd) (state' : FdState)
    (out' : Outcome) : Prop where
  state_eq : state' = { state with nWritten := state'.nWritten }
  ahead : state.nWritten ≤ state'.nWritten ∧ state'.nWritten ≤ state.writeUpto
  sent : out'.sent = out.sent ++ between state.buffer state.nWritten state'.nWritten
  ranges : ∀ r ∈ out'.ranges, r ∈ out.ranges ∨ r.1 + r.2 = state.writeUpto
  kept : out'.dropped = out.dropped ∧ out'.removed = out.removed
  complete : ending = .flushed → state'.nWritten = state.writeUpto

/-- The loop ends after as many rounds as there are characters to send, at most. -/
lemma writeLoop_spec (send : Nat → Send) {rounds : Nat} {state : FdState} (ix : Indices state)
    (enough : state.writeUpto - state.nWritten < rounds) (out : Outcome) :
    ∃ ending state' out', writeLoop send rounds state out = some (ending, state', out') ∧
      Flushed state out ending state' out' := by
  induction rounds generalizing state out with
  | zero => exact absurd enough (Nat.not_lt_zero _)
  | succ rounds ih =>
    have written := ix.written
    have inside : state.writeUpto ≤ MAX_LINE := ix.upto.trans ix.used
    rw [writeLoop]
    by_cases more : state.nWritten < state.writeUpto
    · rw [if_pos more, if_pos inside]
      have range : ∀ r ∈ out.ranges ++ [(state.nWritten, state.writeUpto - state.nWritten)],
          r ∈ out.ranges ∨ r.1 + r.2 = state.writeUpto := by
        intro r mem
        obtain mem | mem := List.mem_append.mp mem
        · exact .inl mem
        · rw [List.mem_singleton.mp mem]
          exact .inr (by simp only; omega)
      simp only
      cases send out.ranges.length with
      | again =>
        exact ⟨_, _, _, rfl, rfl, ⟨le_rfl, written⟩, by simp, range, ⟨rfl, rfl⟩, nofun⟩
      | error =>
        exact ⟨_, _, _, rfl, rfl, ⟨le_rfl, written⟩, by simp, range, ⟨rfl, rfl⟩, nofun⟩
      | sent extra =>
        -- at least one character goes, and at most those before `write_upto`
        dsimp only
        generalize result : min (extra + 1) (state.writeUpto - state.nWritten) = k
        have some_sent : 0 < k ∧ state.nWritten + k ≤ state.writeUpto := by omega
        obtain ⟨ending, state', out', e, flushed⟩ :=
          @ih { state with nWritten := state.nWritten + k }
          ⟨some_sent.2, ix.upto, ix.used⟩ (by simp only; omega)
          { out with
            sent := out.sent ++ between state.buffer state.nWritten (state.nWritten + k)
            ranges := out.ranges ++ [(state.nWritten, state.writeUpto - state.nWritten)] }
        obtain ⟨state_eq, ahead, sent, ranges, kept, complete⟩ := flushed
        refine ⟨ending, state', out', e, state_eq, ?_, ?_, ?_, kept, complete⟩
        · exact ⟨(Nat.le_add_right _ _).trans ahead.1, ahead.2⟩
        · rw [sent, List.append_assoc, between_append (Nat.le_add_right _ _) ahead.1]
        · intro r mem
          obtain mem | eq := ranges r mem
          · exact range r mem
          · exact .inr eq
    · rw [if_neg more]
      exact ⟨_, _, _, rfl, rfl,
        ⟨le_rfl, written⟩, by simp, fun r mem => .inl mem, ⟨rfl, rfl⟩, fun _ => by omega⟩

section Callbacks

variable {rcvd snt : List UInt8} {state : FdState}

/-- `do_read` keeps the order of the indices and, if no character is dropped, receives. -/
lemma doRead_spec (ix : Indices state) (chunks : List Chunk) (last : RecvEnd) :
    ∃ state' dropped,
      doRead state chunks last = (⟨[], [], dropped, false⟩, if last = .closed then none
        else some state') ∧
      Indices state' ∧
      (dropped = 0 → ∀ rcvd snt, Streams rcvd snt state →
        Streams (rcvd ++ chunks.flatMap Chunk.bytes) snt state') := by
  have spec := readBytes_spec (chunks.flatMap Chunk.bytes) (r := (state, 0)) ix
  rw [← foldl_readChunk] at spec
  obtain ⟨ix', _, streams⟩ := spec
  refine ⟨_, _, ?_, ix', fun kept rcvd snt st => streams rcvd snt st kept⟩
  cases last with
  | closed => rfl
  | error => rfl

/-- What was sent comes first in what was received. -/
lemma Streams.sent_first (st : Streams rcvd snt state) : snt <+: rcvd := ⟨_, st.all.symm⟩

/-- The loop of `do_write` moves characters from what waits to what was sent. -/
lemma Flushed.streams {ending : WriteEnd} {state' : FdState} {ranges : List (Nat × Nat)}
    {out' : Outcome} (ix : Indices state)
    (flushed : Flushed state ⟨[], ranges, 0, false⟩ ending state' out')
    (st : Streams rcvd snt state) : Streams rcvd (snt ++ out'.sent) state' := by
  obtain ⟨all, lines⟩ := st
  rw [flushed.state_eq, flushed.sent, List.nil_append]
  refine ⟨?_, ?_⟩
  · rw [List.append_assoc, between_append flushed.ahead.1 (flushed.ahead.2.trans ix.upto)]
    exact all
  · rw [List.append_assoc, between_append flushed.ahead.1 flushed.ahead.2]
    exact lines

/-- What `do_write` does: no call of `send` goes behind what was received; what is sent comes next,
and nothing is lost; when the write event is removed, all lines were sent. -/
structure Wrote (state : FdState) (out : Outcome) (rest : Option FdState) : Prop where
  kept : out.dropped = 0
  inside : ∀ r ∈ out.ranges, r.1 + r.2 ≤ state.bufferUsed
  sent_first : ∀ rcvd snt, Streams rcvd snt state → snt ++ out.sent <+: rcvd
  removed : ∀ rcvd snt, Streams rcvd snt state → out.removed = true →
    snt ++ out.sent = throughNewline rcvd
  indices : ∀ state', rest = some state' → Indices state'
  streams : ∀ rcvd snt, Streams rcvd snt state → ∀ state', rest = some state' →
    Streams rcvd (snt ++ out.sent) state'

/-- A write callback returns. -/
lemma doWrite_spec (ix : Indices state) (send : Nat → Send) :
    ∃ out rest, doWrite state send = some (out, rest) ∧ Wrote state out rest := by
  obtain ⟨ending, state₁, out, e, flushed⟩ :=
    writeLoop_spec send ix (Nat.lt_succ_self _) ⟨[], [], 0, false⟩
  have inside : ∀ r ∈ out.ranges, r.1 + r.2 ≤ state.bufferUsed := by
    intro r mem
    obtain mem | eq := flushed.ranges r mem
    · exact absurd mem List.not_mem_nil
    · rw [eq]
      exact ix.upto
  have ix₁ : Indices state₁ := by
    rw [flushed.state_eq]
    exact ⟨flushed.ahead.2, ix.upto, ix.used⟩
  have streams : ∀ rcvd snt, Streams rcvd snt state → Streams rcvd (snt ++ out.sent) state₁ :=
    fun rcvd snt st => flushed.streams ix st
  obtain ⟨kept, removed⟩ := flushed.kept
  have still : out.removed ≠ true := by
    rw [removed]
    exact Bool.false_ne_true
  rw [doWrite, e, Option.map_some]
  cases ending with
  | blocked =>
    refine ⟨_, _, rfl, kept, inside, fun rcvd snt st => (streams rcvd snt st).sent_first,
      fun _ _ _ rm => absurd rm still, ?_, ?_⟩
    · rintro _ ⟨⟩
      exact ix₁
    · rintro rcvd snt st _ ⟨⟩
      exact streams rcvd snt st
  | failed =>
    exact ⟨_, _, rfl, kept, inside, fun rcvd snt st => (streams rcvd snt st).sent_first,
      fun _ _ _ rm => absurd rm still, nofun, nofun⟩
  | flushed =>
    have upto : state₁.nWritten = state₁.writeUpto := by
      rw [flushed.complete rfl, flushed.state_eq]
    refine ⟨_, _, rfl, kept, inside, fun rcvd snt st => (streams rcvd snt st).sent_first,
      fun rcvd snt st _ => ?_, ?_, ?_⟩
    · rw [(streams rcvd snt st).lines, upto, between_self, List.append_nil]
    · rintro _ ⟨⟩
      split
      · exact ⟨le_rfl, le_rfl, show 1 ≤ MAX_LINE by decide⟩
      · exact ⟨ix₁.written, ix₁.upto, ix₁.used⟩
    · rintro rcvd snt st _ ⟨⟩
      obtain ⟨all, lines⟩ := streams rcvd snt st
      split
      · -- nothing waits, before and behind the reset
        rename_i empty
        rw [← empty, between_self] at all
        rw [← upto, between_self] at lines
        exact ⟨by rw [between_self]; exact all, by rw [between_self]; exact lines⟩
      · exact ⟨all, lines⟩

end Callbacks

/-- The state of a connection after a history. -/
structure EchoInv (tr : History) (conn : Option FdState) : Prop where
  sent_first : dropped tr = 0 → sent tr <+: received tr
  indices : ∀ state, conn = some state → Indices state
  streams : ∀ state, conn = some state → dropped tr = 0 → Streams (received tr) (sent tr) state

section History

variable {tr : History} {cb : Callback} {out : Outcome}

/-- One more callback. -/
@[simp] lemma received_cons :
    received ((cb, out) :: tr) = received tr ++ cb.bytes := by simp [received]

/-- One more callback. -/
@[simp] lemma sent_cons : sent ((cb, out) :: tr) = sent tr ++ out.sent := by simp [sent]

/-- One more callback. -/
@[simp] lemma dropped_cons :
    dropped ((cb, out) :: tr) = out.dropped + dropped tr := by simp [dropped]

/-- Every callback keeps the invariant. -/
lemma EchoInv.step {conn conn' : Option FdState} (inv : EchoInv tr conn)
    (st : callback conn cb = some (out, conn')) : EchoInv ((cb, out) :: tr) conn' := by
  cases conn with
  | none => cases st
  | some state =>
    have ix := inv.indices state rfl
    have streams := inv.streams state rfl
    cases cb with
    | read chunks last =>
      obtain ⟨state', n, e, ix', streams'⟩ := doRead_spec ix chunks last
      have st : some (doRead state chunks last) = some (out, conn') := st
      rw [e] at st
      cases st
      refine ⟨fun kept => ?_, fun s eq => ?_, fun s eq kept => ?_⟩
      · rw [dropped_cons, Nat.add_eq_zero_iff] at kept
        rw [sent_cons, received_cons, List.append_nil]
        exact (inv.sent_first kept.2).trans (List.prefix_append _ _)
      · obtain ⟨_, eq⟩ := Option.ite_none_left_eq_some.mp eq
        cases eq
        exact ix'
      · rw [dropped_cons, Nat.add_eq_zero_iff] at kept
        obtain ⟨_, eq⟩ := Option.ite_none_left_eq_some.mp eq
        cases eq
        rw [sent_cons, received_cons, List.append_nil]
        exact streams' kept.1 _ _ (streams kept.2)
    | write send =>
      obtain ⟨out', rest, e, wrote⟩ := doWrite_spec ix send
      cases Option.some.inj (e.symm.trans st)
      refine ⟨fun kept => ?_, wrote.indices, fun s eq kept => ?_⟩
      · rw [dropped_cons, Nat.add_eq_zero_iff] at kept
        rw [sent_cons, received_cons, Callback.bytes, List.append_nil]
        exact wrote.sent_first _ _ (streams kept.2)
      · rw [dropped_cons, Nat.add_eq_zero_iff] at kept
        rw [sent_cons, received_cons, Callback.bytes, List.append_nil]
        exact wrote.streams _ _ (streams kept.2) s eq

end History

/-- After every run of callbacks of a connection: `0 ≤ n_written ≤ write_upto ≤ buffer_used ≤
MAX_LINE` while there is a state; the next callback is answered, and every call of `send` in it
lies inside of what was received. As long as no character was dropped, what was sent is the first
part of what was received, and after a callback that has removed the write event it is what was
received up to the last newline. -/
theorem line_echo (buffer : Vector UInt8 MAX_LINE) {tr : History} {conn : Option FdState}
    (run : Run (Answers callback) (some (allocFdState buffer)) tr conn) :
    (∀ state, conn = some state →
      (0 ≤ state.nWritten ∧ state.nWritten ≤ state.writeUpto ∧ state.writeUpto ≤ state.bufferUsed ∧
        state.bufferUsed ≤ MAX_LINE) ∧
      ∀ cb, ∃ out conn', callback conn cb = some (out, conn') ∧ ∀ r ∈ out.ranges,
        r.1 + r.2 ≤ state.bufferUsed) ∧
    (dropped tr = 0 → sent tr <+: received tr) ∧
    ∀ cb out tr', tr = (cb, out) :: tr' → out.removed = true → dropped tr = 0 →
      sent tr = throughNewline (received tr) := by
  have start : EchoInv [] (some (allocFdState buffer)) := by
    refine ⟨fun _ => List.nil_prefix, ?_, ?_⟩
    · rintro _ ⟨⟩
      exact ⟨le_rfl, le_rfl, Nat.zero_le _⟩
    · rintro _ ⟨⟩ _
      exact ⟨rfl, rfl⟩
  have inv : EchoInv tr conn := run.history EchoInv start fun _ _ _ _ inv st => inv.step st
  refine ⟨?_, inv.sent_first, ?_⟩
  · rintro state rfl
    have ix := inv.indices state rfl
    refine ⟨⟨Nat.zero_le _, ix.written, ix.upto, ix.used⟩, fun cb => ?_⟩
    cases cb with
    | read chunks last =>
      exact ⟨_, _, rfl, nofun⟩
    | write send =>
      obtain ⟨out, rest, e, wrote⟩ := doWrite_spec ix send
      exact ⟨out, rest, e, wrote.inside⟩
  · rintro cb out tr' rfl removed kept
    cases run with
    | @cons _ _ conn₀ _ run st =>
      have before : EchoInv tr' conn₀ := run.history EchoInv start fun _ _ _ _ inv st => inv.step st
      rw [dropped_cons, Nat.add_eq_zero_iff] at kept
      cases conn₀ with
      | none => cases st
      | some state =>
        cases cb with
        | read chunks last =>
          cases st
          cases removed
        | write send =>
          obtain ⟨out', rest, e, wrote⟩ := doWrite_spec (before.indices state rfl) send
          cases Option.some.inj (e.symm.trans st)
          rw [sent_cons, received_cons, Callback.bytes, List.append_nil]
          exact wrote.removed _ _ (before.streams state rfl kept.2) removed

/-- A line and the start of the next one are received; the line is sent in two parts, with `EAGAIN`
between them. -/
theorem line_echo_two_parts :
    let buffer : Vector UInt8 MAX_LINE := Vector.replicate MAX_LINE 0
    ∃ tr conn, Run (Answers callback) (some (allocFdState buffer)) tr conn ∧
      received tr = [97, 10, 98] ∧
      sent tr = throughNewline (received tr) ∧ sent tr = [97, 10] := by
  intro buffer
  let filled : Vector UInt8 MAX_LINE := ((buffer.set 0 97).set 1 10).set 2 98
  have read : Answers callback (some (allocFdState buffer))
      (.read [⟨[97, 10, 98], by decide, by decide⟩] .error, ⟨[], [], 0, false⟩)
        (some ⟨filled, 3, 0, 2, true⟩) := rfl
  have first : Answers callback (some ⟨filled, 3, 0, 2, true⟩)
      (.write fun n => if n = 0 then .sent 0 else .again, ⟨[97], [(0, 2), (1, 1)], 0, false⟩)
      (some ⟨filled, 3, 1, 2, true⟩) := rfl
  have second : Answers callback (some ⟨filled, 3, 1, 2, true⟩)
      (.write fun _ => .sent 5, ⟨[10], [(1, 1)], 0, true⟩) (some ⟨filled, 3, 2, 2, false⟩) := rfl
  have run := Run.cons (.cons (.cons .nil read) first) second
  exact ⟨_, _, run, rfl, (line_echo buffer run).2.2 _ _ _ rfl rfl rfl, rfl⟩

end SweetClib.Libevent
