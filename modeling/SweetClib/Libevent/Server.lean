import SweetClib.Lib.ByteStream
import SweetClib.Libevent.LineEcho

/-!
# The line echo server as a whole

The program `libevent/lowlevel_libevent_server.c` with any number of clients. `do_accept` takes a
connection from the listening socket and adds the read event of its state; libevent then calls
`do_read` whenever there is something to receive, and `do_write` while the write event is added, in
any order (`serverStep`). The descriptor that `accept` returns, how many characters a `recv` gives
and what `send` answers is up to the kernel.

`free_fd_state` frees the events and the state, but closes no socket: a descriptor that was
accepted is never given back.
-/

namespace SweetClib.Libevent
open Lib

/-- C `FD_SETSIZE` -/
def FD_SETSIZE : Nat := 1024

/-- A connection that was accepted: the stream from its client, its state, until that is freed, and
the callbacks. -/
structure Link where
  inp : ByteStream UInt8
  conn : Option FdState
  tr : History

/-- The server: the connections that wait to be accepted, and the open descriptors. -/
structure Server where
  backlog : List (ByteStream UInt8)
  files : Nat → Option Link

/-- What clients do, and the callbacks with the answers of their calls. -/
inductive ServerAction where
  | connect (bs : List UInt8) (ended : Bool)
  | write (fd : Nat) (bs : List UInt8)
  | close (fd : Nat)
  | accept (fd : Nat) (buffer : Vector UInt8 MAX_LINE)
  | read (fd : Nat) (ks : List Nat)
  | send (fd : Nat) (send : Nat → Send)

/-- The calls of `recv` in the loop of `do_read`; one that is not given fails. -/
def recvLoop : ByteStream UInt8 → List Nat → List Chunk × RecvEnd × ByteStream UInt8
  | inp, [] => ([], .error, inp)
  | inp, k :: ks =>
    match e : inp.recv 20 k with
    | (.again, inp) => ([], .error, inp)
    | (.eof, inp) => ([], .closed, inp)
    | (.bytes bs, inp') =>
      have some_byte := ByteStream.recv_bytes (by decide) e
      let (chunks, last, rest) := recvLoop inp' ks
      (⟨bs, some_byte.1, some_byte.2.1⟩ :: chunks, last, rest)

/-- Change one connection. -/
def Server.put (s : Server) (fd : Nat) (link : Link) : Server :=
  { s with files := Function.update s.files fd (some link) }

/-- A callback of a connection. -/
def Link.call (link : Link) (inp : ByteStream UInt8) (cb : Callback) : Option Link :=
  (callback link.conn cb).map fun (out, conn) => ⟨inp, conn, (cb, out) :: link.tr⟩

/-- The write event is added. -/
def Link.armed (link : Link) : Bool := link.conn.any FdState.writeEvent

/-- A step; there is no result when it cannot be taken. -/
def serverStep (s : Server) : ServerAction → Option Server
  | .connect bs ended => some { s with backlog := s.backlog ++ [.fresh bs ended] }
  | .write fd bs => do
    let link ← s.files fd
    let inp ← link.inp.write bs
    return s.put fd { link with inp }
  | .close fd => (s.files fd).map fun link => s.put fd { link with inp := link.inp.finish }
  | .accept fd buffer =>
    match s.backlog with
    | [] => none
    | inp :: backlog =>
      if (s.files fd).isSome then none
      else if fd > FD_SETSIZE then some { s with backlog }
      else some ({ s with backlog }.put fd ⟨inp, some (allocFdState buffer), []⟩)
  | .read fd ks => do
    let link ← s.files fd
    if link.conn.isSome ∧ link.inp.ready then
      let (chunks, last, inp) := recvLoop link.inp ks
      (link.call inp (.read chunks last)).map (s.put fd)
    else none
  | .send fd send => do
    let link ← s.files fd
    if link.armed then (link.call link.inp (.write send)).map (s.put fd) else none

/-- The server before its first client. -/
def listening : Server := ⟨[], fun _ => none⟩

/-- The transitions of the server. -/
def ServerStep (s : Server) (a : ServerAction) (s' : Server) : Prop := serverStep s a = some s'

/-- There is no callback to make for the connection, and its client has not closed. -/
structure Link.Rests (link : Link) : Prop where
  alive : link.conn.isSome
  armed : link.armed = false
  ready : link.inp.ready = false

/-- The client of the descriptor `fd` writes at most 79 characters at a time, a line, and waits
until it has got all of its lines back; it may have written one line before it is accepted. Nothing
is said of the other clients. -/
def LineWrite (fd : Nat) (s : Server) : ServerAction → Prop
  | .accept fd' _ => fd' = fd → ∀ inp ∈ s.backlog.head?,
      inp.wrote = [] ∨ inp.wrote.length < MAX_LINE ∧ inp.wrote.getLast? = some 10
  | .write fd' bs => fd' = fd → bs.length < MAX_LINE ∧ bs.getLast? = some 10 ∧
      ∀ link ∈ s.files fd, sent link.tr = link.inp.wrote
  | _ => True

instance (fd : Nat) (s : Server) (a : ServerAction) : Decidable (LineWrite fd s a) := by
  cases a <;> unfold LineWrite <;> infer_instance

/-- The transitions in which the client of a descriptor writes line by line. -/
def LineStep (fd : Nat) (s : Server) (a : ServerAction) (s' : Server) : Prop :=
  LineWrite fd s a ∧ ServerStep s a s'

/-- The descriptors of the connections that were accepted and not refused. -/
def served (tr : List ServerAction) : List Nat := tr.filterMap fun
  | .accept fd _ => if fd > FD_SETSIZE then none else some fd
  | _ => none

section Callbacks

variable {state state' : FdState} {out : Outcome}

/-- What is received is the next of what the client wrote. -/
lemma recvLoop_spec (ks : List Nat) {inp inp' : ByteStream UInt8} {chunks : List Chunk}
    {last : RecvEnd} (e : recvLoop inp ks = (chunks, last, inp')) :
    inp'.wrote = inp.wrote ∧ inp'.got = inp.got ++ chunks.flatMap Chunk.bytes := by
  induction ks generalizing inp chunks with
  | nil =>
    cases e
    exact ⟨rfl, (List.append_nil _).symm⟩
  | cons k ks ih =>
    rw [recvLoop] at e
    split at e
    · rename_i answer
      cases e
      rw [(ByteStream.recv_again answer).1]
      exact ⟨rfl, (List.append_nil _).symm⟩
    · rename_i answer
      cases e
      rw [(ByteStream.recv_eof answer).1]
      exact ⟨rfl, (List.append_nil _).symm⟩
    · rename_i bs inp₁ answer
      cases e
      obtain ⟨_, _, wrote, got, _⟩ := ByteStream.recv_bytes (by decide) answer
      obtain ⟨wrote', got'⟩ := ih rfl
      refine ⟨wrote'.trans wrote, ?_⟩
      rw [got', got, List.flatMap_cons, List.append_assoc]

/-- What the loop received was unread. -/
lemma unread_recvLoop {ks : List Nat} {inp inp' : ByteStream UInt8} {chunks : List Chunk}
    {last : RecvEnd} (e : recvLoop inp ks = (chunks, last, inp')) :
    chunks.flatMap Chunk.bytes ++ inp'.unread = inp.unread := by
  obtain ⟨wrote, got⟩ := recvLoop_spec ks e
  have all : inp.got ++ (chunks.flatMap Chunk.bytes ++ inp'.unread) = inp.got ++ inp.unread := by
    rw [← List.append_assoc, ← got, inp'.whole, wrote, inp.whole]
  exact List.append_cancel_left all

/-- While there is something to send the write event is added, and it was added for a character. -/
structure Wakes (state : FdState) : Prop where
  armed : state.nWritten < state.writeUpto → state.writeEvent = true
  begun : state.writeEvent = true → 0 < state.bufferUsed

/-- A character keeps the write event set while a line waits. -/
lemma readByte_wakes {r : FdState × Nat} (wakes : Wakes r.1) (c : UInt8) :
    Wakes (readByte r c).1 := by
  by_cases room : r.1.bufferUsed < MAX_LINE
  · rw [readByte_room room]
    split
    · exact ⟨fun _ => rfl, fun _ => Nat.succ_pos _⟩
    · exact ⟨wakes.armed, fun _ => Nat.succ_pos _⟩
  · rw [readByte_full room]
    have used : 0 < r.1.bufferUsed := Nat.lt_of_lt_of_le (by decide) (Nat.not_lt.mp room)
    split
    · exact ⟨fun _ => rfl, fun _ => used⟩
    · exact ⟨wakes.armed, fun _ => used⟩

/-- Characters for which there is room are all stored. -/
lemma readBytes_room (bytes : List UInt8) {r : FdState × Nat}
    (room : r.1.bufferUsed + bytes.length ≤ MAX_LINE) :
    (bytes.foldl readByte r).2 = r.2 ∧
      (bytes.foldl readByte r).1.bufferUsed = r.1.bufferUsed + bytes.length := by
  induction bytes generalizing r with
  | nil => exact ⟨rfl, rfl⟩
  | cons c bytes ih =>
    rw [List.length_cons] at room
    have first := readByte_room (r := r) (by omega) c
    obtain ⟨kept, used⟩ := ih (r := readByte r c) (by rw [first]; dsimp only; omega)
    rw [List.foldl_cons, kept, used, first, List.length_cons]
    exact ⟨rfl, by dsimp only; omega⟩

/-- `do_read` stores the characters of all chunks, and keeps the connection only where it was not
closed. -/
lemma doRead_stored {conn : Option FdState} {chunks : List Chunk} {last : RecvEnd}
    (e : doRead state chunks last = (out, conn)) :
    out = ⟨[], [], ((chunks.flatMap Chunk.bytes).foldl readByte (state, 0)).2, false⟩ ∧
      ∀ state', conn = some state' →
        state' = ((chunks.flatMap Chunk.bytes).foldl readByte (state, 0)).1 := by
  rw [doRead, foldl_readChunk] at e
  cases last with
  | closed =>
    cases e
    refine ⟨rfl, fun state' live => ?_⟩
    cases live
  | error =>
    cases e
    exact ⟨rfl, fun state' live => (Option.some.inj live).symm⟩

/-- So does a read callback. -/
lemma doRead_wakes (wakes : Wakes state) {chunks : List Chunk} {last : RecvEnd}
    (e : doRead state chunks last = (out, some state')) : Wakes state' := by
  rw [(doRead_stored e).2 state' rfl]
  induction chunks.flatMap Chunk.bytes using List.reverseRecOn with
  | nil => exact wakes
  | append_singleton bytes c ih =>
    rw [List.foldl_append]
    exact readByte_wakes ih c

/-- A loop that would block has something left to send. -/
lemma writeLoop_blocked (send : Nat → Send) {rounds : Nat} {out' : Outcome}
    (e : writeLoop send rounds state out = some (.blocked, state', out')) :
    state'.nWritten < state'.writeUpto := by
  induction rounds generalizing state out with
  | zero => cases e
  | succ rounds ih =>
    rw [writeLoop] at e
    split at e
    · rename_i more
      split at e
      · dsimp only at e
        split at e
        · cases e
          exact more
        · cases e
        · exact ih e
      · cases e
    · cases e

/-- A state that `do_write` leaves: there is more to send, or the write event was removed, and the
indices went back to 1 if nothing was left. -/
lemma doWrite_cases (ix : Indices state) {send : Nat → Send}
    (e : doWrite state send = some (out, some state')) :
    state.nWritten ≤ state'.nWritten ∧ state'.nWritten < state.writeUpto ∧
      state' = { state with nWritten := state'.nWritten } ∨
    state'.nWritten = state'.writeUpto ∧ state'.writeEvent = false ∧
      (state'.bufferUsed = 1 ∨ state'.nWritten ≠ state'.bufferUsed ∧
          state'.bufferUsed = state.bufferUsed) := by
  obtain ⟨ending, state₁, out₁, loop, flushed⟩ :=
    writeLoop_spec send ix (Nat.lt_succ_self _) ⟨[], [], 0, false⟩
  rw [doWrite, loop, Option.map_some] at e
  cases ending with
  | blocked =>
    cases e
    have more := writeLoop_blocked send loop
    rw [flushed.state_eq] at more
    exact .inl ⟨flushed.ahead.1, more, flushed.state_eq⟩
  | failed => cases e
  | flushed =>
    cases e
    have upto : state₁.nWritten = state₁.writeUpto := by rw [flushed.complete rfl, flushed.state_eq]
    refine .inr ⟨?_, rfl, ?_⟩
    · dsimp only
      split
      · rfl
      · exact upto
    · dsimp only
      split
      · exact .inl rfl
      · rename_i left
        exact .inr ⟨left, by rw [flushed.state_eq]⟩

/-- So a write callback keeps the event set while a line waits. -/
lemma doWrite_wakes (ix : Indices state) (wakes : Wakes state) {send : Nat → Send}
    (e : doWrite state send = some (out, some state')) : Wakes state' := by
  obtain ⟨ahead, more, same⟩ | ⟨done, event, _⟩ := doWrite_cases ix e
  · rw [same]
    exact ⟨fun _ => wakes.armed (by omega), wakes.begun⟩
  · refine ⟨fun lt => absurd done (Nat.ne_of_lt lt), fun on => ?_⟩
    rw [event] at on
    cases on

end Callbacks

/-- What holds of a connection with any client: what its callbacks received is what was read of the
stream, and the write event is added when it has to be. -/
structure LinkInv (link : Link) : Prop where
  echo : EchoInv link.tr link.conn
  got : received link.tr = link.inp.got
  wakes : ∀ state, link.conn = some state → Wakes state

/-- What holds of a connection with a client that writes line by line: no character is dropped,
there is room for what was not read, and the indices are back when the client has got all of its
lines. -/
structure Lined (link : Link) : Prop where
  kept : dropped link.tr = 0
  room : ∀ state, link.conn = some state → state.bufferUsed + link.inp.unread.length ≤ MAX_LINE
  back : ∀ state, link.conn = some state → sent link.tr = link.inp.wrote → state.bufferUsed ≤ 1
  ends : link.inp.wrote = [] ∨ link.inp.wrote.getLast? = some 10

section Links

variable {link link' : Link} {inp : ByteStream UInt8} {chunks : List Chunk} {last : RecvEnd}

/-- What a callback does to a connection. -/
lemma call_eq {cb : Callback} (st : link.call inp cb = some link') :
    ∃ out conn, callback link.conn cb = some (out, conn) ∧
      link' = ⟨inp, conn, (cb, out) :: link.tr⟩ := by
  obtain ⟨⟨out, conn⟩, called, e⟩ := Option.map_eq_some_iff.mp st
  exact ⟨out, conn, called, e.symm⟩

/-- A new connection. -/
lemma LinkInv.accept (none_read : inp.got = []) (buffer : Vector UInt8 MAX_LINE) :
    LinkInv ⟨inp, some (allocFdState buffer), []⟩ := by
  refine ⟨⟨fun _ => List.prefix_rfl, ?_, ?_⟩, none_read.symm, ?_⟩
  · rintro _ ⟨⟩
    exact ⟨le_rfl, le_rfl, Nat.zero_le _⟩
  · rintro _ ⟨⟩ _
    exact ⟨rfl, rfl⟩
  · rintro _ ⟨⟩
    exact ⟨fun lt => absurd lt (Nat.lt_irrefl _), nofun⟩

/-- A read callback. -/
lemma LinkInv.read (inv : LinkInv link) {ks : List Nat}
    (e : recvLoop link.inp ks = (chunks, last, inp))
    (st : link.call inp (.read chunks last) = some link') : LinkInv link' := by
  obtain ⟨out, conn, called, rfl⟩ := call_eq st
  refine ⟨inv.echo.step called, ?_, fun state' live => ?_⟩
  · rw [received_cons, inv.got]
    exact (recvLoop_spec ks e).2.symm
  · cases before : link.conn with
    | none =>
      rw [before] at called
      cases called
    | some state =>
      rw [before] at called
      cases live
      exact doRead_wakes (inv.wakes state before) (Option.some.inj called)

/-- A write callback. -/
lemma LinkInv.send (inv : LinkInv link) {send : Nat → Send}
    (st : link.call link.inp (.write send) = some link') : LinkInv link' := by
  obtain ⟨out, conn, called, rfl⟩ := call_eq st
  refine ⟨inv.echo.step called, ?_, fun state' live => ?_⟩
  · rw [received_cons, inv.got]
    exact List.append_nil _
  · cases before : link.conn with
    | none =>
      rw [before] at called
      cases called
    | some state =>
      rw [before] at called
      cases live
      exact doWrite_wakes (inv.echo.indices state before) (inv.wakes state before) called

/-- When all that the client wrote was sent back, nothing waits, neither in the buffer nor to be
received. -/
lemma LinkInv.caught_up (inv : LinkInv link) (kept : dropped link.tr = 0) {state : FdState}
    (live : link.conn = some state) (all : sent link.tr = link.inp.wrote) :
    state.nWritten = state.bufferUsed ∧ link.inp.unread = [] := by
  have ix := inv.echo.indices state live
  have streams := (inv.echo.streams state live kept).all
  have whole := link.inp.whole
  rw [← all, ← inv.got, streams, List.append_assoc, List.append_right_eq_self,
    List.append_eq_nil_iff] at whole
  obtain ⟨none_waits, none_unread⟩ := whole
  refine ⟨?_, none_unread⟩
  have length := congrArg List.length none_waits
  rw [between, List.length_drop, List.length_take, Vector.length_toList, List.length_nil] at length
  have used := ix.used
  have written := ix.written.trans ix.upto
  omega

/-- A new connection of a client that has written lines. -/
lemma Lined.accept (room : inp.unread.length < MAX_LINE)
    (ends : inp.wrote = [] ∨ inp.wrote.getLast? = some 10) (buffer : Vector UInt8 MAX_LINE) :
    Lined ⟨inp, some (allocFdState buffer), []⟩ := by
  refine ⟨rfl, ?_, ?_, ends⟩
  · rintro _ ⟨⟩
    exact (Nat.zero_add _).trans_le room.le
  · rintro _ ⟨⟩ _
    exact Nat.zero_le _

/-- The client writes the next line, when it has got all before. -/
lemma Lined.write (lined : Lined link) (inv : LinkInv link) {bs : List UInt8}
    (st : link.inp.write bs = some inp) (short : bs.length < MAX_LINE)
    (ends : bs.getLast? = some 10) (all : sent link.tr = link.inp.wrote) :
    Lined { link with inp } := by
  obtain ⟨_, wrote, _, unread, _⟩ := ByteStream.write_eq_some st
  have some_byte : bs ≠ [] := by
    rintro rfl
    cases ends
  refine ⟨lined.kept, fun state live => ?_, fun state live same => ?_, .inr ?_⟩
  · have back := lined.back state live all
    dsimp only
    rw [unread, (inv.caught_up lined.kept live all).2, List.nil_append]
    omega
  · rw [all] at same
    dsimp only at same
    rw [wrote] at same
    exact absurd (List.self_eq_append_right.mp same) some_byte
  · dsimp only
    rw [wrote, List.getLast?_append, ends]
    rfl

/-- A read callback has room for the lines. -/
lemma Lined.read (lined : Lined link) (inv : LinkInv link) {ks : List Nat}
    (e : recvLoop link.inp ks = (chunks, last, inp))
    (st : link.call inp (.read chunks last) = some link') : Lined link' := by
  obtain ⟨out, conn, called, rfl⟩ := call_eq st
  have unread := unread_recvLoop e
  have wrote := (recvLoop_spec ks e).1
  have length := congrArg List.length unread
  rw [List.length_append] at length
  cases before : link.conn with
  | none =>
    rw [before] at called
    cases called
  | some state =>
    have room := lined.room state before
    obtain ⟨kept, used⟩ :=
      readBytes_room (chunks.flatMap Chunk.bytes) (r := (state, 0)) (by dsimp only; omega)
    rw [before] at called
    have called : some (doRead state chunks last) = some (out, conn) := called
    obtain ⟨rfl, stored⟩ := doRead_stored (Option.some.inj called)
    refine ⟨?_, fun state' live => ?_, fun state' live same => ?_, ?_⟩
    · rw [dropped_cons, lined.kept]
      exact kept
    · rw [stored state' live, used]
      dsimp only
      omega
    · rw [stored state' live, used]
      rw [sent_cons, List.append_nil] at same
      dsimp only at same ⊢
      rw [wrote] at same
      have back := lined.back state before same
      rw [(inv.caught_up lined.kept before same).2, List.length_nil] at length
      omega
    · exact wrote ▸ lined.ends

/-- A write callback is called when its event is added. -/
lemma Lined.send (lined : Lined link) (inv : LinkInv link) (armed : link.armed = true)
    {send : Nat → Send} (st : link.call link.inp (.write send) = some link') : Lined link' := by
  have inv' := inv.send st
  obtain ⟨out, conn, called, rfl⟩ := call_eq st
  cases before : link.conn with
  | none =>
    rw [before] at called
    cases called
  | some state =>
    have ix := inv.echo.indices state before
    obtain ⟨out', rest, wrote_eq, wrote⟩ := doWrite_spec ix send
    rw [before] at called
    have called : doWrite state send = some (out, conn) := called
    cases Option.some.inj (wrote_eq.symm.trans called)
    have kept : dropped ((Callback.write send, out) :: link.tr) = 0 := by
      rw [dropped_cons, wrote.kept, lined.kept]
    have room := lined.room state before
    have begun := (inv.wakes state before).begun (by rw [Link.armed, before] at armed; exact armed)
    refine ⟨kept, fun state' live => ?_, fun state' live same => ?_, lined.ends⟩
    · dsimp only at live ⊢
      rw [live] at called
      obtain ⟨_, _, same⟩ | ⟨_, _, one | ⟨_, same⟩⟩ := doWrite_cases ix called
      · rw [same]
        exact room
      · omega
      · omega
    · have up := (inv'.caught_up kept live same).1
      dsimp only at live
      rw [live] at called
      have upto := ix.upto
      obtain ⟨_, more, same⟩ | ⟨_, _, one | ⟨left, _⟩⟩ := doWrite_cases ix called
      · have used : state'.bufferUsed = state.bufferUsed := by rw [same]
        omega
      · exact one.le
      · exact absurd up left

end Links

/-- What holds of the connections that wait, and of those that were accepted, by their
descriptors. -/
structure ServerInv (Q : ByteStream UInt8 → Prop) (P : Nat → Link → Prop) (s : Server) : Prop where
  backlog : ∀ inp ∈ s.backlog, Q inp
  files : ∀ fd link, s.files fd = some link → P fd link

section Server

variable {s s' : Server} {a : ServerAction} {Q : ByteStream UInt8 → Prop} {P : Nat → Link → Prop}

/-- One connection has changed. -/
lemma ServerInv.put (inv : ServerInv Q P s) {fd : Nat} {link : Link} (holds : P fd link) :
    ServerInv Q P (s.put fd link) := by
  refine ⟨inv.backlog, fun fd' link' e => ?_⟩
  have e : Function.update s.files fd (some link) fd' = some link' := e
  rw [Function.update_apply] at e
  split at e
  · rename_i same
    cases e
    rw [same]
    exact holds
  · exact inv.files fd' link' e

/-- What holds of every connection, if it holds of a new one, and what the client and the callbacks
do keeps it. -/
lemma ServerInv.step (inv : ServerInv Q P s) (st : ServerStep s a s')
    (connect : ∀ bs ended, Q (.fresh bs ended))
    (accept : ∀ fd inp buffer, a = .accept fd buffer → s.backlog.head? = some inp → Q inp →
      P fd ⟨inp, some (allocFdState buffer), []⟩)
    (write : ∀ fd bs link inp, a = .write fd bs → s.files fd = some link → P fd link →
      link.inp.write bs = some inp → P fd { link with inp })
    (close : ∀ fd link, P fd link → P fd { link with inp := link.inp.finish })
    (read : ∀ fd link link' ks chunks last inp, P fd link →
      recvLoop link.inp ks = (chunks, last, inp) →
      link.call inp (.read chunks last) = some link' → P fd link')
    (send : ∀ fd link link' send, P fd link → link.armed = true →
      link.call link.inp (.write send) = some link' → P fd link') :
    ServerInv Q P s' := by
  have st : serverStep s a = some s' := st
  cases a with
  | connect bs ended =>
    cases st
    refine ⟨fun inp mem => ?_, inv.files⟩
    obtain mem | mem := List.mem_append.mp mem
    · exact inv.backlog inp mem
    · rw [List.mem_singleton.mp mem]
      exact connect bs ended
  | write fd bs =>
    obtain ⟨link, file, st⟩ := Option.bind_eq_some_iff.mp st
    obtain ⟨inp, wrote, st⟩ := Option.bind_eq_some_iff.mp st
    cases st
    exact inv.put (write fd bs link inp rfl file (inv.files fd link file) wrote)
  | close fd =>
    obtain ⟨link, file, rfl⟩ := Option.map_eq_some_iff.mp st
    exact inv.put (close fd link (inv.files fd link file))
  | accept fd buffer =>
    rw [serverStep] at st
    split at st
    · cases st
    · rename_i inp backlog waits
      have rest : ServerInv Q P { s with backlog } :=
        ⟨fun inp' mem => inv.backlog inp' (waits ▸ List.mem_cons_of_mem _ mem), inv.files⟩
      obtain ⟨_, st⟩ := Option.ite_none_left_eq_some.mp st
      split at st
      · cases st
        exact rest
      · cases st
        exact rest.put (accept fd inp buffer rfl (by rw [waits]; rfl)
          (inv.backlog inp (waits ▸ List.mem_cons_self)))
  | read fd ks =>
    obtain ⟨link, file, st⟩ := Option.bind_eq_some_iff.mp st
    obtain ⟨_, st⟩ := Option.ite_none_right_eq_some.mp st
    obtain ⟨link', called, rfl⟩ := Option.map_eq_some_iff.mp st
    exact inv.put (read fd link link' ks _ _ _ (inv.files fd link file) rfl called)
  | send fd answers =>
    obtain ⟨link, file, st⟩ := Option.bind_eq_some_iff.mp st
    obtain ⟨armed, st⟩ := Option.ite_none_right_eq_some.mp st
    obtain ⟨link', called, rfl⟩ := Option.map_eq_some_iff.mp st
    exact inv.put (send fd link link' answers (inv.files fd link file) armed called)

/-- Of every connection. -/
lemma linkInv_step (inv : ServerInv (·.got = []) (fun _ => LinkInv) s) (st : ServerStep s a s') :
    ServerInv (·.got = []) (fun _ => LinkInv) s' := by
  refine inv.step st (fun _ _ => rfl) (fun _ _ buffer _ _ none_read => .accept none_read buffer)
    ?_ ?_ ?_ ?_
  · intro fd bs link inp _ _ holds wrote
    exact ⟨holds.echo, holds.got.trans (ByteStream.write_eq_some wrote).2.2.1.symm, holds.wakes⟩
  · exact fun fd link holds => ⟨holds.echo, holds.got, holds.wakes⟩
  · exact fun fd link link' ks chunks last inp holds e called => holds.read e called
  · exact fun fd link link' send holds _ called => holds.send called

/-- Of every connection, and of that of the descriptor `fd` what its client does for it. -/
def LinedAt (fd fd' : Nat) (link : Link) : Prop := LinkInv link ∧ (fd' = fd → Lined link)

/-- Every step keeps what holds of the connection. -/
lemma lined_step {fd : Nat} (inv : ServerInv (·.got = []) (LinedAt fd) s)
    (st : LineStep fd s a s') : ServerInv (·.got = []) (LinedAt fd) s' := by
  obtain ⟨line, st⟩ := st
  refine inv.step st (fun _ _ => rfl) ?_ ?_ ?_ ?_ ?_
  · rintro fd' inp buffer rfl first none_read
    refine ⟨.accept none_read buffer, fun here => ?_⟩
    have unread : inp.unread = inp.wrote := by
      have whole := inp.whole
      rw [none_read, List.nil_append] at whole
      exact whole
    obtain none_wrote | ⟨short, ends⟩ := line here inp first
    · refine .accept ?_ (.inl none_wrote) buffer
      rw [unread, none_wrote]
      decide
    · exact .accept (by rw [unread]; exact short) (.inr ends) buffer
  · rintro fd' bs link inp rfl file ⟨holds, lined⟩ wrote
    refine ⟨⟨holds.echo, holds.got.trans (ByteStream.write_eq_some wrote).2.2.1.symm, holds.wakes⟩,
      fun here => ?_⟩
    obtain ⟨short, ends, all⟩ := line here
    exact (lined here).write holds wrote short ends (all link (here ▸ file))
  · rintro fd' link ⟨holds, lined⟩
    refine ⟨⟨holds.echo, holds.got, holds.wakes⟩, fun here => ?_⟩
    obtain ⟨kept, room, back, ends⟩ := lined here
    exact ⟨kept, room, back, ends⟩
  · rintro fd' link link' ks chunks last inp ⟨holds, lined⟩ e called
    exact ⟨holds.read e called, fun here => (lined here).read holds e called⟩
  · rintro fd' link link' send ⟨holds, lined⟩ armed called
    exact ⟨holds.send called, fun here => (lined here).send holds armed called⟩

/-- At rest all lines were sent back. -/
lemma LinkInv.echoed {link : Link} (inv : LinkInv link) (rests : link.Rests)
    (kept : dropped link.tr = 0) : sent link.tr = throughNewline link.inp.wrote := by
  obtain ⟨state, live⟩ := Option.isSome_iff_exists.mp rests.alive
  have ix := inv.echo.indices state live
  have streams := inv.echo.streams state live kept
  have off : state.writeEvent = false := by
    have off := rests.armed
    rw [Link.armed, live] at off
    exact off
  have upto : state.nWritten = state.writeUpto := by
    by_contra more
    have on := (inv.wakes state live).armed (Nat.lt_of_le_of_ne ix.written more)
    rw [off] at on
    cases on
  have lines := streams.lines
  rw [upto, between_self, List.append_nil, inv.got,
    (ByteStream.got_of_not_ready rests.ready).1] at lines
  exact lines.symm

/-- A descriptor stays open, and one that is accepted was not open before. -/
lemma files_step (st : ServerStep s a s') :
    (∀ fd, (s.files fd).isSome → (s'.files fd).isSome) ∧
    ∀ fd ∈ served [a], s.files fd = none ∧ (s'.files fd).isSome ∧ fd ≤ FD_SETSIZE := by
  have put : ∀ {s : Server} fd link, ∀ fd', (s.files fd').isSome →
      ((s.put fd link).files fd').isSome := by
    intro s fd link fd' opened
    show (Function.update s.files fd (some link) fd').isSome
    rw [Function.update_apply]
    split
    · rfl
    · exact opened
  have st : serverStep s a = some s' := st
  cases a with
  | connect bs ended =>
    cases st
    exact ⟨fun _ => id, nofun⟩
  | write fd bs =>
    obtain ⟨link, file, st⟩ := Option.bind_eq_some_iff.mp st
    obtain ⟨inp, wrote, st⟩ := Option.bind_eq_some_iff.mp st
    cases st
    exact ⟨put fd _, nofun⟩
  | close fd =>
    obtain ⟨link, file, rfl⟩ := Option.map_eq_some_iff.mp st
    exact ⟨put fd _, nofun⟩
  | accept fd buffer =>
    rw [serverStep] at st
    split at st
    · cases st
    · rename_i inp backlog waits
      obtain ⟨closed, st⟩ := Option.ite_none_left_eq_some.mp st
      split at st
      · rename_i above
        cases st
        refine ⟨fun _ => id, fun fd' mem => ?_⟩
        simp [served, above] at mem
      · rename_i fits
        cases st
        refine ⟨put (s := { s with backlog }) fd _, fun fd' mem => ?_⟩
        have same : fd' = fd := by simpa [served, fits] using mem
        subst same
        refine ⟨Option.not_isSome_iff_eq_none.mp closed, ?_, Nat.not_lt.mp fits⟩
        show (Function.update s.files fd' _ fd').isSome
        rw [Function.update_self]
        rfl
  | read fd ks =>
    obtain ⟨link, file, st⟩ := Option.bind_eq_some_iff.mp st
    obtain ⟨_, st⟩ := Option.ite_none_right_eq_some.mp st
    obtain ⟨link', called, rfl⟩ := Option.map_eq_some_iff.mp st
    exact ⟨put fd _, nofun⟩
  | send fd answers =>
    obtain ⟨link, file, st⟩ := Option.bind_eq_some_iff.mp st
    obtain ⟨armed, st⟩ := Option.ite_none_right_eq_some.mp st
    obtain ⟨link', called, rfl⟩ := Option.map_eq_some_iff.mp st
    exact ⟨put fd _, nofun⟩

end Server

/-- Every descriptor that was served stays open, so that no two connections have the same one. -/
lemma run_served {tr : List ServerAction} {s : Server} (run : Run ServerStep listening tr s) :
    (served tr).Nodup ∧ ∀ fd ∈ served tr, (s.files fd).isSome ∧ fd ≤ FD_SETSIZE := by
  refine run.history (fun tr s => (served tr).Nodup ∧ ∀ fd ∈ served tr, (s.files fd).isSome ∧
    fd ≤ FD_SETSIZE)
    ⟨List.nodup_nil, nofun⟩ ?_
  rintro tr s a s' ⟨distinct, opened⟩ st
  obtain ⟨stays, new⟩ := files_step st
  have split : served (a :: tr) = served [a] ++ served tr := List.filterMap_append (l := [a]) ..
  rw [split]
  refine ⟨List.nodup_append.mpr ⟨?_, distinct, ?_⟩, fun fd mem => ?_⟩
  · have short : (served [a]).length ≤ 1 := List.length_filterMap_le ..
    rcases e : served [a] with _ | ⟨fd, _ | ⟨_, _⟩⟩
    · exact List.nodup_nil
    · exact List.nodup_singleton fd
    · rw [e, List.length_cons, List.length_cons] at short
      omega
  · rintro fd mem _ mem' rfl
    have before := (opened fd mem').1
    rw [(new fd mem).1] at before
    cases before
  · obtain mem | mem := List.mem_append.mp mem
    · exact (new fd mem).2
    · exact ⟨stays fd (opened fd mem).1, (opened fd mem).2⟩

/-- Over every run with any clients: at rest a connection that has dropped no character has sent
back what was written up to the last newline. A client that writes lines of less than 80
characters, and the next one when it has got back the last, never has one dropped, and gets back
all of them, whatever the other clients do. No descriptor is given back, and the server serves no
more than `FD_SETSIZE + 1` connections. -/
theorem line_echo_server {tr : List ServerAction} {s : Server}
    (run : Run ServerStep listening tr s) :
    (∀ fd link, s.files fd = some link → link.Rests → dropped link.tr = 0 →
      sent link.tr = throughNewline link.inp.wrote) ∧
    (∀ fd link, Run (LineStep fd) listening tr s → s.files fd = some link →
      dropped link.tr = 0 ∧ (link.Rests → sent link.tr = link.inp.wrote)) ∧
    (∀ fd ∈ served tr, (s.files fd).isSome) ∧ (served tr).length ≤ FD_SETSIZE + 1 := by
  have inv : ServerInv (·.got = []) (fun _ => LinkInv) s :=
    run.invariant _ ⟨nofun, nofun⟩ fun _ _ _ inv st => linkInv_step inv st
  obtain ⟨distinct, opened⟩ := run_served run
  refine ⟨fun fd link file rests kept => (inv.files fd link file).echoed rests kept, ?_,
    fun fd mem => (opened fd mem).1, ?_⟩
  · intro fd link lines file
    have lined : ServerInv (·.got = []) (LinedAt fd) s :=
      lines.invariant _ ⟨nofun, nofun⟩ fun _ _ _ inv st => lined_step inv st
    obtain ⟨holds, lined⟩ := lined.files fd link file
    have lined := lined rfl
    refine ⟨lined.kept, fun rests => ?_⟩
    rw [holds.echoed rests lined.kept]
    refine List.rdropWhile_eq_self_iff.mpr fun some_byte other => ?_
    obtain none_wrote | ends := lined.ends
    · exact some_byte none_wrote
    · rw [List.getLast?_eq_getLast_of_ne_nil some_byte, Option.some.injEq] at ends
      exact of_decide_eq_true other ends
  · have inside : served tr ⊆ List.range (FD_SETSIZE + 1) := fun fd mem =>
      List.mem_range.mpr (Nat.lt_succ_of_le (opened fd mem).2)
    exact (distinct.subperm inside).length_le.trans_eq List.length_range

/-- Two clients: one writes a line, which is received in two parts and sent back, and the other one
writes 200 characters without waiting. -/
theorem line_echo_server_one :
    ∃ tr s link other, Run ServerStep listening tr s ∧ s.files 7 = some link ∧ link.Rests ∧
      served tr = [8, 7] ∧ sent link.tr = link.inp.wrote ∧ link.inp.wrote = [97, 98, 10] ∧
      s.files 8 = some other ∧ other.inp.wrote.length = 200 := by
  let tr : List ServerAction := [.send 7 fun _ => .sent 2, .write 8 (List.replicate 200 120),
    .read 7 [1, 5, 0], .accept 8 (Vector.replicate MAX_LINE 0),
    .accept 7 (Vector.replicate MAX_LINE 0), .connect [] false, .connect [97, 98, 10] false]
  let step (s : Server) (a : ServerAction) := if LineWrite 7 s a then serverStep s a else none
  have all : (exec step listening tr).any (fun s =>
      ((s.files 7).any fun link => link.conn.isSome && !link.armed && !link.inp.ready &&
        decide (link.inp.wrote = [97, 98, 10])) &&
      (s.files 8).any fun other => decide (other.inp.wrote.length = 200)) = true := by
    decide +kernel
  obtain ⟨s, e, facts⟩ := (Option.any_eq_true _ _).mp all
  rw [Bool.and_eq_true] at facts
  obtain ⟨link, file, facts₁⟩ := (Option.any_eq_true _ _).mp facts.1
  obtain ⟨other, file', facts₂⟩ := (Option.any_eq_true _ _).mp facts.2
  simp only [Bool.and_eq_true, Bool.not_eq_true', decide_eq_true_eq] at facts₁
  obtain ⟨⟨⟨alive, armed⟩, ready⟩, wrote⟩ := facts₁
  have lines : Run (LineStep 7) listening tr s :=
    (exec_run e).mono fun s a _ s' st => Option.ite_none_right_eq_some.mp st
  have run : Run ServerStep listening tr s := lines.mono fun s a _ s' st => st.2
  obtain ⟨_, line, _⟩ := line_echo_server run
  have rests : link.Rests := ⟨alive, armed, ready⟩
  exact ⟨tr, s, link, other, run, file, rests, rfl, (line 7 link lines file).2 rests, wrote, file',
    of_decide_eq_true facts₂⟩

end SweetClib.Libevent
