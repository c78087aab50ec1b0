import Mathlib.Data.List.TakeWhile
import SweetClib.Lib.ByteStream
import SweetClib.Lib.Descriptors
import SweetClib.Lib.Run

/-!
# Level-triggered and edge-triggered reading

`lib/epoll/diff_LT_ET.c`: a server that prints what its connections send, with one of two functions
that handle the events of `epoll_wait`. `lt` reads once for an event and relies on being told
again; `et` reads until `EAGAIN`. The file calls `lt` and has the call of `et` as a comment.

A step of `lt` handles one event. A step of `et` handles the beginning of an event, or one `recv`
of its loop. After the end of a stream the loop of `et` closes the descriptor and goes on: the next
`recv` fails with `EBADF`, the descriptor is closed again in vain, and the loop ends. The listening
socket is edge-triggered with either function.

The result of `recv` is given to a step: an error other than `EAGAIN`, or how many bytes the kernel
would give.
-/

namespace SweetClib.Epoll.Levels
open SweetClib.Lib SweetClib.Lib.Epoll

def MAX_EVENT_NUMBER : Nat := 1024

def BUFFER_SIZE : Nat := 10

/-- Which function handles the events. -/
inductive Mode where
  | lt
  | et
deriving DecidableEq

/-- A connection with the contents that were printed for it, one for each `recv`. -/
structure Conn where
  stream : ByteStream UInt8
  chunks : List (List UInt8)
  join : chunks.flatten = stream.got

/-- A connection of which nothing was read. -/
def Conn.fresh (early : List UInt8) (ended : Bool) : Conn := ⟨.fresh early ended, [], rfl⟩

/-- The chunks, and one more, are what was read. -/
lemma Conn.join_recv {c : Conn} {k : Nat} {bs : List UInt8} {st : ByteStream UInt8}
    (e : c.stream.recv (BUFFER_SIZE - 1) k = (.bytes bs, st)) :
    (c.chunks ++ [bs]).flatten = st.got := by
  obtain ⟨_, _, _, got, _⟩ := ByteStream.recv_bytes (by decide) e
  rw [List.flatten_append, List.flatten_singleton, c.join, got]

/-- `recv` into `buf`, and the line that is printed for bytes. -/
def Conn.recv (c : Conn) (k : Nat) : Recv UInt8 × Conn :=
  match e : c.stream.recv (BUFFER_SIZE - 1) k with
  | (.bytes bs, st) => (.bytes bs, ⟨st, c.chunks ++ [bs], Conn.join_recv e⟩)
  | (.eof, _) => (.eof, c)
  | (.again, _) => (.again, c)

/-- Bytes come from a socket that is ready. -/
lemma Conn.ready_of_recv {c c' : Conn} {k : Nat} {bs : List UInt8}
    (e : c.recv k = (.bytes bs, c')) : c.stream.ready = true := by
  rw [Conn.recv] at e
  split at e
  · rename_i got
    exact ByteStream.ready_of_bytes (by decide) got
  · cases e
  · cases e

/-- `recv` returns 0 at the end of what the client wrote. -/
lemma Conn.recv_eof {c c' : Conn} {k : Nat} (e : c.recv k = (.eof, c')) :
    c.stream.ended = true ∧ c.stream.got = c.stream.wrote := by
  rw [Conn.recv] at e
  split at e
  · cases e
  · obtain ⟨_, none, ended⟩ := ByteStream.recv_eof ‹_›
    exact ⟨ended, by rw [← c.stream.whole, none, List.append_nil]⟩
  · cases e

/-- `recv` would block on a socket that is not ready. -/
lemma Conn.recv_again {c c' : Conn} {k : Nat} (e : c.recv k = (.again, c')) :
    c.stream.ready = false := by
  rw [Conn.recv] at e
  split at e
  · cases e
  · cases e
  · exact (ByteStream.recv_again ‹_›).2

/-- A write of the client changes no chunk. -/
lemma Conn.join_write {c : Conn} {bs : List UInt8} {st : ByteStream UInt8}
    (e : c.stream.write bs = some st) : c.chunks.flatten = st.got := by
  obtain ⟨_, _, got, _⟩ := ByteStream.write_eq_some e
  rw [got, c.join]

/-- The peer writes. -/
def Conn.write (c : Conn) (bs : List UInt8) : Option Conn :=
  match e : c.stream.write bs with
  | some st => some ⟨st, c.chunks, Conn.join_write e⟩
  | none => none

/-- The peer closes. -/
def Conn.finish (c : Conn) : Conn := ⟨c.stream.finish, c.chunks, c.join⟩

/-- What `%s` prints of the bytes; `buf` was cleared and has one more byte than are read. -/
def content (bs : List UInt8) : List UInt8 := bs.takeWhile (· ≠ 0)

/-- The contents that were printed for a connection. -/
def Conn.shown (c : Conn) : List UInt8 := (c.chunks.map content).flatten

/-- What is ready on a socket. -/
def poll : Sock Conn → Events := Sock.poll fun c => c.stream.ready

/-- The server, with the events to be handled and, in `et`, the descriptor that its loop reads. -/
structure Server where
  kernel : Kernel Nat (Sock Conn)
  events : List (Nat × Events)
  reading : Option Nat

/-- The steps of peers and of the server. -/
inductive Action where
  | connect
  | write (f : Nat) (bs : List UInt8)
  | finish (f : Nat)
  | wait (fs : List Nat)
  | handle (conn : Option (Nat × List UInt8 × Bool)) (result : Option Nat)
  | recv (result : Option Nat)

/-- What `addfd` asks for. -/
def interest (enableEt : Bool) : Interest := ⟨true, false, enableEt, false⟩

/-- Register a descriptor for input (C `addfd`). -/
def addfd (k : Kernel Nat (Sock Conn)) (fd : Nat) (enableEt : Bool) : Kernel Nat (Sock Conn) :=
  k.add poll fd (interest enableEt)

section Program

variable (listenfd : Nat)

/-- `accept` with its result and the connection, and `addfd`. -/
def accept (s : Server) (enableEt : Bool) (conn : Option (Nat × List UInt8 × Bool)) :
    Option Server :=
  match conn, s.kernel.files listenfd with
  -- `addfd` of the result -1 does nothing
  | none, _ => some s
  | some (connfd, early, ended), some (.listening (backlog + 1)) =>
    if s.kernel.files connfd = none then
      let kernel :=
        (s.kernel.put listenfd (.listening backlog)).put connfd (.conn (.fresh early ended))
      some { s with kernel := addfd kernel connfd enableEt }
    else none
  | _, _ => none

/-- One event of `lt`. -/
def lt (s : Server) (conn : Option (Nat × List UInt8 × Bool)) (result : Option Nat) :
    Option Server :=
  match s.events with
  | [] => none
  | (sockfd, r) :: events =>
    if sockfd = listenfd then accept listenfd { s with events } false conn
    else if r.input then
      match s.kernel.files sockfd, result with
      | some (.conn c), some k =>
        match c.recv k with
        | (.bytes _, c') => some { s with events, kernel := s.kernel.put sockfd (.conn c') }
        | _ => some { s with events, kernel := s.kernel.close sockfd }
      | _, _ => some { s with events, kernel := s.kernel.close sockfd }
    else some { s with events }

/-- The beginning of an event in `et`. -/
def et (s : Server) (conn : Option (Nat × List UInt8 × Bool)) : Option Server :=
  match s.events with
  | [] => none
  | (sockfd, r) :: events =>
    if sockfd = listenfd then accept listenfd { s with events } true conn
    else if r.input then some { s with events, reading := some sockfd }
    else some { s with events }

/-- One `recv` of the loop in `et`. -/
def etRecv (s : Server) (sockfd : Nat) (result : Option Nat) : Server :=
  match s.kernel.files sockfd, result with
  | some (.conn c), some k =>
    match c.recv k with
    | (.bytes _, c') => { s with kernel := s.kernel.put sockfd (.conn c') }
    -- there is no `break`
    | (.eof, _) => { s with kernel := s.kernel.close sockfd }
    | (.again, _) => { s with reading := none }
  | _, _ => { s with kernel := s.kernel.close sockfd, reading := none }

/-- A step; there is none where it cannot be taken. -/
def levelsStep (mode : Mode) (s : Server) : Action → Option Server
  | .connect =>
    match s.kernel.files listenfd with
    | some (.listening backlog) =>
      some { s with kernel := s.kernel.arrive listenfd (.listening (backlog + 1)) .onInput }
    | _ => none
  | .write f bs =>
    match s.kernel.files f with
    | some (.conn c) =>
      (c.write bs).map fun c => { s with kernel := s.kernel.arrive f (.conn c) .onInput }
    | _ => none
  | .finish f =>
    match s.kernel.files f with
    | some (.conn c) => some { s with kernel := s.kernel.arrive f (.conn c.finish) .onInput }
    | _ => none
  | .wait fs =>
    if s.events = [] ∧ s.reading = none ∧ fs.Nodup ∧ fs.length ≤ MAX_EVENT_NUMBER then
      (s.kernel.wait poll fs).map fun w => { s with events := w.1, kernel := w.2 }
    else none
  | .handle conn result =>
    if s.reading = none then
      match mode with
      | .lt => lt listenfd s conn result
      | .et => et listenfd s conn
    else none
  | .recv result => s.reading.map fun sockfd => etRecv s sockfd result

/-- The transitions. -/
def LevelsTrans (mode : Mode) (s : Server) (a : Action) (s' : Server) : Prop :=
  levelsStep listenfd mode s a = some s'

/-- The server after `addfd(epollfd, listenfd, true)`. -/
def levelsNew : Server where
  kernel := addfd (Kernel.put ⟨.empty, fun _ => none⟩ listenfd (.listening 0)) listenfd true
  events := []
  reading := none

end Program

/-- The descriptors in the hands of the program. The listening socket is counted as one; others
only with `et`, since a level-triggered descriptor stays on the list. -/
def Server.busy (s : Server) (listenfd : Nat) (mode : Mode) (f : Nat) : Prop :=
  f = listenfd ∨ (mode = .et ∧ ((∃ r, (f, r) ∈ s.events) ∨ s.reading = some f))

/-- Connections are registered with the interest of the mode, events are for different open
descriptors on which there is something to read, and nothing is forgotten. -/
structure Inv (listenfd : Nat) (mode : Mode) (s : Server) : Prop where
  interests : ∀ f e, s.kernel.table f = some e →
    (f ≠ listenfd → e.interest = interest (mode = .et)) ∧ e.interest.oneshot = false ∧
      e.enabled = true
  listening : ∃ c, s.kernel.files listenfd = some c ∧ c.isConn = false
  conns : ∀ f c, f ≠ listenfd → s.kernel.files f = some c → c.isConn = true ∧
    (s.kernel.table f).isSome = true
  distinct : (s.events.map Prod.fst).Nodup
  events : ∀ f r, (f, r) ∈ s.events → r.input = true ∧ ∃ c, s.kernel.files f = some c ∧
    (poll c).input = true
  reading : ∀ f, s.reading = some f → mode = .et ∧ f ≠ listenfd ∧ ∀ r, (f, r) ∉ s.events
  sound : Sound poll s.kernel (s.busy listenfd mode)

section Steps

variable {listenfd : Nat} {mode : Mode} {s s' : Server} {a : Action}

/-- The invariant holds with the listening socket alone. -/
lemma Inv.new : Inv listenfd mode (levelsNew listenfd) := by
  have table : (levelsNew listenfd).kernel.table =
      Function.update Table.empty listenfd (some ⟨interest true, true, false⟩) := by
    rw [levelsNew, addfd, Kernel.add_table rfl, Kernel.ready_of_files Kernel.put_files_self]
    rfl
  refine ⟨fun f e at_f => ?_, ⟨_, Kernel.put_files_self, rfl⟩, fun f c ne at_f => ?_, .nil, nofun,
    nofun, (Sound.put .empty (.inl rfl)).add Kernel.put_files_self⟩
  · rw [table] at at_f
    by_cases same : f = listenfd
    · subst same
      rw [Function.update_self] at at_f
      cases at_f
      exact ⟨fun ne => absurd rfl ne, rfl, rfl⟩
    · rw [Function.update_of_ne same] at at_f
      cases at_f
  · cases (Kernel.put_files_of_ne ne).symm.trans at_f

/-- A connection is not the listening socket. -/
lemma Inv.ne_listenfd (inv : Inv listenfd mode s) {f : Nat} {c : Conn}
    (open_f : s.kernel.files f = some (.conn c)) : f ≠ listenfd := by
  rintro rfl
  obtain ⟨l, at_f, listening⟩ := inv.listening
  cases open_f.symm.trans at_f
  cases listening

/-- The state of a socket changes, and the table and the lists of the program stay as they are. -/
lemma Inv.change (inv : Inv listenfd mode s) {kernel : Kernel Nat (Sock Conn)} {f : Nat}
    {c c' : Sock Conn} (open_f : s.kernel.files f = some c)
    (files : kernel.files = (s.kernel.put f c').files) (kind : c'.isConn = c.isConn)
    (still : ∀ r, (f, r) ∈ s.events → (poll c').input = true)
    (interests : ∀ f e, kernel.table f = some e →
      (f ≠ listenfd → e.interest = interest (mode = .et)) ∧ e.interest.oneshot = false ∧
      e.enabled = true)
    (registered : ∀ g, (kernel.table g).isSome = (s.kernel.table g).isSome)
    (sound : Sound poll kernel (s.busy listenfd mode)) : Inv listenfd mode { s with kernel } := by
  have other : ∀ g, g ≠ f → kernel.files g = s.kernel.files g := fun g ne => by
    rw [files, Kernel.put_files_of_ne ne]
  have here : kernel.files f = some c' := by rw [files, Kernel.put_files_self]
  refine ⟨interests, ?_, fun g x ne at_g => ?_, inv.distinct, fun g r mem => ?_, inv.reading, sound⟩
  · obtain ⟨l, at_l, listening⟩ := inv.listening
    by_cases same : listenfd = f
    · subst same
      cases open_f.symm.trans at_l
      exact ⟨c', here, kind.trans listening⟩
    · exact ⟨l, (other _ same).trans at_l, listening⟩
  · show x.isConn = true ∧ (kernel.table g).isSome = true
    rw [registered]
    by_cases same : g = f
    · subst same
      cases here.symm.trans at_g
      exact ⟨kind.trans (inv.conns g c ne open_f).1, (inv.conns g c ne open_f).2⟩
    · exact inv.conns g x ne ((other g same).symm.trans at_g)
  · obtain ⟨input, x, at_g, ready⟩ := inv.events g r mem
    by_cases same : g = f
    · subst same
      exact ⟨input, c', here, still r mem⟩
    · exact ⟨input, x, (other g same).trans at_g, ready⟩

/-- Something happens on a socket. -/
lemma Inv.arrive (inv : Inv listenfd mode s) {f : Nat} {c c' : Sock Conn}
    (open_f : s.kernel.files f = some c) (kind : c'.isConn = c.isConn)
    (gets : (poll c).input = true → (poll c').input = true) :
    Inv listenfd mode { s with kernel := s.kernel.arrive f c' .onInput } := by
  refine inv.change open_f rfl kind (fun r mem => ?_) (fun g e at_g => ?_)
    (fun g => isSome_of_interest (Table.wake_interest s.kernel.table f .onInput g))
    (inv.sound.arrive open_f fun i some => ?_)
  · obtain ⟨_, x, at_f, ready⟩ := inv.events f r mem
    cases open_f.symm.trans at_f
    exact gets ready
  · change s.kernel.table.wake f .onInput g = some e at at_g
    rw [Table.wake] at at_g
    by_cases same : g = f
    · subst same
      rw [Function.update_self] at at_g
      obtain ⟨e₀, before, rfl⟩ := Option.map_eq_some_iff.mp at_g
      exact inv.interests g e₀ before
    · rw [Function.update_of_ne same] at at_g
      exact inv.interests g e at_g
  · exact (Interest.select_ne_none _ _).mpr (.inl ⟨(Sock.select_poll.mp some).1, Bool.or_true _⟩)

/-- The server waits for events. -/
lemma Inv.wait (inv : Inv listenfd mode s) {fs : List Nat} {events : List (Nat × Events)}
    {kernel : Kernel Nat (Sock Conn)} (done : s.events = []) (rest : s.reading = none)
    (nodup : fs.Nodup) (st : s.kernel.wait poll fs = some (events, kernel)) :
    Inv listenfd mode { s with events, kernel } := by
  obtain ⟨waited, files⟩ := Kernel.wait_eq_some st
  have interests := Table.wait_interest waited
  have on := Table.wait_enabled waited fun f e at_f => (inv.interests f e at_f).2
  refine ⟨fun f e at_f => ⟨fun ne => ?_, on f e at_f⟩, by
    rw [files]; exact inv.listening, fun f c ne at_f => ?_,
    (Table.wait_sublist waited).nodup nodup, fun f r mem => ?_, fun f at_f => ?_,
    (inv.sound.wait st).mono fun g _ => ?_⟩
  · have same := interests f
    rw [at_f] at same
    obtain ⟨e₀, before, interest⟩ := Option.map_eq_some_iff.mp same.symm
    rw [← interest]
    exact (inv.interests f e₀ before).1 ne
  · rw [isSome_of_interest (interests f)]
    exact inv.conns f c ne (files ▸ at_f)
  · obtain ⟨some, i, at_f, rfl⟩ := Table.wait_reports waited mem
    obtain ⟨e, here, rfl⟩ := Option.map_eq_some_iff.mp at_f
    obtain ⟨c, open_f⟩ := inv.sound.files_isSome here
    rw [Kernel.ready_of_files open_f] at some ⊢
    obtain ⟨wants, there⟩ := Sock.select_poll.mp some
    exact ⟨(Bool.and_eq_true _ _).mpr ⟨wants, there⟩, c, files ▸ open_f, there⟩
  · cases rest.symm.trans at_f
  · rintro ((listen | ⟨_, event | loop⟩) | ⟨event, e, at_g, hand⟩)
    · exact .inl listen
    · rw [done] at event
      cases event.choose_spec
    · cases rest.symm.trans loop
    · by_cases listen : g = listenfd
      · exact .inl listen
      · rw [(inv.interests g e at_g).1 listen] at hand
        refine .inr ⟨?_, .inl event⟩
        cases mode with
        | lt => cases hand
        | et => rfl

/-- There is one event for a descriptor. -/
lemma not_mem_tail {f : Nat} {r : Events} {events : List (Nat × Events)} (inv : Inv listenfd mode s)
    (e : s.events = (f, r) :: events) (r' : Events) : (f, r') ∉ events := by
  intro mem
  have distinct := inv.distinct
  rw [e, List.map_cons, List.nodup_cons] at distinct
  exact distinct.1 (List.mem_map.mpr ⟨_, mem, rfl⟩)

/-- An event is taken from the list. -/
lemma Inv.pop (inv : Inv listenfd mode s) {f : Nat} {r : Events} {events : List (Nat × Events)}
    (reading : Option Nat) (e : s.events = (f, r) :: events) (rest : s.reading = none)
    (hand : f = listenfd ∨ mode = .lt ∨ reading = some f)
    (loop : ∀ g, reading = some g → g = f ∧ mode = .et ∧ f ≠ listenfd) :
    Inv listenfd mode { s with events, reading } := by
  refine ⟨inv.interests, inv.listening, inv.conns, ?_,
    fun g r mem => inv.events g r (e ▸ .tail _ mem), fun g at_g => ?_, inv.sound.mono fun g _ => ?_⟩
  · have distinct := inv.distinct
    rw [e, List.map_cons, List.nodup_cons] at distinct
    exact distinct.2
  · obtain ⟨rfl, et, ne⟩ := loop g at_g
    exact ⟨et, ne, not_mem_tail inv e⟩
  · rintro (listen | ⟨et, event | loop⟩)
    · exact .inl listen
    · obtain ⟨r', mem⟩ := event
      rw [e] at mem
      rcases List.mem_cons.mp mem with now | later
      · cases now
        rcases hand with listen | lt | reading
        · exact .inl listen
        · cases lt.symm.trans et
        · exact .inr ⟨et, .inr reading⟩
      · exact .inr ⟨et, .inl ⟨r', later⟩⟩
    · cases rest.symm.trans loop

/-- A connection is read that no event is left for. -/
lemma Inv.read (inv : Inv listenfd mode s) {f : Nat} {c c' : Conn}
    (open_f : s.kernel.files f = some (.conn c)) (ready : c.stream.ready = true)
    (once : ∀ r, (f, r) ∉ s.events) :
    Inv listenfd mode { s with kernel := s.kernel.put f (.conn c') } :=
  inv.change open_f rfl rfl (fun r mem => absurd mem (once r)) inv.interests (fun _ => rfl)
    (inv.sound.less open_f fun _ some => Sock.select_poll.mpr ⟨(Sock.select_poll.mp some).1, ready⟩)

/-- A connection is closed that no event is left for, and the loop may end. -/
lemma Inv.close (inv : Inv listenfd mode s) {f : Nat} {reading : Option Nat} (ne : f ≠ listenfd)
    (once : ∀ r, (f, r) ∉ s.events) (same : ∀ g, reading = some g → s.reading = some g)
    (loop : ∀ g, s.reading = some g → g = f ∨ reading = some g) :
    Inv listenfd mode { s with kernel := s.kernel.close f, reading } := by
  have files : ∀ g, g ≠ f → (s.kernel.close f).files g = s.kernel.files g := fun g ne =>
    Kernel.close_files_of_ne ne
  have table : ∀ g, g ≠ f → (s.kernel.close f).table g = s.kernel.table g := fun g ne =>
    Function.update_of_ne ne _ _
  have gone : (s.kernel.close f).table f = none := Function.update_self _ _ _
  refine ⟨fun g e at_g => ?_, ?_, fun g c ne at_g => ?_, inv.distinct, fun g r mem => ?_,
    fun g at_g => inv.reading g (same g at_g), (inv.sound.close f).mono fun g _ => ?_⟩
  · have other : g ≠ f := by
      rintro rfl
      cases gone.symm.trans at_g
    exact inv.interests g e ((table g other).symm.trans at_g)
  · obtain ⟨l, at_l, listening⟩ := inv.listening
    exact ⟨l, (files _ (Ne.symm ne)).trans at_l, listening⟩
  · have other : g ≠ f := by
      rintro rfl
      cases Kernel.close_files_self.symm.trans at_g
    show c.isConn = true ∧ ((s.kernel.close f).table g).isSome = true
    rw [table g other]
    exact inv.conns g c ne ((files g other).symm.trans at_g)
  · have other : g ≠ f := fun same => once r (same ▸ mem)
    obtain ⟨input, c, at_g, ready⟩ := inv.events g r mem
    exact ⟨input, c, (files g other).trans at_g, ready⟩
  · rintro ⟨listen | ⟨et, event | at_g⟩, ne⟩
    · exact .inl listen
    · exact .inr ⟨et, .inl event⟩
    · exact .inr ⟨et, .inr ((loop g at_g).resolve_left ne)⟩

/-- The event of the listening socket. -/
lemma Inv.accept (inv : Inv listenfd mode s) {conn : Option (Nat × List UInt8 × Bool)}
    (once : ∀ r, (listenfd, r) ∉ s.events) (st : accept listenfd s (mode = .et) conn = some s') :
    Inv listenfd mode s' := by
  rw [Levels.accept.eq_def] at st
  split at st
  · cases st
    exact inv
  · rename_i connfd early ended backlog here
    obtain ⟨fresh, st⟩ := Option.ite_none_right_eq_some.mp st
    cases st
    have ne : connfd ≠ listenfd := by
      rintro rfl
      cases fresh.symm.trans here
    have absent := inv.sound.opened connfd fresh
    have table :
      (addfd ((s.kernel.put listenfd (.listening backlog)).put connfd (.conn (.fresh early ended)))
        connfd
        (mode = .et)).table = _ := Kernel.add_table absent
    have files : ∀ g, g ≠ connfd → g ≠ listenfd →
        ((s.kernel.put listenfd (.listening backlog)).put connfd (.conn (.fresh early ended))).files
          g =
          s.kernel.files g := by
      intro g ne ne'
      rw [Kernel.put_files_of_ne ne, Kernel.put_files_of_ne ne']
    have listens :
        ((s.kernel.put listenfd (.listening backlog)).put connfd
          (.conn (.fresh early ended))).files listenfd =
        some (.listening backlog) := by
      rw [Kernel.put_files_of_ne (Ne.symm ne), Kernel.put_files_self]
    refine ⟨fun g e at_g => ?_, ⟨.listening backlog, listens, rfl⟩, fun g c ne' at_g => ?_,
      inv.distinct, fun g r mem => ?_,
      inv.reading, ((inv.sound.put (.inr (.inl rfl))).put (.inl absent)).add Kernel.put_files_self⟩
    · rw [table] at at_g
      by_cases same : g = connfd
      · subst same
        rw [Function.update_self] at at_g
        cases at_g
        exact ⟨fun _ => rfl, rfl, rfl⟩
      · rw [Function.update_of_ne same] at at_g
        exact inv.interests g e at_g
    · rw [table]
      by_cases same : g = connfd
      · subst same
        cases Kernel.put_files_self.symm.trans at_g
        rw [Function.update_self]
        exact ⟨rfl, rfl⟩
      · rw [Function.update_of_ne same]
        exact inv.conns g c ne' ((files g same ne').symm.trans at_g)
    · obtain ⟨input, c, at_g, ready⟩ := inv.events g r mem
      have other : g ≠ connfd := by
        rintro rfl
        cases fresh.symm.trans at_g
      exact ⟨input, c, (files g other fun same => once r (same ▸ mem)).trans at_g, ready⟩
  · cases st

/-- An event is taken from the list, and not kept in the hands of the program. -/
lemma Inv.drop (inv : Inv listenfd mode s) {f : Nat} {r : Events} {events : List (Nat × Events)}
    (e : s.events = (f, r) :: events) (rest : s.reading = none) (hand : f = listenfd ∨ mode = .lt) :
    Inv listenfd mode { s with events } := by
  have popped := inv.pop none e rest (hand.imp_right .inl) nofun
  rwa [← rest] at popped

/-- The socket of an event that is not for the listening socket. -/
lemma Inv.conn_of_event (inv : Inv listenfd mode s) {f : Nat} {r : Events}
    (mem : (f, r) ∈ s.events) (ne : f ≠ listenfd) :
    ∃ c, s.kernel.files f = some (.conn c) ∧ c.stream.ready = true := by
  obtain ⟨_, c, at_f, ready⟩ := inv.events f r mem
  have kind := (inv.conns f c ne at_f).1
  cases c with
  | listening => cases kind
  | conn c => exact ⟨c, at_f, ready⟩

/-- An event in the level-triggered loop. -/
lemma Inv.lt (inv : Inv listenfd .lt s) {conn : Option (Nat × List UInt8 × Bool)}
    {result : Option Nat} (rest : s.reading = none) (st : lt listenfd s conn result = some s') :
    Inv listenfd .lt s' := by
  rw [Levels.lt] at st
  split at st
  · cases st
  · rename_i f r events e
    have popped := inv.drop e rest (.inr rfl)
    have once := not_mem_tail inv e
    split at st
    · rename_i listen
      exact popped.accept (listen ▸ once) st
    · rename_i ne
      have closed : Inv listenfd .lt { s with events, kernel := s.kernel.close f } :=
        popped.close ne once (fun _ => id) fun _ => Or.inr
      split at st
      · split at st
        · rename_i c k open_f
          split at st
          · rename_i bs c' got
            cases st
            exact popped.read open_f (Conn.ready_of_recv got) once
          · cases st
            exact closed
        · cases st
          exact closed
      · cases st
        exact popped

/-- An event in the edge-triggered loop. -/
lemma Inv.et (inv : Inv listenfd .et s) {conn : Option (Nat × List UInt8 × Bool)}
    (rest : s.reading = none) (st : et listenfd s conn = some s') : Inv listenfd .et s' := by
  rw [Levels.et] at st
  split at st
  · cases st
  · rename_i f r events e
    split at st
    · rename_i listen
      exact (inv.drop e rest (.inl listen)).accept (listen ▸ not_mem_tail inv e) st
    · rename_i ne
      split at st
      · cases st
        exact inv.pop (some f) e rest (.inr (.inr rfl)) fun g same =>
          ⟨(Option.some.inj same).symm, rfl, ne⟩
      · rename_i no
        exact absurd (inv.events f r (e ▸ .head _)).1 no

/-- The loop has read the connection empty. -/
lemma Inv.again (inv : Inv listenfd mode s) {f : Nat} {c : Conn} (at_f : s.reading = some f)
    (open_f : s.kernel.files f = some (.conn c)) (dry : c.stream.ready = false) :
    Inv listenfd mode { s with reading := none } := by
  obtain ⟨et, ne, once⟩ := inv.reading f at_f
  obtain ⟨e, here⟩ := Option.isSome_iff_exists.mp (inv.conns f _ ne open_f).2
  have quiet : e.interest.select (poll (.conn c)) = .none := by
    by_contra some
    have input := (Sock.select_poll.mp some).2
    cases dry.symm.trans input
  refine ⟨inv.interests, inv.listening, inv.conns, inv.distinct, inv.events, nofun,
    (inv.sound.drained here open_f (inv.interests f e here).2.2 quiet).mono fun g _ => ?_⟩
  rintro ⟨listen | ⟨et, event | at_g⟩, ne⟩
  · exact .inl listen
  · exact .inr ⟨et, .inl event⟩
  · cases at_f.symm.trans at_g
    exact absurd rfl ne

/-- One round of the reading loop. -/
lemma Inv.etRecv (inv : Inv listenfd mode s) {f : Nat} (at_f : s.reading = some f)
    (result : Option Nat) : Inv listenfd mode (etRecv s f result) := by
  obtain ⟨et, ne, once⟩ := inv.reading f at_f
  have ends : Inv listenfd mode { s with kernel := s.kernel.close f, reading := none } :=
    inv.close ne once nofun fun g at_g => .inl (Option.some.inj (at_f.symm.trans at_g)).symm
  rw [Levels.etRecv.eq_def]
  split
  · rename_i c k open_f
    split
    · exact inv.read open_f (Conn.ready_of_recv ‹_›) once
    · exact inv.close ne once (fun _ => id) fun _ => Or.inr
    · exact inv.again at_f open_f (Conn.recv_again ‹_›)
  · exact ends

/-- A socket that is ready is so after a write. -/
lemma Conn.ready_write {c c' : Conn} {bs : List UInt8} (e : c.write bs = some c')
    (ready : c.stream.ready = true) : c'.stream.ready = true := by
  rw [Conn.write] at e
  split at e
  · rename_i st write
    cases e
    exact ByteStream.ready_write write ready
  · cases e

/-- Every step keeps the invariant. -/
lemma Inv.step (inv : Inv listenfd mode s) (st : LevelsTrans listenfd mode s a s') :
    Inv listenfd mode s' := by
  cases a <;> simp only [LevelsTrans, levelsStep] at st
  case connect =>
    split at st
    · rename_i open_f
      cases st
      exact inv.arrive open_f rfl fun _ => rfl
    · cases st
  case write f bs =>
    split at st
    · rename_i open_f
      obtain ⟨c, wrote, rfl⟩ := Option.map_eq_some_iff.mp st
      exact inv.arrive open_f rfl (Conn.ready_write wrote)
    · cases st
  case finish f =>
    split at st
    · rename_i open_f
      cases st
      exact inv.arrive open_f rfl fun _ => Bool.or_true _
    · cases st
  case wait fs =>
    obtain ⟨⟨done, rest, nodup, _⟩, st⟩ := Option.ite_none_right_eq_some.mp st
    obtain ⟨⟨events, kernel⟩, waited, rfl⟩ := Option.map_eq_some_iff.mp st
    exact inv.wait done rest nodup waited
  case handle conn result =>
    obtain ⟨rest, st⟩ := Option.ite_none_right_eq_some.mp st
    cases mode with
    | lt => exact inv.lt rest st
    | et => exact inv.et rest st
  case recv result =>
    obtain ⟨f, at_f, rfl⟩ := Option.map_eq_some_iff.mp st
    exact inv.etRecv at_f result

/-- What is left of a connection that is not on the list, when no event is to be handled. -/
lemma Inv.quiet (inv : Inv listenfd mode s) {f : Nat} {c : Conn}
    (open_f : s.kernel.files f = some (.conn c)) (done : s.events = []) (rest : s.reading = none)
    (idle : ∀ e, s.kernel.table f = some e → e.listed = false) : c.stream.ready = false := by
  have ne := inv.ne_listenfd open_f
  obtain ⟨e, here⟩ := Option.isSome_iff_exists.mp (inv.conns f _ ne open_f).2
  have free : ¬s.busy listenfd mode f := by
    rintro (listen | ⟨_, ⟨r, mem⟩ | at_f⟩)
    · exact ne listen
    · rw [done] at mem
      cases mem
    · cases rest.symm.trans at_f
  have dry := inv.sound.quiet here open_f free (idle e here)
  rw [(inv.interests f e here).1 ne] at dry
  by_contra some
  have input : (poll (.conn c)).input = true := Bool.eq_true_of_not_eq_false some
  exact Sock.select_poll.mpr ⟨rfl, input⟩ dry

/-- A text without NUL is printed in full. -/
lemma content_of_no_nul {bs : List UInt8} (text : 0 ∉ bs) : content bs = bs :=
  List.takeWhile_eq_self_iff.mpr fun _ mem => decide_eq_true fun zero => text (zero ▸ mem)

/-- So are all chunks of a connection. -/
lemma Conn.shown_of_no_nul {c : Conn} (text : 0 ∉ c.stream.got) : c.shown = c.stream.got := by
  have all : c.chunks.map content = c.chunks := by
    refine (List.map_congr_left fun bs mem => content_of_no_nul fun zero => ?_).trans
      (List.map_id _)
    rw [← c.join] at text
    exact text (List.mem_flatten_of_mem mem zero)
  rw [Conn.shown, all, c.join]

/-- A step in which `recv` does not fail. -/
def Action.clean : Action → Prop
  | .handle _ result => result ≠ none
  | .recv result => result ≠ none
  | _ => True

/-- An `accept` closes nothing. -/
lemma accept_files {enableEt : Bool} {conn : Option (Nat × List UInt8 × Bool)} {f : Nat}
    (st : accept listenfd s enableEt conn = some s') (open_f : (s.kernel.files f).isSome = true) :
    (s'.kernel.files f).isSome = true := by
  rw [Levels.accept.eq_def] at st
  split at st
  · cases st
    exact open_f
  · rename_i connfd early ended backlog here
    obtain ⟨_, st⟩ := Option.ite_none_right_eq_some.mp st
    cases st
    show (((s.kernel.put listenfd _).put connfd _).files f).isSome = true
    by_cases same : f = connfd
    · rw [same, Kernel.put_files_self]
      rfl
    · rw [Kernel.put_files_of_ne same, Kernel.put_isSome here]
      exact open_f
  · cases st

/-- What is closed is the connection of the event. -/
lemma closes_self {k : Kernel Nat (Sock Conn)} {f g : Nat} {c : Sock Conn}
    (open_f : k.files f = some c) (closed : (k.close g).files f = none) : f = g := by
  by_contra ne
  rw [Kernel.close_files_of_ne ne, open_f] at closed
  cases closed

/-- The level-triggered loop closes a connection at its end only. -/
lemma Inv.lt_closes (inv : Inv listenfd .lt s) {conn : Option (Nat × List UInt8 × Bool)} {k : Nat}
    (st : Levels.lt listenfd s conn (some k) = some s') {f : Nat} {c : Conn}
    (open_f : s.kernel.files f = some (.conn c)) (closed : s'.kernel.files f = none) :
    c.stream.ended = true ∧ c.stream.got = c.stream.wrote := by
  rw [Levels.lt] at st
  split at st
  · cases st
  · rename_i g r events e
    split at st
    · have stays := accept_files st (congrArg Option.isSome open_f)
      rw [closed] at stays
      cases stays
    · rename_i ne
      have mem : (g, r) ∈ s.events := by
        rw [e]
        exact .head _
      obtain ⟨x, at_g, ready⟩ := inv.conn_of_event mem ne
      simp only [at_g] at st
      split at st
      · split at st
        · cases st
          exact absurd closed (Kernel.put_ne_none open_f)
        · rename_i more
          cases st
          cases closes_self open_f closed
          cases open_f.symm.trans at_g
          -- after the event there is something to read, so that the answer is not `EAGAIN`
          match answer : c.recv k with
          | (.bytes bs, c') => exact absurd answer (more bs c')
          | (.eof, c') => exact Conn.recv_eof answer
          | (.again, c') => cases (Conn.recv_again answer).symm.trans ready
      · cases st
        cases open_f.symm.trans closed

/-- So does the edge-triggered one. -/
lemma etRecv_closes {f g k : Nat} {c : Conn} (open_f : s.kernel.files f = some (.conn c))
    (closed : (etRecv s g (some k)).kernel.files f = none) :
    c.stream.ended = true ∧ c.stream.got = c.stream.wrote := by
  rw [Levels.etRecv.eq_def] at closed
  split at closed
  · rename_i x k' at_g result
    cases result
    split at closed
    · exact absurd closed (Kernel.put_ne_none open_f)
    · rename_i answer
      cases closes_self open_f closed
      cases open_f.symm.trans at_g
      exact Conn.recv_eof answer
    · cases open_f.symm.trans closed
  · rename_i other
    cases closes_self open_f closed
    exact absurd rfl (other c k open_f)

/-- A connection is closed only after its end, except where `recv` fails. -/
lemma Inv.closes (inv : Inv listenfd mode s) (st : LevelsTrans listenfd mode s a s')
    (clean : a.clean) {f : Nat} {c : Conn} (open_f : s.kernel.files f = some (.conn c))
    (closed : s'.kernel.files f = none) :
    c.stream.ended = true ∧ c.stream.got = c.stream.wrote := by
  cases a <;> simp only [LevelsTrans, levelsStep] at st
  case connect =>
    split at st
    · cases st
      exact absurd closed (Kernel.put_ne_none open_f)
    · cases st
  case write g bs =>
    split at st
    · obtain ⟨_, _, rfl⟩ := Option.map_eq_some_iff.mp st
      exact absurd closed (Kernel.put_ne_none open_f)
    · cases st
  case finish g =>
    split at st
    · cases st
      exact absurd closed (Kernel.put_ne_none open_f)
    · cases st
  case wait fs =>
    obtain ⟨_, st⟩ := Option.ite_none_right_eq_some.mp st
    obtain ⟨⟨events, kernel⟩, waited, rfl⟩ := Option.map_eq_some_iff.mp st
    have files := (Kernel.wait_eq_some waited).2
    cases open_f.symm.trans ((congrFun files f).symm.trans closed)
  case handle conn result =>
    obtain ⟨rest, st⟩ := Option.ite_none_right_eq_some.mp st
    obtain ⟨k, rfl⟩ := Option.ne_none_iff_exists'.mp clean
    cases mode with
    | lt => exact inv.lt_closes st open_f closed
    | et =>
      change Levels.et listenfd s conn = some s' at st
      rw [Levels.et] at st
      split at st
      · cases st
      · split at st
        · have stays := accept_files st (congrArg Option.isSome open_f)
          rw [closed] at stays
          cases stays
        · split at st <;> cases st <;> cases open_f.symm.trans closed
  case recv result =>
    obtain ⟨g, at_g, rfl⟩ := Option.map_eq_some_iff.mp st
    obtain ⟨k, rfl⟩ := Option.ne_none_iff_exists'.mp clean
    exact etRecv_closes open_f closed

end Steps

/-- With either function, in every run, however the bytes arrive and the kernel gives them out:
when the program has no event in its hands and a connection is not on the list of the table, all
that the peer wrote was read, and a text without NUL was printed as it is; the peer has not closed.
And a connection is closed only after its peer has closed and all was read, except where `recv`
fails. -/
theorem lt_et_agree (listenfd : Nat) (mode : Mode) (tr : List Action) (s : Server)
    (run : Run (LevelsTrans listenfd mode) (levelsNew listenfd) tr s) :
    (∀ f c, s.kernel.files f = some (.conn c) → s.events = [] → s.reading = none →
      (∀ e, s.kernel.table f = some e → e.listed = false) →
      c.stream.got = c.stream.wrote ∧ c.stream.ended = false ∧
        (0 ∉ c.stream.wrote → c.shown = c.stream.wrote)) ∧
    (∀ a s', LevelsTrans listenfd mode s a s' → a.clean → ∀ f c, s.kernel.files f = some (.conn c) →
      s'.kernel.files f = none → c.stream.ended = true ∧ c.stream.got = c.stream.wrote) := by
  have inv : Inv listenfd mode s :=
    run.invariant (Inv listenfd mode) .new fun _ _ _ inv st => inv.step st
  refine ⟨fun f c open_f done rest idle => ?_, fun a s' st clean f c => inv.closes st clean⟩
  obtain ⟨all, going⟩ := ByteStream.got_of_not_ready (inv.quiet open_f done rest idle)
  exact ⟨all, going, fun text => (Conn.shown_of_no_nul (all ▸ text)).trans all⟩

/-- Connection 5 was read in two pieces, and nothing is going on. -/
def readInTwo (s : Server) : Bool :=
  s.events.isEmpty && s.reading.isNone && (s.kernel.table 5).all (fun e => !e.listed) &&
    match s.kernel.files 5 with
    | some (.conn c) => c.chunks.map List.length = [9, 3] && c.stream.wrote.all (· ≠ 0)
    | _ => false

/-- What the test of the state says. -/
lemma readInTwo_iff {s : Server} (two : readInTwo s = true) : s.events = [] ∧ s.reading = none ∧
    (∀ e, s.kernel.table 5 = some e → e.listed = false) ∧
    ∃ c, s.kernel.files 5 = some (.conn c) ∧ c.chunks.map List.length = [9, 3] ∧
      0 ∉ c.stream.wrote := by
  simp only [readInTwo, Bool.and_eq_true, List.isEmpty_iff, Option.isNone_iff_eq_none,
    Option.all_eq_true, Bool.not_eq_true'] at two
  obtain ⟨⟨⟨events, reading⟩, idle⟩, conn⟩ := two
  refine ⟨events, reading, idle, ?_⟩
  split at conn
  · rename_i c at_c
    simp only [Bool.and_eq_true, decide_eq_true_eq, List.all_eq_true] at conn
    exact ⟨c, at_c, conn.1, fun zero => conn.2 0 zero rfl⟩
  · cases conn

/-- Twelve bytes come in; `lt` is told about them twice, and `et` reads until `EAGAIN`. Both have
printed all of them. -/
theorem lt_et_agree_twelve : ∃ bytes : List UInt8, bytes.length = 12 ∧
    (∃ s c, Run (LevelsTrans 3 .lt) (levelsNew 3)
        [.wait [5], .handle none (some 99), .wait [5], .handle none (some 99), .wait [5],
          .write 5 bytes, .handle (some (5, [], false)) none, .wait [3], .connect] s ∧
      s.kernel.files 5 = some (.conn c) ∧ c.shown = c.stream.wrote ∧
        c.chunks.map List.length = [9, 3]) ∧
    (∃ s c, Run (LevelsTrans 3 .et) (levelsNew 3)
        [.recv (some 99), .recv (some 99), .recv (some 99), .handle none none, .wait [5],
          .write 5 bytes, .handle (some (5, [], false)) none, .wait [3], .connect] s ∧
      s.kernel.files 5 = some (.conn c) ∧ c.shown = c.stream.wrote ∧
        c.chunks.map List.length = [9, 3]) := by
  have lt : (exec (levelsStep 3 .lt) (levelsNew 3)
      [.wait [5], .handle none (some 99), .wait [5], .handle none (some 99), .wait [5],
        .write 5 (List.replicate 12 72),
        .handle (some (5, [], false)) none, .wait [3], .connect]).any readInTwo = true := by decide
  have et : (exec (levelsStep 3 .et) (levelsNew 3)
      [.recv (some 99), .recv (some 99), .recv (some 99), .handle none none, .wait [5],
        .write 5 (List.replicate 12 72),
        .handle (some (5, [], false)) none, .wait [3], .connect]).any readInTwo = true := by decide
  obtain ⟨s, e, two⟩ := (Option.any_eq_true _ _).mp lt
  obtain ⟨s', e', two'⟩ := (Option.any_eq_true _ _).mp et
  obtain ⟨events, reading, idle, c, at_c, chunks, text⟩ := readInTwo_iff two
  obtain ⟨events', reading', idle', c', at_c', chunks', text'⟩ := readInTwo_iff two'
  refine ⟨List.replicate 12 72, rfl, ⟨s, c, exec_run e, at_c, ?_, chunks⟩,
    ⟨s', c', exec_run e', at_c', ?_, chunks'⟩⟩
  · exact ((lt_et_agree 3 .lt _ _ (exec_run e)).1 5 c at_c events reading idle).2.2 text
  · exact ((lt_et_agree 3 .et _ _ (exec_run e')).1 5 c' at_c' events' reading' idle').2.2 text'

end SweetClib.Epoll.Levels
