import SweetClib.Epoll.Client
import SweetClib.Lib.ByteStream

/-!
# The epoll client and its server

`lib/epoll/epollserver.cpp` with the client of `epollclient.cpp`. The server has a thread that
accepts connections and registers them for input; its main loop reads from a connection and
registers it for output, then writes an answer and registers it for input again. A user of the
client waits for output, writes, and waits for input.

Both sides read and write what the kernel lets them: a message may come in pieces, and several at
once, so that messages and answers are not one to one. Here no call fails, and no side closes a
connection. The question is whether the two sides can come to wait for each other; that a user is
given up, or that the server unregisters a connection, is part of both programs, and shown not to
happen.

A connection has the number of its user. The sockets of the server are blocking, and a `recv` that
would block is not a step.
-/

namespace SweetClib.Epoll
open SweetClib.Lib SweetClib.Lib.Epoll

/-- A connection: what the client writes, and what the server writes. -/
structure Link where
  up : ByteStream UInt8
  down : ByteStream UInt8

/-- The server: the registered descriptors, the connections of descriptors, and the events to be
handled. -/
structure EpollServer where
  table : Nat → Option Interest
  owner : Nat → Option Nat
  events : List (Nat × Events)

/-- The text of `sendbuff` with its NUL. -/
def replyText (fd : Nat) : List UInt8 := text "Hello,client fd: " ++ natText fd ++ text "\n" ++ [0]

namespace EpollServer

/-- The connection is accepted by `ListenThread`. -/
def accept (s : EpollServer) (u fd : Nat) : EpollServer :=
  { s with
    table := Function.update s.table fd (some EPOLL_IN),
    owner := Function.update s.owner fd (some u) }

/-- The loop of `Run` with an event, where `recv` or `send` returns `result`. -/
def handle (s : EpollServer) (fd : Nat) (r : Events) (result : Int) : EpollServer :=
  if r.input then
    if result ≤ 0 then { s with table := Function.update s.table fd none }
    else { s with table := Function.update s.table fd (some EPOLL_OUT) }
  else if r.output then
    if result ≤ 0 then { s with table := Function.update s.table fd none }
    else { s with table := Function.update s.table fd (some EPOLL_IN) }
  else { s with table := Function.update s.table fd none }

end EpollServer

/-- Client, server and connections: those of the descriptors of the client, and those that wait to
be accepted. -/
structure System where
  client : Client
  server : EpollServer
  conn : Nat → Option Nat
  backlog : List Nat
  links : Nat → Link

/-- The steps. The kernel says how many bytes it gives or takes, and on which connections there is
room to write. -/
inductive PingAction where
  | socket (fd : Nat)
  | clientWait (events : List (Nat × Events))
  | clientHandle (k : Nat)
  | accept (u fd : Nat)
  | serverWait (events : List (Nat × Events))
  | serverHandle (k : Nat)

/-- Events that may be reported for an interest, where `inbox` is what is to be read. -/
def reportable (i : Interest) (inbox : ByteStream UInt8) (r : Events) : Bool :=
  r ≠ .none &&
    (r = i.select ⟨inbox.ready, true, false, false⟩ || r =
      i.select ⟨inbox.ready, false, false, false⟩)

namespace System

variable (s : System)

/-- An event of the client. -/
def clientReports (ev : Nat × Events) : Bool :=
  match s.client.table ev.1, s.conn ev.1 with
  | some i, some u => reportable i (s.links u).down ev.2
  | _, _ => false

/-- An event of the server. -/
def serverReports (ev : Nat × Events) : Bool :=
  match s.server.table ev.1, s.server.owner ev.1 with
  | some i, some u => reportable i (s.links u).up ev.2
  | _, _ => false

/-- The call of `send` or `recv` that an event leads to for a user, with its result and the
connections after it. -/
def clientCall (fd : Nat) (r : Events) (u k : Nat) : Int × (Nat → Link) :=
  match s.conn fd with
  | none => (-1, s.links)
  | some l =>
    if r.output then
      if (s.client.users u).status = .CONNECT_OK ∨ (s.client.users u).status = .RECV_OK then
        match (s.links l).up.write ((sendbuff u).take (k + 1)) with
        | some up =>
          (((sendbuff u).take (k + 1)).length, Function.update s.links l ⟨up, (s.links l).down⟩)
        | none => (-1, s.links)
      else (-1, s.links)
    else if r.input ∧ (s.client.users u).status = .SEND_OK then
      match (s.links l).down.recv 1024 k with
      | (.bytes bs, down) => (bs.length, Function.update s.links l ⟨(s.links l).up, down⟩)
      | (.eof, _) => (0, s.links)
      | (.again, _) => (-1, s.links)
    else (-1, s.links)

/-- The call of the server; there is no result where it blocks. -/
def serverCall (fd : Nat) (r : Events) (k : Nat) : Option (Int × (Nat → Link)) :=
  match s.server.owner fd with
  | none => some (-1, s.links)
  | some l =>
    if r.input then
      match (s.links l).up.recv 1024 k with
      | (.bytes bs, up) => some (bs.length, Function.update s.links l ⟨up, (s.links l).down⟩)
      | (.eof, _) => some (0, s.links)
      | (.again, _) => none
    else if r.output then
      match (s.links l).down.write ((replyText fd).take (k + 1)) with
      | some down =>
        some (((replyText fd).take (k + 1)).length,
          Function.update s.links l ⟨(s.links l).up, down⟩)
      | none => some (-1, s.links)
    else some (-1, s.links)

end System

/-- A step. -/
def pingStep (n : Nat) (s : System) : PingAction → Option System
  | .socket fd =>
    (clientStep n s.client (.socket (some fd))).map fun client =>
      { s with
        client, conn := Function.update s.conn fd (some s.client.next),
        backlog := s.backlog ++ [s.client.next] }
  | .clientWait events =>
    if events.all s.clientReports then
      (clientStep n s.client (.wait events)).map fun client => { s with client }
    else none
  | .clientHandle k =>
    match s.client.events with
    | [] => none
    | (fd, r) :: _ =>
      (s.client.userId fd).bind fun u =>
        let a := s.clientCall fd r u k
        (clientStep n s.client (.handle a.1)).map fun client => { s with client, links := a.2 }
  | .accept u fd =>
    if u ∈ s.backlog ∧ s.server.owner fd = none then
      some { s with server := s.server.accept u fd, backlog := s.backlog.erase u }
    else none
  | .serverWait events =>
    if s.server.events = [] ∧ (events.map Prod.fst).Nodup ∧ events.all s.serverReports then
      some { s with server := { s.server with events } }
    else none
  | .serverHandle k =>
    match s.server.events with
    | [] => none
    | (fd, r) :: events =>
      (s.serverCall fd r k).map fun a =>
        { s with server := { s.server with events }.handle fd r a.1, links := a.2 }

/-- The transitions. -/
def PingTrans (n : Nat) (s : System) (a : PingAction) (s' : System) : Prop :=
  pingStep n s a = some s'

/-- Client and server at the start. -/
def pingNew : System where
  client := .new
  server := ⟨fun _ => none, fun _ => none, []⟩
  conn _ := none
  backlog := []
  links _ := ⟨.fresh [] false, .fresh [] false⟩

/-- The user waits for room to write. -/
def UserStatus.writes (status : UserStatus) : Prop := status = .CONNECT_OK ∨ status = .RECV_OK

/-- The client: users have their connections, and an event of a user finds it in the state that
waits for this event. -/
structure Asking (n : Nat) (s : System) : Prop where
  paired : Paired n s.client
  conn : ∀ fd u, s.conn fd = some u ↔ (s.client.users u).sockFd = some fd
  alive : ∀ u, u < s.client.next ↔ (s.client.users u).status ≠ .FREE
  events : ∀ fd r u, (fd, r) ∈ s.client.events → (s.client.users u).sockFd = some fd →
    (r.output = true ∧ (s.client.users u).status.writes) ∨
    (r.output = false ∧ r.input = true ∧ (s.client.users u).status = .SEND_OK ∧
      (s.links u).down.unread ≠ [])

/-- The server: connections are registered for input or for output, and an event finds what it
reports. -/
structure Serving (s : System) : Prop where
  waiting : s.backlog.Nodup ∧ ∀ u ∈ s.backlog, u < s.client.next ∧ ∀ fd, s.server.owner fd ≠ some u
  owner : ∀ fd u, s.server.owner fd = some u → u < s.client.next ∧
    (s.server.table fd = some EPOLL_IN ∨ s.server.table fd = some EPOLL_OUT)
  registered : ∀ fd, s.server.owner fd = none → s.server.table fd = none
  once : ∀ fd fd' u, s.server.owner fd = some u → s.server.owner fd' = some u → fd = fd'
  distinct : (s.server.events.map Prod.fst).Nodup
  events : ∀ fd r, (fd, r) ∈ s.server.events → ∃ u, s.server.owner fd = some u ∧
    ((r.input = true ∧ s.server.table fd = some EPOLL_IN ∧ (s.links u).up.unread ≠ []) ∨
     (r.input = false ∧ r.output = true ∧ s.server.table fd = some EPOLL_OUT))

/-- The server has read something of a connection and waits for room to answer. -/
def System.answers (s : System) (u : Nat) : Prop :=
  ∃ fd, s.server.owner fd = some u ∧ s.server.table fd = some EPOLL_OUT

/-- Where the ball is: a user that waits for an answer has written something that is not yet read,
or the server is about to answer, or there is an answer to be read. -/
structure Ball (s : System) : Prop where
  going : ∀ u, (s.links u).up.ended = false ∧ (s.links u).down.ended = false
  unused : ∀ u, s.client.next ≤ u → (s.links u).up.wrote = [] ∧ (s.links u).down.wrote = []
  start : ∀ u, (s.client.users u).status = .CONNECT_OK →
    (s.links u).up.wrote = [] ∧ (s.links u).down.wrote = [] ∧ ¬s.answers u
  ball : ∀ u, (s.client.users u).status = .SEND_OK →
    (s.links u).up.unread ≠ [] ∨ s.answers u ∨ (s.links u).down.unread ≠ []

/-- All of it. -/
structure InPlay (n : Nat) (s : System) : Prop where
  asking : Asking n s
  serving : Serving s
  ball : Ball s

section Steps

variable {n u fd : Nat} {s s' : System}

lemma InPlay.new (n : Nat) : InPlay n pingNew where
  asking :=
    ⟨.new n, fun _ _ => iff_of_false nofun nofun,
      fun u => iff_of_false (Nat.not_lt_zero u) (absurd rfl), nofun⟩
  serving := ⟨⟨.nil, nofun⟩, nofun, fun _ _ => rfl, nofun, .nil, nofun⟩
  ball := ⟨fun _ => ⟨rfl, rfl⟩, fun _ _ => ⟨rfl, rfl⟩, nofun, nofun⟩

lemma connect_self {c : Client} :
    (c.connectToServer fd).users c.next = ⟨.CONNECT_OK, some fd⟩ := Function.update_self _ _ _

lemma connect_of_ne {c : Client} (ne : u ≠ c.next) : (c.connectToServer fd).users u = c.users u :=
  Function.update_of_ne ne _ _

/-- The next user connects. -/
lemma InPlay.socket (play : InPlay n s) (lt : s.client.next < n) (pos : 0 < fd)
    (fresh : s.client.socks fd = false) (small : fd < MAX_SOCKFD_COUNT) :
    InPlay n { s with
      client := s.client.connectToServer fd, conn := Function.update s.conn fd (some s.client.next)
      backlog := s.backlog ++ [s.client.next] } := by
  obtain ⟨⟨paired, conn, alive, events⟩,
    ⟨⟨nodup, waiting⟩, owner, registered, once, distinct, served⟩,
    ⟨going, unused, start, ball⟩⟩ := play
  have other : ∀ v g, (s.client.users v).sockFd = some g → v ≠ s.client.next ∧ g ≠ fd := by
    intro v g at_v
    obtain ⟨_, _, opened, _, _, old⟩ := paired.user v g at_v
    refine ⟨Nat.ne_of_lt old, fun same => ?_⟩
    rw [same, fresh] at opened
    cases opened
  have unowned : ∀ g, s.server.owner g ≠ some s.client.next :=
    fun g own => Nat.lt_irrefl _ (owner g _ own).1
  refine ⟨⟨paired.socket lt pos fresh small, fun g v => ?_, fun v => ?_, fun g r v mem at_v => ?_⟩,
    ⟨⟨?_, fun v mem => ?_⟩, fun g v own => ⟨Nat.lt_succ_of_lt (owner g v own).1, (owner g v own).2⟩,
      registered, once, distinct, served⟩,
      ⟨going, fun v le => unused v (Nat.le_of_succ_le le), fun v => ?_, fun v => ?_⟩⟩
  · dsimp only
    by_cases new : v = s.client.next
    · subst new
      rw [connect_self]
      by_cases here : g = fd
      · subst here
        rw [Function.update_self]
        exact iff_of_true rfl rfl
      · rw [Function.update_of_ne here]
        exact iff_of_false (fun at_g => (other _ g ((conn g _).mp at_g)).1 rfl) fun e =>
          here (Option.some.inj e).symm
    · rw [connect_of_ne new]
      by_cases here : g = fd
      · subst here
        rw [Function.update_self]
        exact iff_of_false (fun e => new (Option.some.inj e).symm) fun at_v =>
          (other v g at_v).2 rfl
      · rw [Function.update_of_ne here]
        exact conn g v
  · dsimp only
    by_cases new : v = s.client.next
    · subst new
      rw [connect_self]
      exact iff_of_true (Nat.lt_succ_self _) nofun
    · rw [connect_of_ne new, ← alive v]
      exact ⟨fun lt => Nat.lt_of_le_of_ne (Nat.le_of_lt_succ lt) new, Nat.lt_succ_of_lt⟩
  · obtain ⟨w, at_w⟩ := paired.events g r mem
    have new : v ≠ s.client.next := by
      rintro rfl
      dsimp only at at_v
      rw [connect_self] at at_v
      cases at_v
      exact (other w fd at_w).2 rfl
    dsimp only at at_v ⊢
    rw [connect_of_ne new] at at_v ⊢
    exact events g r v mem at_v
  · exact List.nodup_append.mpr ⟨nodup, List.nodup_singleton _, fun v mem w mem' same =>
      absurd (waiting v mem).1 (by rw [same, List.mem_singleton.mp mem']; exact Nat.lt_irrefl _)⟩
  · rcases List.mem_append.mp mem with old | new
    · exact ⟨Nat.lt_succ_of_lt (waiting v old).1, (waiting v old).2⟩
    · cases List.mem_singleton.mp new
      exact ⟨Nat.lt_succ_self _, unowned⟩
  · dsimp only
    by_cases new : v = s.client.next
    · subst new
      intro _
      exact ⟨(unused _ le_rfl).1, (unused _ le_rfl).2, fun ⟨g, own, _⟩ => unowned g own⟩
    · rw [connect_of_ne new]
      exact start v
  · dsimp only
    by_cases new : v = s.client.next
    · subst new
      rw [connect_self]
      nofun
    · rw [connect_of_ne new]
      exact ball v

lemma reportable_eq {i : Interest} {inbox : ByteStream UInt8} {r : Events}
    (reports : reportable i inbox r = true) :
    r ≠ .none ∧ ∃ room, r = i.select ⟨inbox.ready, room, false, false⟩ := by
  obtain ⟨some, kinds⟩ := (Bool.and_eq_true _ _).mp reports
  refine ⟨of_decide_eq_true some, ?_⟩
  rcases (Bool.or_eq_true _ _).mp kinds with e | e
  · exact ⟨_, of_decide_eq_true e⟩
  · exact ⟨_, of_decide_eq_true e⟩

/-- What is reported to a user in a state. -/
lemma select_interest {status : UserStatus} {inbox room : Bool} (alive : status ≠ .FREE)
    (start : status = .CONNECT_OK → inbox = false)
    (some : status.interest.select ⟨inbox, room, false, false⟩ ≠ .none) :
    ((status.interest.select ⟨inbox, room, false, false⟩).output = true ∧ status.writes) ∨
    ((status.interest.select ⟨inbox, room, false, false⟩).output = false ∧
      (status.interest.select ⟨inbox, room, false, false⟩).input = true ∧ status = .SEND_OK ∧
        inbox = true) := by
  cases status with
  | FREE => exact absurd rfl alive
  | CONNECT_OK =>
    cases start rfl
    cases room with
    | false => exact absurd rfl some
    | true => exact .inl ⟨rfl, .inl rfl⟩
  | SEND_OK =>
    cases inbox with
    | false => exact absurd rfl some
    | true => exact .inr ⟨rfl, rfl, rfl, rfl⟩
  | RECV_OK =>
    cases room with
    | false => exact absurd rfl some
    | true => exact .inl ⟨rfl, .inr rfl⟩

/-- What is reported to a user is what it waits for. -/
lemma InPlay.clientWait (play : InPlay n s) {events : List (Nat × Events)} {client : Client}
    (all : events.all s.clientReports = true)
    (st : clientStep n s.client (.wait events) = some client) : InPlay n { s with client } := by
  obtain ⟨⟨paired, conn, alive, _⟩, serving, ball⟩ := play
  have paired' := paired.step st
  obtain ⟨_, st⟩ := Option.ite_none_right_eq_some.mp st
  cases st
  refine ⟨⟨paired', conn, alive, fun g r v mem at_v => ?_⟩,
    ⟨serving.1, serving.2, serving.3, serving.4, serving.5, serving.6⟩,
    ⟨ball.1, ball.2, ball.3, ball.4⟩⟩
  have reports := List.all_eq_true.mp all _ mem
  have table := (paired.user v g at_v).2.1
  rw [System.clientReports, table, (conn g v).mpr at_v] at reports
  obtain ⟨some, room, rfl⟩ := reportable_eq reports
  have going := (ball.going v).2
  have alive : (s.client.users v).status ≠ .FREE := by
    intro free
    rw [(paired.free v).mp free] at at_v
    cases at_v
  have start : (s.client.users v).status = .CONNECT_OK → (s.links v).down.ready = false := by
    intro status
    rw [ByteStream.ready, ByteStream.unread_of_wrote (ball.start v status).2.1, going]
    rfl
  refine (select_interest alive start some).imp_right fun selected => ?_
  obtain ⟨out, inp, status, ready⟩ := selected
  exact ⟨out, inp, status, ByteStream.unread_of_ready going ready⟩

lemma proceed_self {c : Client} {status : UserStatus} :
    (c.proceed u fd status).users u = ⟨status, some fd⟩ :=
  Function.update_self _ _ _

lemma proceed_of_ne {c : Client} {status : UserStatus} {v : Nat} (ne : v ≠ u) :
    (c.proceed u fd status).users v = c.users v := Function.update_of_ne ne _ _

/-- A user goes on after an event, with its connection. -/
lemma InPlay.proceed (play : InPlay n s) {r : Events} {events : List (Nat × Events)}
    {status : UserStatus} {link : Link} (e : s.client.events = (fd, r) :: events)
    (at_u : (s.client.users u).sockFd = some fd) (kind : status = .SEND_OK ∨ status = .RECV_OK)
    (goes : link.up.ended = false ∧ link.down.ended = false)
    (keeps : (s.links u).up.unread ≠ [] → link.up.unread ≠ [])
    (sends : status = .SEND_OK → link.up.unread ≠ []) :
    InPlay n { s with
      client := { s.client with events }.proceed u fd status, links :=
        Function.update s.links u link } := by
  obtain ⟨⟨paired, conn, alive, seen⟩, ⟨waiting, owner, registered, once, distinct, served⟩,
    ⟨going, unused, start, ball⟩⟩ := play
  obtain ⟨popped, last⟩ := paired.pop e
  have free : status ≠ .FREE := by rcases kind with rfl | rfl <;> nofun
  have started : status ≠ .CONNECT_OK := by rcases kind with rfl | rfl <;> nofun
  have old : u < s.client.next := (paired.user u fd at_u).2.2.2.2.2
  have sockFd :
      ∀ v, (({ s.client with events }.proceed u fd status).users v).sockFd =
        (s.client.users v).sockFd :=
    proceed_sockFd at_u
  refine ⟨⟨popped.proceed at_u free, fun g v => ?_, fun v => ?_, fun g r' v mem at_v => ?_⟩,
    ⟨waiting, owner, registered, once, distinct, fun g r' mem => ?_⟩,
    ⟨fun v => ?_, fun v le => ?_, fun v at_v => ?_, fun v at_v => ?_⟩⟩
  · rw [sockFd]
    exact conn g v
  · dsimp only
    by_cases same : v = u
    · subst same
      rw [proceed_self]
      exact iff_of_true old free
    · rw [proceed_of_ne same]
      exact alive v
  · rw [sockFd] at at_v
    have same : v ≠ u := by
      rintro rfl
      cases at_u.symm.trans at_v
      exact last r' mem
    dsimp only
    rw [proceed_of_ne same, Function.update_of_ne same]
    exact seen g r' v (e ▸ .tail _ mem) at_v
  · obtain ⟨v, own, cases⟩ := served g r' mem
    refine ⟨v, own, cases.imp_left fun ⟨inp, table, unread⟩ => ⟨inp, table, ?_⟩⟩
    dsimp only
    by_cases same : v = u
    · subst same
      rw [Function.update_self]
      exact keeps unread
    · rw [Function.update_of_ne same]
      exact unread
  · dsimp only
    by_cases same : v = u
    · subst same
      rw [Function.update_self]
      exact goes
    · rw [Function.update_of_ne same]
      exact going v
  · have same : v ≠ u := Nat.ne_of_gt (Nat.lt_of_lt_of_le old le)
    dsimp only
    rw [Function.update_of_ne same]
    exact unused v le
  · have same : v ≠ u := by
      rintro rfl
      dsimp only at at_v
      rw [proceed_self] at at_v
      exact started at_v
    dsimp only at at_v ⊢
    rw [proceed_of_ne same] at at_v
    rw [Function.update_of_ne same]
    exact start v at_v
  · dsimp only at at_v ⊢
    by_cases same : v = u
    · subst same
      rw [proceed_self] at at_v
      rw [Function.update_self]
      exact .inl (sends at_v)
    · rw [proceed_of_ne same] at at_v
      rw [Function.update_of_ne same]
      exact ball v at_v

lemma sendbuff_take_ne_nil (u k : Nat) : (sendbuff u).take (k + 1) ≠ [] := by
  rw [ne_eq, List.take_eq_nil_iff, sendbuff]
  simp

/-- An event of the client: the user writes, or reads the answer. -/
lemma InPlay.clientHandle (play : InPlay n s) {r : Events} {events : List (Nat × Events)}
    {k : Nat} (e : s.client.events = (fd, r) :: events)
    (at_u : (s.client.users u).sockFd = some fd) {client : Client}
    (st : clientStep n s.client (.handle (s.clientCall fd r u k).1) = some client) :
    InPlay n { s with client, links := (s.clientCall fd r u k).2 } := by
  have paired := play.asking.paired
  obtain ⟨id, table, _, pos, _⟩ := paired.user u fd at_u
  obtain ⟨w, at_w, handled⟩ := paired.handle_eq e
  cases paired.user_eq at_w at_u
  cases (handled _).symm.trans st
  have registered : (s.client.table fd).isSome = true := by
    rw [table]
    rfl
  have outcome :=
    dispatch_cases (c := { s.client with events }) at_u id registered pos r
    (s.clientCall fd r u k).1
  have going := play.ball.going u
  rcases play.asking.events fd r u (e ▸ .head _) at_u with ⟨out, writes⟩ | ⟨out, inp, status,
    answer⟩
  · obtain ⟨up, wrote⟩ := ByteStream.write_of_going going.1 ((sendbuff u).take (k + 1))
    obtain ⟨_, _, _, unread, ended⟩ := ByteStream.write_eq_some wrote
    have call : s.clientCall fd r u k =
        ((((sendbuff u).take (k + 1)).length : Int),
            Function.update s.links u ⟨up, (s.links u).down⟩) := by
      rw [UserStatus.writes] at writes
      rw [System.clientCall, (play.asking.conn fd u).mpr at_u]
      simp only [out, if_true, if_pos writes, wrote]
    have more : up.unread ≠ [] := by
      rw [unread]
      exact List.append_ne_nil_of_right_ne_nil _ (sendbuff_take_ne_nil u k)
    have positive : 0 < (((sendbuff u).take (k + 1)).length : Int) :=
      Int.natCast_pos.mpr (List.length_pos_of_ne_nil (sendbuff_take_ne_nil u k))
    rw [call] at outcome ⊢
    rcases outcome with ⟨done, _⟩ | ⟨_, in_only, _⟩ | ⟨_, not, _⟩
    · rw [done]
      exact play.proceed e at_u (.inl rfl) ⟨ended, going.2⟩ (fun _ => more) fun _ => more
    · cases out.symm.trans in_only
    · exact absurd ⟨positive, out, writes⟩ not
  · obtain ⟨bs, down, read⟩ := ByteStream.recv_of_unread answer 1024 k
    obtain ⟨some, _, _, _, _, ended⟩ := ByteStream.recv_bytes (by decide) read
    have call :
        s.clientCall fd r u k =
          ((bs.length : Int), Function.update s.links u ⟨(s.links u).up, down⟩) := by
      rw [System.clientCall, (play.asking.conn fd u).mpr at_u]
      simp only [out, Bool.false_eq_true, if_false, inp, status, true_and, if_true, read]
    have positive : 0 < (bs.length : Int) := Int.natCast_pos.mpr (List.length_pos_of_ne_nil some)
    rw [call] at outcome ⊢
    rcases outcome with ⟨_, out', _⟩ | ⟨done, _⟩ | ⟨_, _, not⟩
    · cases out.symm.trans out'
    · rw [done]
      exact play.proceed e at_u (.inr rfl) ⟨going.1, ended.trans going.2⟩
        (fun unread => unread) nofun
    · exact absurd ⟨positive, out, inp, status⟩ not

/-- A connection is accepted. -/
lemma InPlay.accept (play : InPlay n s) (mem : u ∈ s.backlog) (fresh : s.server.owner fd = none) :
    InPlay n { s with server := s.server.accept u fd, backlog := s.backlog.erase u } := by
  obtain ⟨asking, ⟨⟨nodup, waiting⟩, owner, registered, once, distinct, served⟩,
    ⟨going, unused, start, ball⟩⟩ := play
  have self : (s.server.accept u fd).owner fd = some u ∧
      (s.server.accept u fd).table fd = some EPOLL_IN :=
    ⟨Function.update_self _ _ _, Function.update_self _ _ _⟩
  have others : ∀ g, g ≠ fd →
      (s.server.accept u fd).owner g = s.server.owner g ∧
          (s.server.accept u fd).table g = s.server.table g :=
    fun g ne => ⟨Function.update_of_ne ne _ _, Function.update_of_ne ne _ _⟩
  have old : ∀ g v, s.server.owner g = some v → g ≠ fd := by
    rintro g v own rfl
    cases fresh.symm.trans own
  have answers :
    ∀ v, System.answers { s with server := s.server.accept u fd, backlog := s.backlog.erase u } v ↔
      s.answers v := by
    intro v
    constructor
    · rintro ⟨g, own, out⟩
      by_cases same : g = fd
      · subst same
        cases self.2.symm.trans out
      · exact ⟨g, (others g same).1.symm.trans own, (others g same).2.symm.trans out⟩
    · rintro ⟨g, own, out⟩
      have same := old g v own
      exact ⟨g, (others g same).1.trans own, (others g same).2.trans out⟩
  refine ⟨⟨asking.1, asking.2, asking.3, asking.4⟩,
    ⟨⟨nodup.erase u, fun v mem' => ?_⟩, fun g v own => ?_, fun g none => ?_,
    fun g g' v own own' => ?_, distinct, fun g r mem' => ?_⟩,
    ⟨going, unused, fun v at_v => ?_, fun v at_v => ?_⟩⟩
  · obtain ⟨ne, mem'⟩ := (List.Nodup.mem_erase_iff nodup).mp mem'
    refine ⟨(waiting v mem').1, fun g own => ?_⟩
    by_cases same : g = fd
    · subst same
      exact ne (Option.some.inj (self.1.symm.trans own)).symm
    · exact (waiting v mem').2 g ((others g same).1.symm.trans own)
  · by_cases same : g = fd
    · subst same
      cases self.1.symm.trans own
      exact ⟨(waiting u mem).1, .inl self.2⟩
    · show v < s.client.next ∧
        ((s.server.accept u fd).table g = _ ∨ (s.server.accept u fd).table g = _)
      rw [(others g same).2]
      exact owner g v ((others g same).1.symm.trans own)
  · have same : g ≠ fd := by
      rintro rfl
      cases self.1.symm.trans none
    exact (others g same).2.trans (registered g ((others g same).1.symm.trans none))
  · by_cases same : g = fd
    · by_cases same' : g' = fd
      · exact same.trans same'.symm
      · subst same
        cases self.1.symm.trans own
        exact absurd ((others g' same').1.symm.trans own') ((waiting u mem).2 g')
    · by_cases same' : g' = fd
      · subst same'
        cases self.1.symm.trans own'
        exact absurd ((others g same).1.symm.trans own) ((waiting u mem).2 g)
      · exact once g g' v ((others g same).1.symm.trans own) ((others g' same').1.symm.trans own')
  · obtain ⟨v, own, kinds⟩ := served g r mem'
    have same := old g v own
    refine ⟨v, (others g same).1.trans own, ?_⟩
    dsimp only
    rw [(others g same).2]
    exact kinds
  · rw [answers]
    exact start v at_v
  · rw [answers]
    exact ball v at_v

/-- What is reported to the server is what it waits for. -/
lemma InPlay.serverWait (play : InPlay n s) {events : List (Nat × Events)}
    (nodup : (events.map Prod.fst).Nodup) (all : events.all s.serverReports = true) :
    InPlay n { s with server := { s.server with events } } := by
  obtain ⟨asking, ⟨waiting, owner, registered, once, _, _⟩, ball⟩ := play
  refine ⟨⟨asking.1, asking.2, asking.3, asking.4⟩,
    ⟨waiting, owner, registered, once, nodup, fun g r mem => ?_⟩, ⟨ball.1, ball.2, ball.3, ball.4⟩⟩
  have reports := List.all_eq_true.mp all _ mem
  rw [System.serverReports] at reports
  split at reports
  · rename_i i v table own
    obtain ⟨some, room, rfl⟩ := reportable_eq reports
    refine ⟨v, own, ?_⟩
    rcases (owner g v own).2 with reads | writes
    · cases table.symm.trans reads
      have ready : (s.links v).up.ready = true := by
        by_contra dry
        rw [Bool.eq_false_of_not_eq_true dry] at some
        exact some rfl
      exact .inl ⟨ready, reads, ByteStream.unread_of_ready (ball.going v).1 ready⟩
    · cases table.symm.trans writes
      refine .inr ⟨rfl, ?_, writes⟩
      cases room with
      | false => exact absurd rfl some
      | true => rfl
  · cases reports

/-- The server goes on after an event, with the connection. -/
lemma InPlay.serve (play : InPlay n s) {r : Events} {events : List (Nat × Events)} {i : Interest}
    {link : Link} (e : s.server.events = (fd, r) :: events) (own : s.server.owner fd = some u)
    (kind : i = EPOLL_OUT ∨ (i = EPOLL_IN ∧ link.down.unread ≠ []))
    (goes : link.up.ended = false ∧ link.down.ended = false)
    (keeps : (s.links u).down.unread ≠ [] → link.down.unread ≠ [])
    (started : (s.client.users u).status ≠ .CONNECT_OK) :
    InPlay n { s with
      server := { s.server with events, table := Function.update s.server.table fd (some i) }
      links := Function.update s.links u link } := by
  obtain ⟨⟨paired, conn, alive, seen⟩, ⟨waiting, owner, registered, once, distinct, served⟩,
    ⟨going, unused, start, ball⟩⟩ := play
  rw [e, List.map_cons, List.nodup_cons] at distinct
  refine ⟨⟨paired, conn, alive, fun g r' v mem at_v => ?_⟩,
    ⟨waiting, fun g v own' => ⟨(owner g v own').1, ?_⟩, fun g none => ?_, once, distinct.2,
      fun g r' mem => ?_⟩,
    ⟨fun v => ?_, fun v le => ?_, fun v at_v => ?_, fun v at_v => ?_⟩⟩
  · refine (seen g r' v mem at_v).imp_right fun ⟨out, inp, status, unread⟩ => ⟨out, inp, status, ?_⟩
    dsimp only
    by_cases same : v = u
    · subst same
      rw [Function.update_self]
      exact keeps unread
    · rw [Function.update_of_ne same]
      exact unread
  · dsimp only
    by_cases same : g = fd
    · subst same
      rw [Function.update_self]
      exact kind.symm.imp (fun is => congrArg some is.1) (congrArg some)
    · rw [Function.update_of_ne same]
      exact (owner g v own').2
  · have same : g ≠ fd := by
      rintro rfl
      cases own.symm.trans none
    dsimp only
    rw [Function.update_of_ne same]
    exact registered g none
  · have same : g ≠ fd := by
      rintro rfl
      exact distinct.1 (List.mem_map.mpr ⟨_, mem, rfl⟩)
    obtain ⟨v, own', kinds⟩ := served g r' (e ▸ .tail _ mem)
    have other : v ≠ u := fun e => same (once g fd u (e ▸ own') own)
    refine ⟨v, own', ?_⟩
    dsimp only
    rw [Function.update_of_ne same, Function.update_of_ne other]
    exact kinds
  · dsimp only
    by_cases same : v = u
    · subst same
      rw [Function.update_self]
      exact goes
    · rw [Function.update_of_ne same]
      exact going v
  · have same : v ≠ u := Nat.ne_of_gt (Nat.lt_of_lt_of_le (owner fd u own).1 le)
    dsimp only
    rw [Function.update_of_ne same]
    exact unused v le
  · have same : v ≠ u := fun e => started (e ▸ at_v)
    dsimp only
    rw [Function.update_of_ne same]
    obtain ⟨up, down, no⟩ := start v at_v
    refine ⟨up, down, fun ⟨g, own', out⟩ => no ⟨g, own', ?_⟩⟩
    have other : g ≠ fd := by
      rintro rfl
      exact same (Option.some.inj (own'.symm.trans own))
    exact (Function.update_of_ne other _ _).symm.trans out
  · dsimp only
    by_cases same : v = u
    · subst same
      rw [Function.update_self]
      rcases kind with rfl | ⟨_, unread⟩
      · exact .inr (.inl ⟨fd, own, Function.update_self _ _ _⟩)
      · exact .inr (.inr unread)
    · rw [Function.update_of_ne same]
      refine (ball v at_v).imp_right (Or.imp_left fun ⟨g, own', out⟩ => ⟨g, own', ?_⟩)
      have other : g ≠ fd := by
        rintro rfl
        exact same (Option.some.inj (own'.symm.trans own))
      exact (Function.update_of_ne other _ _).trans out

lemma replyText_take_ne_nil (fd k : Nat) : (replyText fd).take (k + 1) ≠ [] := by
  rw [ne_eq, List.take_eq_nil_iff, replyText]
  simp

/-- An event of the server can be handled, and leads on. -/
lemma InPlay.serverHandle (play : InPlay n s) {r : Events} {events : List (Nat × Events)} (k : Nat)
    (e : s.server.events = (fd, r) :: events) : ∃ a, s.serverCall fd r k = some a ∧
      InPlay n { s with server := { s.server with events }.handle fd r a.1, links := a.2 } := by
  obtain ⟨v, own, kinds⟩ := play.serving.events fd r (e ▸ .head _)
  have going := play.ball.going v
  rw [System.serverCall, own]
  rcases kinds with ⟨inp, table, unread⟩ | ⟨inp, out, table⟩
  · obtain ⟨bs, up, read⟩ := ByteStream.recv_of_unread unread 1024 k
    obtain ⟨some, _, _, _, _, ended⟩ := ByteStream.recv_bytes (by decide) read
    have positive : ¬(bs.length : Int) ≤ 0 := by
      have := List.length_pos_of_ne_nil some
      omega
    simp only [inp, if_true, read]
    refine ⟨_, rfl, ?_⟩
    rw [EpollServer.handle, if_pos inp, if_neg positive]
    refine play.serve e own (.inl rfl) ⟨ended.trans going.1, going.2⟩
      (fun unread => unread) fun status => unread ?_
    exact ByteStream.unread_of_wrote (play.ball.start v status).1
  · obtain ⟨down, wrote⟩ := ByteStream.write_of_going going.2 ((replyText fd).take (k + 1))
    obtain ⟨_, _, _, unread, ended⟩ := ByteStream.write_eq_some wrote
    have more : down.unread ≠ [] := by
      rw [unread]
      exact List.append_ne_nil_of_right_ne_nil _ (replyText_take_ne_nil fd k)
    have positive : ¬(((replyText fd).take (k + 1)).length : Int) ≤ 0 := by
      have := List.length_pos_of_ne_nil (replyText_take_ne_nil fd k)
      omega
    simp only [inp, Bool.false_eq_true, if_false, out, if_true, wrote]
    refine ⟨_, rfl, ?_⟩
    rw [EpollServer.handle, if_neg (by rw [inp]; nofun), if_pos out, if_neg positive]
    refine play.serve e own (.inr ⟨rfl, more⟩) ⟨going.1, ended⟩ (fun _ => more) fun status => ?_
    exact (play.ball.start v status).2.2 ⟨fd, own, table⟩

lemma InPlay.step (play : InPlay n s) {a : PingAction} (st : PingTrans n s a s') : InPlay n s' := by
  cases a with
  | socket fd =>
    obtain ⟨client, connected, rfl⟩ := Option.map_eq_some_iff.mp st
    obtain ⟨⟨lt, pos, fresh, small⟩, connected⟩ := Option.ite_none_right_eq_some.mp connected
    cases connected
    exact play.socket lt pos fresh small
  | clientWait events =>
    obtain ⟨all, st⟩ := Option.ite_none_right_eq_some.mp st
    obtain ⟨client, waited, rfl⟩ := Option.map_eq_some_iff.mp st
    exact play.clientWait all waited
  | clientHandle k =>
    simp only [PingTrans, pingStep] at st
    split at st
    · cases st
    · rename_i fd r events e
      obtain ⟨u, id, st⟩ := Option.bind_eq_some_iff.mp st
      obtain ⟨client, handled, rfl⟩ := Option.map_eq_some_iff.mp st
      obtain ⟨v, at_v⟩ := play.asking.paired.events fd r (e ▸ .head _)
      cases (play.asking.paired.user v fd at_v).1.symm.trans id
      exact play.clientHandle e at_v handled
  | accept u fd =>
    obtain ⟨⟨mem, fresh⟩, st⟩ := Option.ite_none_right_eq_some.mp st
    cases st
    exact play.accept mem fresh
  | serverWait events =>
    obtain ⟨⟨_, nodup, all⟩, st⟩ := Option.ite_none_right_eq_some.mp st
    cases st
    exact play.serverWait nodup all
  | serverHandle k =>
    simp only [PingTrans, pingStep] at st
    split at st
    · cases st
    · rename_i fd r events e
      obtain ⟨a, call, next⟩ := play.serverHandle k e
      rw [call] at st
      cases st
      exact next

end Steps

/-- While no call fails, in every run, in whatever pieces the kernel takes and gives the bytes: no
user is given up, and no accepted connection is unregistered by the server. Every event that is
reported can be handled, so that the server does not block. And the two sides never wait for each
other: a user waits for room to write, or it has written something that the server has not read, or
the server waits for room to answer, or there is an answer to be read. -/
theorem epoll_ping_pong (n : Nat) (tr : List PingAction) (s : System)
    (run : Run (PingTrans n) pingNew tr s) :
    (∀ u, u < s.client.next → (s.client.users u).sockFd ≠ none) ∧
    (∀ fd u, s.server.owner fd = some u → s.server.table fd ≠ none) ∧
    (s.client.events ≠ [] → ∀ k, ∃ s', pingStep n s (.clientHandle k) = some s') ∧
    (s.server.events ≠ [] → ∀ k, ∃ s', pingStep n s (.serverHandle k) = some s') ∧
    (∀ u, u < s.client.next → (s.client.users u).status.writes ∨ (s.links u).up.unread ≠ [] ∨
      s.answers u ∨
      (s.links u).down.unread ≠ []) := by
  have play : InPlay n s := run.invariant (InPlay n) (.new n) fun _ _ _ play st => play.step st
  refine ⟨fun u lt none => ?_, fun fd u own none => ?_, fun some k => ?_, fun some k => ?_,
    fun u lt => ?_⟩
  · exact (play.asking.alive u).mp lt ((play.asking.paired.free u).mpr none)
  · rcases (play.serving.owner fd u own).2 with reads | writes
    · cases none.symm.trans reads
    · cases none.symm.trans writes
  · cases e : s.client.events with
    | nil => exact absurd e some
    | cons ev events =>
      obtain ⟨u, at_u, handled⟩ := play.asking.paired.handle_eq e
      have id := (play.asking.paired.user u _ at_u).1
      exact Option.isSome_iff_exists.mp (by
        simp only [pingStep, e, id, Option.bind_some, clientStep, handled, Option.map_some,
          Option.isSome_some])
  · cases e : s.server.events with
    | nil => exact absurd e some
    | cons ev events =>
      obtain ⟨a, call, _⟩ := play.serverHandle k e
      exact Option.isSome_iff_exists.mp
        (by simp only [pingStep, e, call, Option.map_some, Option.isSome_some])
  · cases status : (s.client.users u).status with
    | FREE => exact absurd status ((play.asking.alive u).mp lt)
    | CONNECT_OK => exact .inl (.inl rfl)
    | SEND_OK => exact .inr (play.ball.ball u status)
    | RECV_OK => exact .inl (.inr rfl)

/-- A user writes ten bytes of its message before it is accepted; the server reads four of them and
answers, and the user reads a part of the answer. Then both sides have something to read. -/
theorem epoll_ping_pong_pieces : ∃ s, Run (PingTrans 1) pingNew
      [.clientHandle 4, .clientWait [(4, .onInput)], .serverHandle 8,
        .serverWait [(7, ⟨false, true, false, false⟩)],
        .serverHandle 3, .serverWait [(7, .onInput)], .accept 0 7, .clientHandle 9,
        .clientWait [(4, ⟨false, true, false, false⟩)], .socket 4] s ∧
    (s.links 0).up.unread.length = 6 ∧ (s.links 0).down.unread.length = 4 ∧
      (s.client.users 0).sockFd ≠ none := by
  have all : (exec (pingStep 1) pingNew
      [.clientHandle 4, .clientWait [(4, .onInput)], .serverHandle 8,
        .serverWait [(7, ⟨false, true, false, false⟩)],
        .serverHandle 3, .serverWait [(7, .onInput)], .accept 0 7, .clientHandle 9,
        .clientWait [(4, ⟨false, true, false, false⟩)], .socket 4]).any
      (fun s => (s.links 0).up.unread.length = 6 ∧ (s.links 0).down.unread.length = 4 ∧
          s.client.next = 1) = true := by
    decide +kernel
  obtain ⟨s, e, facts⟩ := (Option.any_eq_true _ _).mp all
  obtain ⟨up, down, next⟩ := of_decide_eq_true facts
  exact ⟨s, exec_run e, up, down, (epoll_ping_pong 1 _ _ (exec_run e)).1 0 (next ▸ Nat.zero_lt_one)⟩

end SweetClib.Epoll
