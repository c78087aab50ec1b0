import SweetClib.Bns.Regex
import SweetClib.Lib.Channel
import SweetClib.Lib.Run

/-!
# The lazy pirate client and its server

`lib/zeromq/reliable/lpclient.c` and `lpserver.c`, with `s_recv` and `s_send` of `zhelpers.h`. The
client numbers its requests, waits for the reply to each one, and sends a request again on a new
socket when the wait times out, until `REQUEST_RETRIES` waits in a row did. The server sends back
what it receives, and now and then it crashes.

A `ZMQ_REQ` socket that waits for a reply refuses to send, and one that does not wait drops what
arrives. The sockets of the client are counted, and a message carries the number of its socket;
what is under way to a socket that is closed stays there. Messages may be lost, a server may be
stopped at any time, and another one started. An error of `zmq_poll`, or a null pointer of
`zstr_recv`, leaves the inner loop, and so does an interrupt; after an error without an interrupt
the client goes on with the next number on a socket that still waits for the reply to the last one.

C → Lean naming:
* the loops of `main` of `lpclient.c` → `lpclientSend` for the round of the outer one up to the
  first poll, `lpclientReply` and `lpclientTimeout` for the rounds of the inner one
* the loop of `main` of `lpserver.c` → `lpserverTake`, `lpserverCrash`, `lpserverAnswer`
* `zstr_send` → `zstrSend`, `s_recv` → `sRecv`; what `s_send` sends is its string
-/

namespace SweetClib.Pirate.Lazy
open SweetClib.Lib

def REQUEST_RETRIES : Nat := 3

/-- The size of the buffer `request`. -/
def REQUEST_SIZE : Nat := 10

/-- A message, with the socket of the client it is from or for. -/
abbrev Msg := Nat × List UInt8

/-- Where the client is: at the test of its outer loop, at the poll of its inner loop, or behind
its loops. -/
inductive Point where
  | send
  | poll
  | done
deriving DecidableEq

/-- The client: its variables, the number of its socket and the text the socket waits for a reply
to. On the side: how many waits timed out since the last reply, the numbers that were replied to,
those that were left because of an error, and the replies that were not for the number expected. -/
structure Lpclient where
  point : Point
  interrupted : Bool
  sequence : Nat
  retriesLeft : Int
  request : List UInt8
  socket : Nat
  awaiting : Option (List UInt8)
  timeouts : Nat
  accepted : List Nat
  broken : List Nat
  malformed : List (List UInt8)
deriving DecidableEq

/-- The server: not there, at its `s_recv`, or with a request. -/
inductive Lpserver where
  | down
  | waiting (cycles : Nat)
  | handling (cycles : Nat) (request : Msg)
deriving DecidableEq

/-- The client, the server, and the messages between them. -/
structure System where
  client : Lpclient
  server : Lpserver
  requests : Channel Msg
  replies : Channel Msg

/-- Send the request, unless the socket waits for a reply (C `zstr_send`); then the socket waits. -/
def zstrSend (self : Lpclient) : Lpclient × Option Msg :=
  ({ self with awaiting := some (self.awaiting.getD self.request) },
    if self.awaiting.isSome then none else some (self.socket, self.request))

/-- The outer loop up to the first poll; a number that does not fit the buffer is a fault. -/
def lpclientSend (self : Lpclient) : Option (Lpclient × Option Msg) :=
  if self.retriesLeft = 0 ∨ self.interrupted then some ({ self with point := .done }, none)
  else
    let sequence := self.sequence + 1
    let request := natText sequence
    if request.length < REQUEST_SIZE then
      some (zstrSend { self with point := .poll, sequence, request })
    else none

/-- A round of the inner loop with a reply. -/
def lpclientReply (self : Lpclient) (reply : List UInt8) : Option Lpclient := do
  let number ← Bns.atoi (reply.takeWhile (· ≠ 0))
  if number = self.sequence then
    some { self with
      point := .send, awaiting := none, retriesLeft := REQUEST_RETRIES, timeouts := 0,
      accepted := self.accepted ++ [self.sequence] }
  else some { self with awaiting := none, malformed := self.malformed ++ [reply] }

/-- A round of the inner loop without a reply. -/
def lpclientTimeout (self : Lpclient) : Lpclient × Option Msg :=
  let retriesLeft := self.retriesLeft - 1
  let self := { self with retriesLeft, timeouts := self.timeouts + 1 }
  if retriesLeft = 0 then ({ self with point := .send }, none)
  else zstrSend { self with socket := self.socket + 1, awaiting := none }

/-- What is read from a socket, as a C string (C `s_recv`). -/
def sRecv (msg : List UInt8) : List UInt8 :=
  (msg.take 255).takeWhile (· ≠ 0)

/-- The server has read a request. -/
def lpserverTake (cycles : Nat) (request : Msg) : Lpserver :=
  .handling (cycles + 1) (request.1, sRecv request.2)

/-- The server can simulate a crash after its third request. -/
def lpserverCrash : Lpserver → Option Lpserver
  | .handling cycles _ => if 3 < cycles then some .down else none
  | _ => none

/-- The server sends the request back. -/
def lpserverAnswer : Lpserver → Option (Lpserver × Msg)
  | .handling cycles request => some (.waiting cycles, request)
  | _ => none

/-- The steps of the client, of the server, and of what is around them. -/
inductive Action where
  | send
  | error
  | reply (text : List UInt8)
  | timeout
  | interrupt
  | take (request : Msg)
  | crash
  | answer
  | start
  | stop
  | loseRequest (msg : Msg)
  | loseReply (msg : Msg)

/-- The client, and what it sends. -/
def System.put (s : System) (r : Lpclient × Option Msg) : System :=
  match r.2 with
  | none => { s with client := r.1 }
  | some msg => { s with client := r.1, requests := s.requests.send msg }

/-- A step; there is none where a process cannot take it, and at a fault. -/
def lazyStep (s : System) : Action → Option System
  | .send => if s.client.point = .send then (lpclientSend s.client).map s.put else none
  | .error =>
    if s.client.point = .poll then
      some { s with client := { s.client with
        point := .send, broken := s.client.broken ++ [s.client.sequence] } }
    else none
  | .reply text =>
    if s.client.point = .poll ∧ s.client.awaiting.isSome then do
      let replies ← s.replies.receive (s.client.socket, text)
      let client ← lpclientReply s.client text
      some { s with client, replies }
    else none
  | .timeout => if s.client.point = .poll then some (s.put (lpclientTimeout s.client)) else none
  | .interrupt => some { s with client := { s.client with interrupted := true } }
  | .take request =>
    match s.server with
    | .waiting cycles => (s.requests.receive request).map fun requests =>
        { s with server := lpserverTake cycles request, requests }
    | _ => none
  | .crash => (lpserverCrash s.server).map fun server => { s with server }
  | .answer =>
    (lpserverAnswer s.server).map fun r => { s with server := r.1, replies := s.replies.send r.2 }
  | .start => if s.server = .down then some { s with server := .waiting 0 } else none
  | .stop => some { s with server := .down }
  | .loseRequest msg => some { s with requests := s.requests.lose msg }
  | .loseReply msg => some { s with replies := s.replies.lose msg }

/-- The transitions. -/
def LazyTrans (s : System) (a : Action) (s' : System) : Prop := lazyStep s a = some s'

/-- The client at its start, with no server. -/
def lazyNew : System where
  client :=
    { point := .send, interrupted := false, sequence := 0, retriesLeft := REQUEST_RETRIES,
      request := [],
              socket := 0, awaiting := none, timeouts := 0, accepted := [], broken :=
              [], malformed := [] }
  server := .down
  requests := .empty
  replies := .empty

/-- The texts the servers have read. -/
def System.handled (s : System) : List (List UInt8) := s.requests.received.map Prod.snd

/-- How often a number was sent. -/
def sends (sent : List Msg) (n : Nat) : Nat := (sent.map Prod.snd).count (natText n)

section Text

lemma natText_plain (n : Nat) {c : UInt8} (mem : c ∈ natText n) :
    c ≠ 0 ∧ Bns.isspace c = false ∧ isDigit c = true := by
  obtain ⟨d, lt, rfl⟩ := natText_digits mem
  have all : ∀ d < 10, digit d ≠ 0 ∧ Bns.isspace (digit d) = false ∧ isDigit (digit d) = true := by
    decide
  exact all d lt

lemma takeWhile_natText (n : Nat) : (natText n).takeWhile (· ≠ 0) = natText n := by
  rw [List.takeWhile_eq_self_iff]
  intro c mem
  simpa using (natText_plain n mem).1

lemma sRecv_natText {n : Nat} (short : (natText n).length < REQUEST_SIZE) :
    sRecv (natText n) = natText n := by
  have le : (natText n).length ≤ 255 := by
    rw [REQUEST_SIZE] at short
    omega
  rw [sRecv, List.take_of_length_le le, takeWhile_natText]

lemma atoiDigits_eq {s : List UInt8} (digits : ∀ c ∈ s, isDigit c = true) (v : Nat) :
    Bns.atoiDigits s v = s.foldl (fun v c => 10 * v + (c.toNat - 48)) v := by
  induction s generalizing v with
  | nil => rfl
  | cons c s ih =>
    obtain ⟨first, rest⟩ := List.forall_mem_cons.mp digits
    rw [Bns.atoiDigits, if_pos first, ih rest, List.foldl_cons]

/-- A number that fits the buffer. -/
lemma lt_of_fits {n : Nat} (short : (natText n).length < REQUEST_SIZE) : n < 10 ^ 9 := by
  rw [REQUEST_SIZE, natText] at short
  split at short
  · rename_i zero
    omega
  · rw [List.length_reverse, List.length_map] at short
    calc n < 10 ^ (Nat.digits 10 n).length := Nat.lt_base_pow_length_digits (by decide)
      _ ≤ 10 ^ 9 := Nat.pow_le_pow_right (by decide) (by omega)

lemma atoi_natText {n : Nat} (short : (natText n).length < REQUEST_SIZE) :
    Bns.atoi (natText n) = some (n : Int) := by
  have lt := lt_of_fits short
  have value : Bns.atoiDigits (natText n) 0 = n := by
    rw [atoiDigits_eq fun c mem => (natText_plain n mem).2.2, natText_value]
  have int : Bns.IsInt n := ⟨by omega, by omega⟩
  cases digits : natText n with
  | nil =>
    rw [digits] at value
    cases value
    rfl
  | cons c t =>
    obtain ⟨_, space, dig⟩ := natText_plain n (digits ▸ List.mem_cons_self : c ∈ natText n)
    have minus : c ≠ 45 := by
      rintro rfl
      cases dig
    have plus : c ≠ 43 := by
      rintro rfl
      cases dig
    rw [digits] at value
    rw [Bns.atoi, List.dropWhile_cons_of_neg (by simp [space])]
    simp only [minus, plus, if_false, value, int, if_true]

end Text

/-- The request a server has in hand. -/
def Lpserver.hand : Lpserver → List Msg
  | .handling _ request => [request]
  | _ => []

/-- What a step does. -/
inductive Trans (s : System) : System → Prop where
  | stop :
    s.client.point = .send →
    s.client.interrupted ∨ s.client.retriesLeft = 0 →
    Trans s { s with client := { s.client with point := .done } }
  | send {d} :
    s.client.point = .send →
    s.client.retriesLeft ≠ 0 →
    (natText (s.client.sequence + 1)).length < REQUEST_SIZE →
    d = { s.client with
      point := .poll, sequence := s.client.sequence + 1,
      request := natText (s.client.sequence + 1) } →
    Trans s (s.put (zstrSend d))
  | error :
    s.client.point = .poll →
    Trans s
      { s with client := { s.client with
          point := .send, broken := s.client.broken ++ [s.client.sequence] } }
  | accept {t replies} :
    s.client.point = .poll →
    s.replies.receive (s.client.socket, t) = some replies →
    Bns.atoi (t.takeWhile (· ≠ 0)) = some (s.client.sequence : Int) →
    Trans s
      { s with
        client := { s.client with
          point := .send, awaiting := none, retriesLeft := REQUEST_RETRIES, timeouts := 0,
          accepted := s.client.accepted ++ [s.client.sequence] },
        replies }
  | reject {t replies number} :
    s.client.point = .poll →
    s.replies.receive (s.client.socket, t) = some replies →
    Bns.atoi (t.takeWhile (· ≠ 0)) = some number →
    number ≠ s.client.sequence →
    Trans s
      { s with
        client := { s.client with awaiting := none, malformed := s.client.malformed ++ [t] },
        replies }
  | abandon :
    s.client.point = .poll →
    s.client.retriesLeft = 1 →
    Trans s
      { s with client := { s.client with
          point := .send, retriesLeft := 0, timeouts := s.client.timeouts + 1 } }
  | retry {d} :
    s.client.point = .poll →
    s.client.retriesLeft ≠ 1 →
    d = { s.client with retriesLeft := s.client.retriesLeft - 1, timeouts := s.client.timeouts + 1,
                        socket := s.client.socket + 1, awaiting := none } →
    Trans s (s.put (zstrSend d))
  | interrupt :
    Trans s { s with client := { s.client with interrupted := true } }
  | take {cycles m requests} :
    s.server = .waiting cycles →
    s.requests.receive m = some requests →
    Trans s { s with server := lpserverTake cycles m, requests }
  | answer {cycles m} :
    s.server = .handling cycles m →
    Trans s { s with server := .waiting cycles, replies := s.replies.send m }
  | leave {server} :
    server.hand = [] →
    Trans s { s with server }
  | loseRequest {m} :
    Trans s { s with requests := s.requests.lose m }
  | loseReply {m} :
    Trans s { s with replies := s.replies.lose m }

lemma trans_of_step {s s' : System} {a : Action} (st : LazyTrans s a s') : Trans s s' := by
  cases a with
  | send =>
    obtain ⟨here, st⟩ := Option.ite_none_right_eq_some.mp st
    obtain ⟨r, e, rfl⟩ := Option.map_eq_some_iff.mp st
    rw [lpclientSend] at e
    split at e
    · rename_i ends
      cases e
      exact .stop here ends.symm
    · rename_i goes
      obtain ⟨short, e⟩ := Option.ite_none_right_eq_some.mp e
      cases e
      exact .send here (fun zero => goes (.inl zero)) short rfl
  | error =>
    obtain ⟨here, st⟩ := Option.ite_none_right_eq_some.mp st
    cases st
    exact .error here
  | reply t =>
    obtain ⟨⟨here, _⟩, st⟩ := Option.ite_none_right_eq_some.mp st
    obtain ⟨replies, took, st⟩ := Option.bind_eq_some_iff.mp st
    obtain ⟨client, e, st⟩ := Option.bind_eq_some_iff.mp st
    cases st
    obtain ⟨number, read, e⟩ := Option.bind_eq_some_iff.mp e
    split at e
    · rename_i same
      cases e
      exact .accept here took (same ▸ read)
    · rename_i other
      cases e
      exact .reject here took read other
  | timeout =>
    obtain ⟨here, st⟩ := Option.ite_none_right_eq_some.mp st
    cases st
    rw [lpclientTimeout]
    split
    · rename_i last
      rw [last]
      exact .abandon here (by omega)
    · exact .retry here (by omega) rfl
  | interrupt =>
    cases st
    exact .interrupt
  | take m =>
    cases idle : s.server with
    | waiting cycles =>
      simp only [LazyTrans, lazyStep, idle] at st
      obtain ⟨requests, took, rfl⟩ := Option.map_eq_some_iff.mp st
      exact .take idle took
    | _ => simp [LazyTrans, lazyStep, idle] at st
  | crash =>
    obtain ⟨server, e, rfl⟩ := Option.map_eq_some_iff.mp st
    refine .leave ?_
    cases handling : s.server with
    | handling cycles m =>
      rw [handling] at e
      obtain ⟨_, e⟩ := Option.ite_none_right_eq_some.mp e
      cases e
      rfl
    | _ =>
      rw [handling] at e
      cases e
  | answer =>
    obtain ⟨⟨server, m⟩, e, rfl⟩ := Option.map_eq_some_iff.mp st
    cases handling : s.server with
    | handling cycles request =>
      rw [handling] at e
      cases e
      exact .answer handling
    | _ =>
      rw [handling] at e
      cases e
  | start =>
    obtain ⟨_, st⟩ := Option.ite_none_right_eq_some.mp st
    cases st
    exact .leave rfl
  | stop =>
    cases st
    exact .leave rfl
  | loseRequest m =>
    cases st
    exact .loseRequest
  | loseReply m =>
    cases st
    exact .loseReply

/-- The request in the buffer is that of the current number. -/
def Current (self : Lpclient) : Prop :=
  self.request = natText self.sequence ∧ (natText self.sequence).length < REQUEST_SIZE

/-- What is under way comes from the client: every text is that of a number, what the server has
and has sent is among what it received, and the socket of the client waits for the one reply that
can still come. -/
structure Flow (s : System) : Prop where
  current : s.client.point = .poll → Current s.client
  texts : ∀ m ∈ s.requests.sent, ∃ n, m.2 = natText n ∧ (natText n).length < REQUEST_SIZE
  sockets : ∀ m ∈ s.requests.sent, m.1 ≤ s.client.socket
  relays : Relays s.requests.received s.server.hand s.replies.sent
  waits : ((s.requests.sent.filter (·.1 = s.client.socket) : List Msg) : Multiset Msg) =
    (s.replies.received.filter (·.1 = s.client.socket) : List Msg) +
      (s.client.awaiting.toList.map (s.client.socket, ·) : List Msg)

section Flow

variable {s s' : System}

lemma Flow.replies_le (flow : Flow s) : (s.replies.sent : Multiset Msg) ≤ s.requests.sent :=
  calc (s.replies.sent : Multiset Msg) ≤ s.server.hand + s.replies.sent := Multiset.le_add_left _ _
    _ ≤ s.requests.received := flow.relays
    _ ≤ s.requests.sent := s.requests.received_le

/-- A reply that is under way to the socket of the client is the one it waits for. -/
lemma Flow.awaited (flow : Flow s) {t : List UInt8}
    (mem : (s.client.socket, t) ∈ s.replies.underway) : s.client.awaiting = some t := by
  have one : ({(s.client.socket, t)} : Multiset Msg) ≤ s.replies.underway :=
    Multiset.singleton_le.mpr mem
  have all : ({(s.client.socket, t)} : Multiset Msg) + s.replies.received ≤ s.requests.sent :=
    (add_le_add_left one _).trans (s.replies.balance.trans flow.replies_le)
  have here := Multiset.filter_le_filter (·.1 = s.client.socket) all
  rw [Multiset.filter_add, Multiset.filter_singleton, if_pos rfl, Multiset.filter_coe,
    Multiset.filter_coe, flow.waits, add_comm] at here
  have mem := Multiset.singleton_le.mp (le_of_add_le_add_left here)
  cases e : s.client.awaiting with
  | none =>
    rw [e] at mem
    cases mem
  | some t' =>
    rw [e, Multiset.mem_coe] at mem
    simpa using Eq.comm.mp (List.mem_singleton.mp mem)

/-- What is under way to the client was read by a server. -/
lemma Flow.replies_received (flow : Flow s) {m : Msg} (mem : m ∈ s.replies.underway) :
    m ∈ s.requests.received := by
  have sent : m ∈ s.replies.sent :=
    Multiset.mem_of_le ((Multiset.le_add_right _ _).trans s.replies.balance) mem
  exact Multiset.mem_of_le ((Multiset.le_add_left _ _).trans flow.relays) sent

lemma Flow.replies_text (flow : Flow s) {m : Msg} (mem : m ∈ s.replies.underway) :
    ∃ n, m.2 = natText n ∧ (natText n).length < REQUEST_SIZE :=
  flow.texts m (Multiset.mem_of_le s.requests.received_le (flow.replies_received mem))

/-- A text that is under way is known by the number that `atoi` reads. -/
lemma Flow.text_of_atoi (flow : Flow s) {socket number : Nat} {t : List UInt8}
    (mem : (socket, t) ∈ s.replies.underway)
    (read : Bns.atoi (t.takeWhile (· ≠ 0)) = some (number : Int)) : t = natText number := by
  obtain ⟨n, text, short⟩ := flow.replies_text mem
  have text : t = natText n := text
  rw [text, takeWhile_natText, atoi_natText short] at read
  rw [text, Int.natCast_inj.mp (Option.some.inj read)]

lemma Flow.new : Flow lazyNew where
  current := nofun
  texts := nofun
  sockets := nofun
  relays := .nil
  waits := rfl

/-- The client goes on without sending, on its socket. -/
lemma Flow.quiet (flow : Flow s) {client : Lpclient} (socket : client.socket = s.client.socket)
    (awaiting : client.awaiting = s.client.awaiting)
    (current : client.point = .poll → Current client) : Flow { s with client } where
  current := current
  texts := flow.texts
  sockets := socket ▸ flow.sockets
  relays := flow.relays
  waits := by
    show _ = _
    rw [socket, awaiting]
    exact flow.waits

/-- The client sends its request, if its socket does not wait. -/
lemma Flow.zstrSend (flow : Flow s) {client : Lpclient} (socket : client.socket = s.client.socket)
    (awaiting : client.awaiting = s.client.awaiting) (current : Current client) :
    Flow (s.put (zstrSend client)) := by
  cases waiting : client.awaiting with
  | some t =>
    rw [Lazy.zstrSend, waiting]
    exact flow.quiet socket (waiting.symm.trans awaiting) fun _ => current
  | none =>
    rw [Lazy.zstrSend, waiting]
    refine ⟨fun _ => current, ?_, ?_, flow.relays, ?_⟩
    · intro m mem
      obtain mem | mem := List.mem_append.mp mem
      · exact flow.texts m mem
      · rw [List.mem_singleton.mp mem]
        exact ⟨client.sequence, current⟩
    · intro m mem
      show m.1 ≤ client.socket
      obtain mem | mem := List.mem_append.mp mem
      · rw [socket]
        exact flow.sockets m mem
      · rw [List.mem_singleton.mp mem]
    · have before := flow.waits
      rw [← awaiting, waiting, ← socket, Option.toList_none, List.map_nil, Multiset.coe_nil,
        add_zero] at before
      show (((s.requests.sent ++ [(client.socket, client.request)]).filter
        (·.1 = client.socket) : List Msg) :
        Multiset Msg) = _
      rw [List.filter_append, ← Multiset.coe_add, before, List.filter_cons_of_pos (by simp)]
      rfl

/-- A new socket waits for nothing, and nothing is under way to it. -/
lemma Flow.reconnect (flow : Flow s) {client : Lpclient}
    (socket : client.socket = s.client.socket + 1) (awaiting : client.awaiting = none)
    (current : Current client) : Flow { s with client } where
  current _ := current
  texts := flow.texts
  sockets m mem := by
    show m.1 ≤ client.socket
    have := flow.sockets m mem
    omega
  relays := flow.relays
  waits := by
    have unused : ∀ l : List Msg, (l : Multiset Msg) ≤ s.requests.sent →
        l.filter (·.1 = client.socket) = [] := by
      intro l le
      rw [List.filter_eq_nil_iff]
      intro m mem here
      have := flow.sockets m (Multiset.mem_of_le le mem)
      have := of_decide_eq_true here
      omega
    show _ = _
    rw [unused _ le_rfl, unused _ (s.replies.received_le.trans flow.replies_le), awaiting]
    rfl

/-- The client takes the reply it waits for. -/
lemma Flow.reply (flow : Flow s) {client : Lpclient} {replies : Channel Msg} {t : List UInt8}
    (took : s.replies.receive (s.client.socket, t) = some replies)
    (socket : client.socket = s.client.socket) (awaiting : client.awaiting = none)
    (current : client.point = .poll → Current client) : Flow { s with client, replies } := by
  obtain ⟨mem, sent, _, received⟩ := Channel.receive_eq_some took
  refine ⟨current, flow.texts, socket ▸ flow.sockets, ?_, ?_⟩
  · show Relays _ _ replies.sent
    rw [sent]
    exact flow.relays
  · have before := flow.waits
    rw [flow.awaited mem] at before
    show _ = (replies.received.filter (·.1 = client.socket) : Multiset Msg) + _
    rw [received, socket, awaiting, List.filter_append, ← Multiset.coe_add,
      List.filter_cons_of_pos (by simp), before, add_assoc]
    rfl

/-- The server reads a request; its text is a C string. -/
lemma Flow.take (flow : Flow s) {cycles : Nat} {m : Msg} {requests : Channel Msg}
    (idle : s.server = .waiting cycles) (took : s.requests.receive m = some requests) :
    Flow { s with server := lpserverTake cycles m, requests } := by
  obtain ⟨_, sent, _, received⟩ := Channel.receive_eq_some took
  have wasSent : m ∈ s.requests.sent := by
    refine Multiset.mem_of_le (Channel.receive_le took) ?_
    simp
  obtain ⟨n, text, short⟩ := flow.texts m wasSent
  refine ⟨flow.current, ?_, ?_, ?_, ?_⟩
  · show ∀ m ∈ requests.sent, _
    rw [sent]
    exact flow.texts
  · show ∀ m ∈ requests.sent, _
    rw [sent]
    exact flow.sockets
  · have same : (m.1, sRecv m.2) = m := by
      rw [text, sRecv_natText short, ← text]
    have relays := flow.relays
    rw [idle] at relays
    show Relays requests.received [(m.1, sRecv m.2)] _
    rw [received, same]
    exact relays.take m
  · show ((requests.sent.filter _ : List Msg) : Multiset Msg) = _
    rw [sent]
    exact flow.waits

lemma Flow.answer (flow : Flow s) {cycles : Nat} {m : Msg}
    (handling : s.server = .handling cycles m) :
    Flow { s with server := .waiting cycles, replies := s.replies.send m } := by
  have relays := flow.relays
  rw [handling] at relays
  exact ⟨flow.current, flow.texts, flow.sockets, relays.pass, flow.waits⟩

/-- A server that is gone drops what it had. -/
lemma Flow.drop (flow : Flow s) {server : Lpserver} (empty : server.hand = []) :
    Flow { s with server } where
  current := flow.current
  texts := flow.texts
  sockets := flow.sockets
  relays := by
    show Relays _ server.hand _
    rw [empty]
    exact flow.relays.drop
  waits := flow.waits

lemma Flow.step (flow : Flow s) (st : Trans s s') : Flow s' := by
  cases st with
  | stop => exact flow.quiet rfl rfl nofun
  | send _ _ short e =>
    subst e
    exact flow.zstrSend rfl rfl ⟨rfl, short⟩
  | error => exact flow.quiet rfl rfl nofun
  | accept _ took => exact flow.reply took rfl rfl nofun
  | reject _ took => exact flow.reply took rfl rfl flow.current
  | abandon => exact flow.quiet rfl rfl nofun
  | @retry d here _ e =>
    have current : Current d := by
      rw [e]
      exact flow.current here
    have fresh : Flow { s with client := d } := flow.reconnect (by rw [e]) (by rw [e]) current
    exact fresh.zstrSend rfl rfl current
  | interrupt => exact flow.quiet rfl rfl flow.current
  | take idle took => exact flow.take idle took
  | answer handling => exact flow.answer handling
  | leave empty => exact flow.drop empty
  | loseRequest => exact ⟨flow.current, flow.texts, flow.sockets, flow.relays, flow.waits⟩
  | loseReply => exact ⟨flow.current, flow.texts, flow.sockets, flow.relays, flow.waits⟩

end Flow

end SweetClib.Pirate.Lazy
