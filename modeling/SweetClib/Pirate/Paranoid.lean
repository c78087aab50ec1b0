import SweetClib.Lib.Channel
import SweetClib.Pirate.Ppworker

/-!
# The paranoid pirate queue with its workers

The queue of `ppqueue.c` and any number of workers of `ppworker.c`, the messages between them under
way on two channels, each with the identity of the socket of its worker. Workers start, crash and
are killed at any time, a worker that connects again does so with another identity, and messages
may be lost. A request comes from a `ZMQ_ROUTER` socket, so that its first frame is the identity of
the client, which is not empty, and there is another frame behind it.

The queue answers nothing by itself: every message it sends to its frontend is a request that it
read there, sent back by the worker it had been given to, and no request is answered more often
than it was read (`paranoid_pirate_echo`). A request that is lost with its worker is not answered
at all; this is left to the clients.
-/

namespace SweetClib.Pirate.Paranoid
open SweetClib.Lib SweetClib.Majordomo

/-- A message to or from a worker, with the identity of its socket. -/
abbrev Packet := Frame × Zmsg

/-- The message in what the queue sends to a worker. -/
def packet : Sent → Packet
  | .request identity msg => (identity, msg)
  | .heartbeat identity => (identity, [PPP_HEARTBEAT])

/-- The queue, the workers by the identities of their sockets, and the messages between them. -/
structure System where
  queue : Ppqueue
  workers : Frame → Option Ppworker
  up : Channel Packet
  down : Channel Packet

/-- The steps of the queue, of the workers, and of what is around them. -/
inductive Action where
  | queue (a : Pirate.Action)
  | start (id : Frame) (now : Nat)
  | message (id : Frame) (msg : Zmsg)
  | crash (id : Frame) (msg : Zmsg)
  | timeout (id id' : Frame)
  | heartbeat (id : Frame) (now now' : Nat)
  | kill (id : Frame)
  | loseUp (m : Packet)
  | loseDown (m : Packet)

/-- A message as a `ZMQ_ROUTER` socket returns it. -/
def Routed (msg : Zmsg) : Prop :=
  ∃ client frame frames, msg = client :: frame :: frames ∧ client ≠ []

/-- What the queue takes from its sockets: a message of a worker that is under way, a request with
its address. -/
def queueInput (s : System) : Pirate.Action → Option (Channel Packet)
  | .backend (some m) => s.up.receive m
  | .frontend (some (client :: _ :: _)) => if client = [] then none else some s.up
  | .frontend (some _) => none
  | _ => some s.up

/-- A step of the queue; what it sends to workers is under way then. -/
def queueStep (clock : Nat → Nat) (s : System) (a : Pirate.Action) : Option System := do
  let up ← queueInput s a
  let queue ← ppqueueStep clock s.queue a
  some { s with
    queue, up, down := s.down.sendAll ((queue.backend.drop s.queue.backend.length).map packet) }

/-- A step of the worker with a socket, and what it sends on it. -/
def System.put (s : System) (id : Frame) (worker : Ppworker) (msgs : List Zmsg) : System :=
  { s with
    workers := Function.update s.workers id (some worker), up := s.up.sendAll (msgs.map (id, ·)) }

/-- A step. -/
def paranoidStep (clock : Nat → Nat) (s : System) : Action → Option System
  | .queue a => queueStep clock s a
  | .start id now =>
    if s.workers id = none then some (s.put id (ppworkerNew now) [[PPP_READY]]) else none
  | .message id msg => do
    let worker ← s.workers id
    let down ← s.down.receive (id, msg)
    let (worker, msgs) ← ppworkerMsg worker msg
    some { s.put id worker msgs with down }
  | .crash id msg => do
    let worker ← s.workers id
    let down ← s.down.receive (id, msg)
    if ppworkerCrash worker msg then
      some { s with workers := Function.update s.workers id none, down }
    else none
  | .timeout id id' => do
    let worker ← s.workers id
    match ppworkerTimeout worker with
    | (worker, none) => some (s.put id worker [])
    | (worker, some _) =>
      let workers := Function.update s.workers id none
      if workers id' = none then some ({ s with workers }.put id' worker [[PPP_READY]]) else none
  | .heartbeat id now now' => do
    let worker ← s.workers id
    let r := ppworkerHeartbeat worker now now'
    some (s.put id r.1 r.2)
  | .kill id => some { s with workers := Function.update s.workers id none }
  | .loseUp m => some { s with up := s.up.lose m }
  | .loseDown m => some { s with down := s.down.lose m }

/-- The transitions. -/
def ParanoidTrans (clock : Nat → Nat) (s : System) (a : Action) (s' : System) : Prop :=
  paranoidStep clock s a = some s'

/-- The queue before its loop, without workers. -/
def paranoidNew (clock : Nat → Nat) : System where
  queue := ppqueueNew clock
  workers _ := none
  up := .empty
  down := .empty

/-- A message of more than one frame, which is no control message of the protocol. -/
def isReply (m : Packet) : Bool := 1 < m.2.length

/-- The replies the queue has read, each with the worker it is from. -/
def System.answers (s : System) : List Packet := s.up.received.filter isReply

/-- What a step of the queue sends: a message of a worker goes to the frontend if it has more than
one frame, a request to a worker, heartbeats to workers. -/
inductive Sends (q : Ppqueue) : Pirate.Action → Ppqueue → Prop where
  | none {a q'} :
    (∀ m, a ≠ .backend (some m)) →
    q'.frontend = q.frontend →
    q'.backend = q.backend →
    Sends q a q'
  | reply {sender frames msg q'} :
    zmsgUnwrap (sender :: frames) = some (sender, msg) →
    q'.frontend = (if msg.length ≤ 1 then q.frontend else q.frontend ++ [msg]) →
    q'.backend = q.backend →
    Sends q (.backend (some (sender, frames))) q'
  | request {identity msg q'} :
    q'.frontend = q.frontend →
    q'.backend = q.backend ++ [.request identity msg] →
    Sends q (.frontend (some msg)) q'
  | heartbeat {q'} :
    q'.frontend = q.frontend →
    q'.backend = q.backend ++ q.workers.map (fun worker => .heartbeat worker.identity) →
    Sends q .heartbeat q'

section Queue

variable {clock : Nat → Nat} {q q' : Ppqueue} {a : Pirate.Action}

lemma sends_of_step (st : ppqueueStep clock q a = some q') : Sends q a q' := by
  unfold ppqueueStep at st
  split at st
  next =>
    cases st
    exact .none nofun rfl rfl
  next =>
    cases st
    exact .none nofun rfl rfl
  next sender frames polled point =>
    obtain ⟨⟨identity, msg⟩, unwrap, st⟩ := Option.bind_eq_some_iff.mp st
    obtain ⟨rest, same⟩ := zmsgUnwrap_cons sender frames
    cases st
    rw [same] at unwrap
    cases unwrap
    exact .reply same rfl rfl
  next =>
    cases st
    exact .none nofun rfl rfl
  next msg point =>
    obtain ⟨⟨identity, workers⟩, _, st⟩ := Option.bind_eq_some_iff.mp st
    cases st
    exact .request rfl rfl
  next =>
    split at st
    · cases st
      exact .heartbeat rfl rfl
    · cases st
      exact .none nofun rfl rfl
  next =>
    cases st
    exact .none nofun rfl rfl
  next => cases st

/-- Of the messages to workers, all but heartbeats are requests. -/
lemma mem_packet {backend : List Sent} {m : Packet} (mem : m ∈ backend.map packet) :
    m.2 = [PPP_HEARTBEAT] ∨ m ∈ backend.filterMap Sent.request? := by
  obtain ⟨sent, inBackend, rfl⟩ := List.mem_map.mp mem
  cases sent with
  | request identity msg =>
    exact .inr (List.mem_filterMap.mpr ⟨.request identity msg, inBackend, rfl⟩)
  | heartbeat identity => exact .inl rfl

lemma filter_packet_sublist (backend : List Sent) :
    ((backend.map packet).filter isReply).Sublist (backend.filterMap Sent.request?) := by
  induction backend with
  | nil => exact .slnil
  | cons sent backend ih =>
    cases sent with
    | request identity msg =>
      rw [List.map_cons]
      by_cases reply : isReply (packet (.request identity msg))
      · rw [List.filter_cons_of_pos reply]
        exact ih.cons_cons _
      · rw [List.filter_cons_of_neg reply]
        exact ih.cons _
    | heartbeat identity => exact ih

end Queue

/-- What holds of the queue and its workers together. -/
structure Inv (clock : Nat → Nat) (s : System) : Prop where
  queue : PpInv clock s.queue
  down : s.down.sent = s.queue.backend.map packet
  routed : ∀ e ∈ forwarded s.queue, Routed e.2
  plain : ∀ e ∈ s.up.sent, e.2.head? ≠ some []
  echo : (s.up.sent.filter isReply : Multiset Packet) ≤ s.down.received
  front : s.queue.frontend = s.answers.map Prod.snd

section Steps

variable {clock : Nat → Nat} {s s' : System} {a : Action}

lemma Inv.new (clock : Nat → Nat) : Inv clock (paranoidNew clock) where
  queue := .new clock
  down := rfl
  routed := nofun
  plain := nofun
  echo := le_rfl
  front := rfl

/-- What workers send, and what they answer, is all that changes for the queue. -/
lemma Inv.worker (inv : Inv clock s) {new : List Packet} (queue : s'.queue = s.queue)
    (down : s'.down.sent = s.down.sent) (received : s'.up.received = s.up.received)
    (sent : s'.up.sent = s.up.sent ++ new) (plain : ∀ e ∈ new, e.2.head? ≠ some [])
    (echo : (new.filter isReply : Multiset Packet) + s.down.received ≤ s'.down.received) :
    Inv clock s' where
  queue := queue ▸ inv.queue
  down := by rw [down, queue, inv.down]
  routed := queue ▸ inv.routed
  plain e mem := by
    rw [sent] at mem
    obtain mem | mem := List.mem_append.mp mem
    · exact inv.plain e mem
    · exact plain e mem
  echo := by
    rw [sent, List.filter_append, ← Multiset.coe_add, add_comm]
    exact (add_le_add_right inv.echo _).trans echo
  front := by rw [queue, inv.front, System.answers, System.answers, received]

/-- A control message of a worker. -/
lemma Inv.control (inv : Inv clock s) {id : Frame} {worker : Ppworker} {msgs : List Zmsg}
    (control : ∀ m ∈ msgs, m = [PPP_READY] ∨ m = [PPP_HEARTBEAT]) :
    Inv clock (s.put id worker msgs) := by
  refine inv.worker rfl rfl (Channel.sendAll_received _ _) (Channel.sendAll_sent _ _) ?_ ?_
  · intro e mem
    obtain ⟨m, sent, rfl⟩ := List.mem_map.mp mem
    obtain rfl | rfl := control m sent <;> exact fun e => nomatch e
  · have none : (msgs.map (id, ·)).filter isReply = [] := by
      rw [List.filter_eq_nil_iff]
      intro e mem
      obtain ⟨m, sent, rfl⟩ := List.mem_map.mp mem
      obtain rfl | rfl := control m sent <;> exact Bool.false_ne_true
    rw [none]
    exact (zero_add _).le

/-- What is under way to a worker is a heartbeat, or a request with its address. -/
lemma Inv.underway (inv : Inv clock s) {m : Packet} (mem : m ∈ s.down.sent) :
    m.2 = [PPP_HEARTBEAT] ∨ Routed m.2 := by
  rw [inv.down] at mem
  exact (mem_packet mem).imp_right (inv.routed m)

/-- A worker reads a message, and sends a request back. -/
lemma Inv.message (inv : Inv clock s) {id : Frame} {worker worker' : Ppworker} {msg : Zmsg}
    {msgs : List Zmsg} {down : Channel Packet} (took : s.down.receive (id, msg) = some down)
    (e : ppworkerMsg worker msg = some (worker', msgs)) :
    Inv clock { s.put id worker' msgs with down } := by
  obtain ⟨_, sent, _, received⟩ := Channel.receive_eq_some took
  obtain ⟨_, _, msgs_eq⟩ := ppworkerMsg_spec e
  have wasSent : (id, msg) ∈ s.down.sent := Multiset.mem_of_le (Channel.receive_le took) (by simp)
  refine inv.worker rfl sent (Channel.sendAll_received _ _) (Channel.sendAll_sent _ _) ?_ ?_
  · intro e mem
    obtain ⟨m, back, rfl⟩ := List.mem_map.mp mem
    rw [msgs_eq] at back
    split at back
    · rename_i three
      rw [List.mem_singleton.mp back]
      obtain beat | ⟨client, frame, frames, rfl, ne⟩ := inv.underway wasSent
      · have beat : msg = [PPP_HEARTBEAT] := beat
        rw [beat] at three
        cases three
      · simpa using ne
    · cases back
  · show _ ≤ (down.received : Multiset Packet)
    rw [received, ← Multiset.coe_add, add_comm]
    refine add_le_add_right ?_ _
    refine Multiset.coe_le.mpr (List.Sublist.subperm (List.filter_sublist.trans ?_))
    rw [msgs_eq]
    split
    · exact .refl _
    · exact List.nil_sublist _

/-- The queue goes on, and sends to workers. -/
lemma Inv.forward (inv : Inv clock s) {queue : Ppqueue} {up : Channel Packet} {new : List Sent}
    (qinv : PpInv clock queue) (backend : queue.backend = s.queue.backend ++ new)
    (routed : ∀ e ∈ new.filterMap Sent.request?, Routed e.2) (sent : up.sent = s.up.sent)
    (front : queue.frontend = (up.received.filter isReply).map Prod.snd) :
    Inv clock { s with
      queue, up,
      down := s.down.sendAll ((queue.backend.drop s.queue.backend.length).map packet) } where
  queue := qinv
  down := by
    rw [Channel.sendAll_sent, backend, List.drop_left, List.map_append, inv.down]
  routed e mem := by
    rw [forwarded, backend, List.filterMap_append] at mem
    obtain mem | mem := List.mem_append.mp mem
    · exact inv.routed e mem
    · exact routed e mem
  plain := sent ▸ inv.plain
  echo := by
    rw [Channel.sendAll_received, sent]
    exact inv.echo
  front := front

/-- Unless the queue reads from a worker, nothing is taken from what is under way to it. -/
lemma queueInput_up {a : Pirate.Action} {up : Channel Packet} (e : queueInput s a = some up)
    (other : ∀ m, a ≠ .backend (some m)) : up = s.up := by
  unfold queueInput at e
  split at e
  · exact absurd rfl (other _)
  · obtain ⟨_, e⟩ := Option.ite_none_left_eq_some.mp e
    exact (Option.some.inj e).symm
  · cases e
  · exact (Option.some.inj e).symm

lemma queueInput_routed {msg : Zmsg} {up : Channel Packet}
    (e : queueInput s (.frontend (some msg)) = some up) : Routed msg := by
  match msg, e with
  | client :: frame :: frames, e =>
    obtain ⟨ne, _⟩ := Option.ite_none_left_eq_some.mp e
    exact ⟨client, frame, frames, rfl, ne⟩

lemma zmsgUnwrap_plain {sender : Frame} {frames : Zmsg} (plain : frames.head? ≠ some []) :
    zmsgUnwrap (sender :: frames) = some (sender, frames) := by
  rcases frames with _ | ⟨_ | ⟨byte, frame⟩, frames⟩
  · rfl
  · exact absurd rfl plain
  · rfl

/-- A message of a worker is read, and passed on if it is a reply. -/
lemma Inv.reply (inv : Inv clock s) {sender : Frame} {frames msg : Zmsg} {up : Channel Packet}
    {queue : Ppqueue} (took : s.up.receive (sender, frames) = some up)
    (unwrap : zmsgUnwrap (sender :: frames) = some (sender, msg))
    (front : queue.frontend = if msg.length ≤ 1 then s.queue.frontend
      else s.queue.frontend ++ [msg]) :
    queue.frontend = (up.received.filter isReply).map Prod.snd := by
  obtain ⟨_, _, _, received⟩ := Channel.receive_eq_some took
  have plain := inv.plain (sender, frames) (Multiset.mem_of_le (Channel.receive_le took) (by simp))
  rw [zmsgUnwrap_plain plain] at unwrap
  obtain ⟨_, rfl⟩ := Prod.mk.inj (Option.some.inj unwrap)
  rw [front, received, List.filter_append, List.map_append, ← System.answers, ← inv.front]
  by_cases control : frames.length ≤ 1
  · have none : isReply (sender, frames) = false := by simpa [isReply] using control
    rw [if_pos control, List.filter_cons_of_neg (by rw [none]; exact Bool.false_ne_true)]
    exact (List.append_nil _).symm
  · have reply : isReply (sender, frames) = true := by simpa [isReply] using control
    rw [if_neg control, List.filter_cons_of_pos reply]
    rfl

lemma Inv.queueStep (inv : Inv clock s) (mono : Monotone clock) {a : Pirate.Action}
    (st : queueStep clock s a = some s') : Inv clock s' := by
  obtain ⟨up, input, st⟩ := Option.bind_eq_some_iff.mp st
  obtain ⟨queue, step, st⟩ := Option.bind_eq_some_iff.mp st
  cases st
  have qinv : PpInv clock queue := inv.queue.step mono step
  cases sends_of_step step with
  | none other front backend =>
    refine inv.forward qinv (by rw [backend, List.append_nil]) (by simp)
      (by rw [queueInput_up input other]) ?_
    rw [front, queueInput_up input other]
    exact inv.front
  | reply unwrap front backend =>
    refine inv.forward qinv (by rw [backend, List.append_nil]) (by simp) ?_
      (inv.reply input unwrap front)
    exact (Channel.receive_eq_some input).2.1
  | request front backend =>
    refine inv.forward qinv backend ?_ (by rw [queueInput_up input nofun]) ?_
    · intro e mem
      rw [List.mem_singleton.mp mem]
      exact queueInput_routed input
    · rw [front, queueInput_up input nofun]
      exact inv.front
  | heartbeat front backend =>
    refine inv.forward qinv backend ?_ (by rw [queueInput_up input nofun]) ?_
    · intro e mem
      obtain ⟨sent, beat, request⟩ := List.mem_filterMap.mp mem
      obtain ⟨worker, _, rfl⟩ := List.mem_map.mp beat
      cases request
    · rw [front, queueInput_up input nofun]
      exact inv.front

lemma Inv.step (inv : Inv clock s) (mono : Monotone clock) (st : ParanoidTrans clock s a s') :
    Inv clock s' := by
  cases a with
  | queue a => exact inv.queueStep mono st
  | start id now =>
    obtain ⟨_, st⟩ := Option.ite_none_right_eq_some.mp st
    cases st
    exact inv.control (by simp)
  | message id msg =>
    obtain ⟨worker, _, st⟩ := Option.bind_eq_some_iff.mp st
    obtain ⟨down, took, st⟩ := Option.bind_eq_some_iff.mp st
    obtain ⟨⟨worker', msgs⟩, e, st⟩ := Option.bind_eq_some_iff.mp st
    cases st
    exact inv.message took e
  | crash id msg =>
    obtain ⟨worker, _, st⟩ := Option.bind_eq_some_iff.mp st
    obtain ⟨down, took, st⟩ := Option.bind_eq_some_iff.mp st
    obtain ⟨_, st⟩ := Option.ite_none_right_eq_some.mp st
    cases st
    obtain ⟨_, sent, _, received⟩ := Channel.receive_eq_some took
    refine inv.worker rfl sent rfl (List.append_nil _).symm nofun ?_
    show _ ≤ (down.received : Multiset Packet)
    rw [received, ← Multiset.coe_add]
    exact (zero_add _).le.trans (Multiset.le_add_right _ _)
  | timeout id id' =>
    obtain ⟨worker, _, st⟩ := Option.bind_eq_some_iff.mp st
    split at st
    · cases st
      exact inv.control nofun
    · obtain ⟨_, st⟩ := Option.ite_none_right_eq_some.mp st
      cases st
      have gone : Inv clock { s with workers := Function.update s.workers id none } :=
        inv.worker rfl rfl rfl (List.append_nil _).symm nofun (zero_add _).le
      exact gone.control (by simp)
  | heartbeat id now now' =>
    obtain ⟨worker, _, st⟩ := Option.bind_eq_some_iff.mp st
    cases st
    refine inv.control fun m mem => .inr ?_
    unfold ppworkerHeartbeat at mem
    split at mem
    · exact List.mem_singleton.mp mem
    · cases mem
  | kill id =>
    cases st
    exact inv.worker rfl rfl rfl (List.append_nil _).symm nofun (zero_add _).le
  | loseUp m =>
    cases st
    exact inv.worker rfl rfl rfl (List.append_nil _).symm nofun (zero_add _).le
  | loseDown m =>
    cases st
    exact inv.worker rfl rfl rfl (List.append_nil _).symm nofun (zero_add _).le

/-- The replies that were read are requests that were given to the workers they are from. -/
lemma Inv.answers_le (inv : Inv clock s) : (s.answers : Multiset Packet) ≤ forwarded s.queue := by
  have read : s.answers.Subperm (s.up.sent.filter isReply) :=
    (Multiset.coe_le.mp s.up.received_le).filter isReply
  have back : (s.up.sent.filter isReply).Subperm (s.down.received.filter isReply) := by
    have echo := (Multiset.coe_le.mp inv.echo).filter isReply
    simpa only [List.filter_filter, Bool.and_self] using echo
  have given : (s.down.received.filter isReply).Subperm (s.down.sent.filter isReply) :=
    (Multiset.coe_le.mp s.down.received_le).filter isReply
  rw [inv.down] at given
  exact Multiset.coe_le.mpr
    (((read.trans back).trans given).trans (filter_packet_sublist s.queue.backend).subperm)

end Steps

/-- What is asked of the queue and its workers. -/
structure Echo (clock : Nat → Nat) (s : System) : Prop where
  front : s.queue.frontend = s.answers.map Prod.snd
  worker : (s.answers : Multiset Packet) ≤ forwarded s.queue
  once : (s.queue.frontend : Multiset Zmsg) ≤ s.queue.requests
  served : ∀ id worker msg, s.workers id = some worker → (id, msg) ∈ s.down.underway →
    ∃ s', paranoidStep clock s (.message id msg) = some s'

/-- In every run of the queue with workers that come and go, as long as the clock does not go back:
what the queue sends to its frontend are the replies that it read from workers, in order; each of
them is a request that was given to that worker, with repetitions, so that the queue sends no more
to its frontend than it read there, message by message; and a worker never faults on what is under
way to it. -/
theorem paranoid_pirate_echo (clock : Nat → Nat) (mono : Monotone clock) :
    ∀ tr s, Run (ParanoidTrans clock) (paranoidNew clock) tr s → Echo clock s := by
  intro tr s run
  have inv : Inv clock s :=
    run.invariant (Inv clock) (.new clock) fun _ _ _ inv st => inv.step mono st
  refine ⟨inv.front, inv.answers_le, ?_, fun id worker msg here mem => ?_⟩
  · have le := Multiset.map_le_map (f := Prod.snd) inv.answers_le
    rwa [Multiset.map_coe, Multiset.map_coe, inv.queue.once, ← inv.front] at le
  · obtain ⟨down, took⟩ := Channel.receive_of_mem mem
    have sent : (id, msg) ∈ s.down.sent :=
      Multiset.mem_of_le ((Multiset.le_add_right _ _).trans s.down.balance) mem
    obtain ⟨r, e⟩ : ∃ r, ppworkerMsg worker msg = some r := by
      obtain beat | ⟨client, frame, frames, rfl, _⟩ := inv.underway sent
      · have beat : msg = [PPP_HEARTBEAT] := beat
        rw [beat]
        exact ⟨_, rfl⟩
      · rcases frames with _ | ⟨third, _ | ⟨fourth, frames⟩⟩ <;> exact ⟨_, rfl⟩
    refine ⟨{ s.put id r.1 r.2 with down }, ?_⟩
    rw [paranoidStep, here, Option.bind_eq_bind, Option.bind_some, took, Option.bind_eq_bind,
      Option.bind_some, e]
    rfl

/-- A worker is given a request and sends it back; the next request is lost with the worker. -/
def twoRequests : List Action :=
  [.kill [65], .queue (.frontend (some [[68], [], [2]])), .queue (.backend none), .queue .poll,
    .queue .purge,
    .queue .heartbeat, .queue (.frontend none), .queue (.backend (some ([65], [[67], [], [1]]))),
    .queue .poll, .queue .purge, .queue .heartbeat, .message [65] [[67], [], [1]],
    .queue (.frontend (some [[67], [], [1]])),
    .queue (.backend none), .queue .poll, .queue .purge, .queue .heartbeat, .queue (.frontend none),
    .queue (.backend (some ([65], [[1]]))), .queue .poll, .start [65] 0]

theorem paranoid_pirate_echo_two : ∃ s : System,
    Run (ParanoidTrans fun n => 300 * n) (paranoidNew fun n => 300 * n) twoRequests s ∧
    s.queue.frontend = [[[67], [], [1]]] ∧ s.queue.requests = [[[67], [], [1]], [[68], [], [2]]] ∧
    Echo (fun n => 300 * n) s := by
  have mono : Monotone fun n => 300 * n := fun i j le => Nat.mul_le_mul_left 300 le
  have all : (exec (paranoidStep fun n => 300 * n) (paranoidNew fun n => 300 * n) twoRequests).any
      (fun s => s.queue.frontend = [[[67], [], [1]]] ∧
          s.queue.requests = [[[67], [], [1]], [[68], [], [2]]]) = true := by
    decide +kernel
  obtain ⟨s, e, facts⟩ := (Option.any_eq_true _ _).mp all
  obtain ⟨front, requests⟩ := of_decide_eq_true facts
  exact ⟨s, exec_run e, front, requests, paranoid_pirate_echo _ mono _ _ (exec_run e)⟩

end SweetClib.Pirate.Paranoid
