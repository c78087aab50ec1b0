import SweetClib.Lib.Channel
import SweetClib.Lib.Print
import SweetClib.Lib.Run
import SweetClib.Majordomo.Zmsg

/-!
# The asynchronous server

`lib/zeromq/async/async_server.c`: clients send numbered requests whenever they like, a proxy
shares them out among five workers, and a worker sends each request back a random number of times.
A `ZMQ_ROUTER` socket puts the identity of the client before a message it reads, and takes it off
what it sends to find the client; `ZMQ_DEALER` sockets send messages as they are, that of the proxy
to any of the workers. Messages may be lost, and come in any order.

`randof(5)` is computed in `float` from a value of `random` that may round up to `RAND_MAX + 1`, so
that it can be 5.

C → Lean naming: `client_task` → the actions `send` and `recv`, `server_task` with `zmq_proxy` →
`forward` and `back`, `server_worker` → `take`, `answer` and `finish`.
-/

namespace SweetClib.Async
open SweetClib.Lib SweetClib.Majordomo

/-- The most replies of a worker to one request. -/
def MAX_REPLIES : Nat := 5

/-- A worker: at its `zmsg_recv`, or in its loop with so many replies left to send. -/
inductive Worker where
  | waiting
  | sending (identity content : Frame) (left : Nat)
deriving DecidableEq

/-- The clients with the numbers of their last requests, the workers, and what is under way: from
clients to the proxy, from the proxy to a worker, from workers to the proxy, from the proxy to a
client. -/
structure System where
  requestNbr : Frame → Nat
  workers : Fin 5 → Worker
  requests : Channel (Frame × Zmsg)
  work : Channel (Fin 5 × Zmsg)
  replies : Channel Zmsg
  results : Channel (Frame × Zmsg)

/-- The text `"request #%d"`. -/
def requestText (n : Nat) : Frame := text "request #" ++ natText n

/-- The steps of the clients, of the proxy, of the workers, and the losses. -/
inductive Action where
  | send (id : Frame)
  | recv (id : Frame) (msg : Zmsg)
  | forward (m : Frame × Zmsg) (i : Fin 5)
  | back (msg : Zmsg)
  | take (i : Fin 5) (msg : Zmsg) (replies : Nat)
  | answer (i : Fin 5)
  | finish (i : Fin 5)
  | loseRequest (m : Frame × Zmsg)
  | loseReply (m : Frame × Zmsg)

/-- A step; there is none where a process cannot take it, and at a fault. -/
def asyncStep (s : System) : Action → Option System
  | .send id =>
    let requestNbr := s.requestNbr id + 1
    -- `++request_nbr` overflows at the greatest `int`
    if requestNbr < 2 ^ 31 then
      some { s with requestNbr := Function.update s.requestNbr id requestNbr
                    requests := s.requests.send (id, [requestText requestNbr]) }
    else none
  | .recv id msg => (s.results.receive (id, msg)).map fun results => { s with results }
  | .forward m i =>
    (s.requests.receive m).map fun requests =>
      { s with requests, work := s.work.send (i, m.1 :: m.2) }
  | .back msg => do
    let replies ← s.replies.receive msg
    match msg with
    | [] => none
    | identity :: msg => some { s with replies, results := s.results.send (identity, msg) }
  | .take i msg replies => do
    if s.workers i = .waiting ∧ replies ≤ MAX_REPLIES then
      let work ← s.work.receive (i, msg)
      match msg with
      -- `assert(content)`
      | identity :: content :: _ =>
        some { s with
          work, workers := Function.update s.workers i (.sending identity content replies) }
      | _ => none
    else none
  | .answer i =>
    match s.workers i with
    | .sending identity content (left + 1) =>
      some { s with workers := Function.update s.workers i (.sending identity content left)
                    replies := s.replies.send [identity, content] }
    | _ => none
  | .finish i =>
    match s.workers i with
    | .sending _ _ 0 => some { s with workers := Function.update s.workers i .waiting }
    | _ => none
  | .loseRequest m => some { s with requests := s.requests.lose m }
  | .loseReply m => some { s with results := s.results.lose m }

/-- The transitions. -/
def AsyncTrans (s : System) (a : Action) (s' : System) : Prop := asyncStep s a = some s'

/-- The clients and the server at the start. -/
def asyncNew : System where
  requestNbr _ := 0
  workers _ := .waiting
  requests := .empty
  work := .empty
  replies := .empty
  results := .empty

/-- How often a worker still has to send a message. -/
def Worker.owed : Worker → Zmsg → Nat
  | .waiting, _ => 0
  | .sending identity content left, m => if m = [identity, content] then left else 0

/-- How often a message is still to be sent by some worker. -/
def System.owed (s : System) (m : Zmsg) : Nat := ∑ i, (s.workers i).owed m

/-- A message with the address a `ZMQ_ROUTER` socket gives it. -/
def addressed (m : Frame × Zmsg) : Zmsg := m.1 :: m.2

/-- The accounts along the way of a request: from the client, where each number is sent once,
through the proxy to a worker, and from there through the proxy to the client. -/
structure Inv (s : System) : Prop where
  texts : ∀ m ∈ s.requests.sent, ∃ n, 1 ≤ n ∧ n ≤ s.requestNbr m.1 ∧ m.2 = [requestText n]
  once : ∀ id n, s.requests.sent.count (id, [requestText n]) ≤ if n ≤ s.requestNbr id then 1 else 0
  forward : s.work.sent.map Prod.snd = s.requests.received.map addressed
  workers : Repeats MAX_REPLIES (s.work.received.map Prod.snd) s.owed s.replies.sent
  back : s.results.sent.map addressed = s.replies.received

section Steps

variable {s s' : System} {a : Action}

/-- Different numbers make different requests. -/
lemma requestText_inj {m n : Nat} (e : requestText m = requestText n) : m = n :=
  natText_inj (List.append_cancel_left e)

/-- Nothing was sent at the start. -/
lemma Inv.new : Inv asyncNew where
  texts := nofun
  once _ _ := Nat.zero_le _
  forward := rfl
  workers m := by simp [asyncNew, System.owed, Worker.owed, Channel.empty]
  back := rfl

/-- A client sends its next request. -/
lemma Inv.send (inv : Inv s) (id : Frame) :
    Inv { s with requestNbr := Function.update s.requestNbr id (s.requestNbr id + 1)
                 requests := s.requests.send (id, [requestText (s.requestNbr id + 1)]) } where
  texts m mem := by
    obtain mem | mem := List.mem_append.mp mem
    · obtain ⟨n, one, le, text⟩ := inv.texts m mem
      refine ⟨n, one, ?_, text⟩
      show n ≤ Function.update s.requestNbr id _ m.1
      rcases eq_or_ne m.1 id with same | other
      · rw [same, Function.update_self]
        rw [same] at le
        omega
      · rwa [Function.update_of_ne other]
    · rw [List.mem_singleton.mp mem]
      refine ⟨s.requestNbr id + 1, by omega, ?_, rfl⟩
      show _ ≤ Function.update s.requestNbr id _ id
      rw [Function.update_self]
  once id' n := by
    have before := inv.once id' n
    show (s.requests.sent ++ [_]).count _ ≤ if n ≤ Function.update s.requestNbr id _ id' then 1
      else 0
    rw [List.count_append, List.count_singleton]
    rcases eq_or_ne id' id with rfl | other
    · rw [Function.update_self]
      by_cases last : n = s.requestNbr id' + 1
      · subst last
        rw [if_neg (by omega)] at before
        simp only [beq_self_eq_true, if_true, le_refl]
        omega
      · have ne : ((id', [requestText (s.requestNbr id' + 1)]) == (id', [requestText n])) =
            false := by
          rw [beq_eq_false_iff_ne]
          intro e
          simp only [Prod.mk.injEq, List.cons.injEq, and_true, true_and] at e
          exact last (requestText_inj e).symm
        have same : n ≤ s.requestNbr id' + 1 ↔ n ≤ s.requestNbr id' := by omega
        rw [ne, if_congr same rfl rfl]
        exact before
    · have ne : ((id, [requestText (s.requestNbr id + 1)]) == (id', [requestText n])) = false := by
        rw [beq_eq_false_iff_ne]
        exact fun e => other (Prod.mk.inj e).1.symm
      rw [Function.update_of_ne other, ne]
      exact before
  forward := inv.forward
  workers := inv.workers
  back := inv.back

/-- What the proxy sends to a worker is a request, with the address of its client. -/
lemma Inv.work_text (inv : Inv s) {e : Fin 5 × Zmsg} (mem : e ∈ s.work.sent) :
    ∃ id n, 1 ≤ n ∧ n ≤ s.requestNbr id ∧ e.2 = [id, requestText n] := by
  have mem : e.2 ∈ s.work.sent.map Prod.snd := List.mem_map_of_mem mem
  rw [inv.forward] at mem
  obtain ⟨m, mem, e⟩ := List.mem_map.mp mem
  obtain ⟨n, one, le, text⟩ := inv.texts m (Multiset.mem_of_le s.requests.received_le mem)
  exact ⟨m.1, n, one, le, by rw [← e, addressed, text]⟩

/-- A worker takes a request. -/
lemma Inv.take (inv : Inv s) {i : Fin 5} {identity content : Frame} {rest : Zmsg} {replies : Nat}
    {work : Channel (Fin 5 × Zmsg)} (idle : s.workers i = .waiting) (le : replies ≤ MAX_REPLIES)
    (took : s.work.receive (i, identity :: content :: rest) = some work) :
    Inv { s with
      work, workers := Function.update s.workers i (.sending identity content replies) } := by
  obtain ⟨_, sent, _, received⟩ := Channel.receive_eq_some took
  have wasSent : (i, identity :: content :: rest) ∈ s.work.sent :=
    Multiset.mem_of_le (Channel.receive_le took) (by simp)
  have two : identity :: content :: rest = [identity, content] := by
    obtain ⟨id, n, _, _, e⟩ := inv.work_text wasSent
    simp only [List.cons.injEq] at e
    rw [e.2.2]
  refine ⟨inv.texts, inv.once, ?_, ?_, inv.back⟩
  · show work.sent.map Prod.snd = _
    rw [sent, inv.forward]
  · show Repeats MAX_REPLIES (work.received.map Prod.snd) _ _
    rw [received, List.map_append, List.map_singleton, two]
    refine inv.workers.take le fun m => ?_
    have owes := sum_update (Worker.owed · m) s.workers i (.sending identity content replies)
    rw [idle] at owes
    exact owes

/-- A worker sends one of its replies. -/
lemma Inv.answer (inv : Inv s) {i : Fin 5} {identity content : Frame} {left : Nat}
    (busy : s.workers i = .sending identity content (left + 1)) :
    Inv { s with workers := Function.update s.workers i (.sending identity content left)
                 replies := s.replies.send [identity, content] } := by
  refine ⟨inv.texts, inv.once, inv.forward, inv.workers.pass fun m => ?_, inv.back⟩
  have owes := sum_update (Worker.owed · m) s.workers i (.sending identity content left)
  rw [busy] at owes
  show ∑ j, (s.workers j).owed m = ∑ j,
    (Function.update s.workers i (.sending identity content left) j).owed m + _
  rw [Worker.owed, Worker.owed] at owes
  split at owes
  · rw [if_pos ‹_›]
    omega
  · rw [if_neg ‹_›]
    omega

/-- A worker has sent all replies. -/
lemma Inv.finish (inv : Inv s) {i : Fin 5} {identity content : Frame}
    (done : s.workers i = .sending identity content 0) :
    Inv { s with workers := Function.update s.workers i .waiting } := by
  refine ⟨inv.texts, inv.once, inv.forward, fun m => ?_, inv.back⟩
  have owes := sum_update (Worker.owed · m) s.workers i .waiting
  have none : (s.workers i).owed m = 0 := by
    rw [done]
    exact ite_self 0
  rw [none] at owes
  exact le_of_eq_of_le (congrArg (s.replies.sent.count m + ·) owes) (inv.workers m)

/-- The proxy passes a request on to a worker. -/
lemma Inv.forwards (inv : Inv s) {m : Frame × Zmsg} {i : Fin 5} {requests : Channel (Frame × Zmsg)}
    (took : s.requests.receive m = some requests) :
    Inv { s with requests, work := s.work.send (i, m.1 :: m.2) } := by
  obtain ⟨_, sent, _, received⟩ := Channel.receive_eq_some took
  refine ⟨sent ▸ inv.texts, sent ▸ inv.once, ?_, inv.workers, inv.back⟩
  show (s.work.sent ++ [_]).map Prod.snd = requests.received.map addressed
  rw [received, List.map_append, List.map_append, inv.forward]
  rfl

/-- The proxy passes a reply back to a client. -/
lemma Inv.backs (inv : Inv s) {identity : Frame} {msg : Zmsg} {replies : Channel Zmsg}
    (took : s.replies.receive (identity :: msg) = some replies) :
    Inv { s with replies, results := s.results.send (identity, msg) } := by
  obtain ⟨_, sent, _, received⟩ := Channel.receive_eq_some took
  refine ⟨inv.texts, inv.once, inv.forward, sent ▸ inv.workers, ?_⟩
  show (s.results.sent ++ [_]).map addressed = replies.received
  rw [received, List.map_append, inv.back]
  rfl

/-- Every step keeps the invariant. -/
lemma Inv.step (inv : Inv s) (st : AsyncTrans s a s') : Inv s' := by
  cases a with
  | send id =>
    obtain ⟨_, st⟩ := Option.ite_none_right_eq_some.mp st
    cases st
    exact inv.send id
  | recv id msg =>
    obtain ⟨results, took, rfl⟩ := Option.map_eq_some_iff.mp st
    obtain ⟨_, sent, _, _⟩ := Channel.receive_eq_some took
    exact ⟨inv.texts, inv.once, inv.forward, inv.workers, by rw [sent]; exact inv.back⟩
  | forward m i =>
    obtain ⟨requests, took, rfl⟩ := Option.map_eq_some_iff.mp st
    exact inv.forwards took
  | back msg =>
    obtain ⟨replies, took, st⟩ := Option.bind_eq_some_iff.mp st
    cases msg with
    | nil => cases st
    | cons identity msg =>
      cases st
      exact inv.backs took
  | take i msg replies =>
    obtain ⟨⟨idle, le⟩, st⟩ := Option.ite_none_right_eq_some.mp st
    obtain ⟨work, took, st⟩ := Option.bind_eq_some_iff.mp st
    match msg, took, st with
    | identity :: content :: rest, took, st =>
      cases st
      exact inv.take idle le took
  | answer i =>
    simp only [AsyncTrans, asyncStep] at st
    split at st
    · rename_i busy
      cases st
      exact inv.answer busy
    · cases st
  | finish i =>
    simp only [AsyncTrans, asyncStep] at st
    split at st
    · rename_i done
      cases st
      exact inv.finish done
    · cases st
  | loseRequest m =>
    cases st
    exact ⟨inv.texts, inv.once, inv.forward, inv.workers, inv.back⟩
  | loseReply m =>
    cases st
    exact ⟨inv.texts, inv.once, inv.forward, inv.workers, inv.back⟩

/-- A reply comes to a client no more than `MAX_REPLIES` times as often as the client sent it. -/
lemma Inv.count_le (inv : Inv s) (m : Frame × Zmsg) :
    s.results.received.count m ≤ MAX_REPLIES * s.requests.sent.count m := by
  have inj : Function.Injective addressed := by
    rintro ⟨id, msg⟩ ⟨id', msg'⟩ e
    obtain ⟨rfl, rfl⟩ := List.cons.inj e
    rfl
  calc s.results.received.count m ≤ s.results.sent.count m :=
        (Multiset.coe_le.mp s.results.received_le).count_le m
    _ = s.replies.received.count (addressed m) := by
      rw [← inv.back, List.count_map_of_injective _ _ inj]
    _ ≤ s.replies.sent.count (addressed m) := (Multiset.coe_le.mp s.replies.received_le).count_le _
    _ ≤ MAX_REPLIES * (s.work.received.map Prod.snd).count (addressed m) :=
        (Nat.le_add_right _ _).trans (inv.workers (addressed m))
    _ ≤ MAX_REPLIES * (s.work.sent.map Prod.snd).count (addressed m) :=
        Nat.mul_le_mul_left _
          ((Multiset.coe_le.mp (Multiset.map_le_map s.work.received_le)).count_le _)
    _ = MAX_REPLIES * s.requests.received.count m := by
      rw [inv.forward, List.count_map_of_injective _ _ inj]
    _ ≤ MAX_REPLIES * s.requests.sent.count m :=
        Nat.mul_le_mul_left _ ((Multiset.coe_le.mp s.requests.received_le).count_le m)

/-- A reply has the text of a request. -/
lemma Inv.reply_text (inv : Inv s) {m : Zmsg} (mem : m ∈ s.replies.sent) :
    ∃ id n, m = [id, requestText n] := by
  have sent := List.count_pos_iff.mpr mem
  have among := inv.workers m
  have took : 0 < (s.work.received.map Prod.snd).count m := by
    by_contra none
    rw [Nat.eq_zero_of_not_pos none] at among
    omega
  obtain ⟨e, wasTaken, rfl⟩ := List.mem_map.mp (List.count_pos_iff.mp took)
  obtain ⟨id, n, _, _, text⟩ := inv.work_text (Multiset.mem_of_le s.work.received_le wasTaken)
  exact ⟨id, n, text⟩

/-- So has a result, and the client has sent that request. -/
lemma Inv.result_text (inv : Inv s) {m : Frame × Zmsg} (mem : m ∈ s.results.received) :
    ∃ n, 1 ≤ n ∧ n ≤ s.requestNbr m.1 ∧ m.2 = [requestText n] := by
  have received := List.count_pos_iff.mpr mem
  have among := inv.count_le m
  apply inv.texts m
  by_contra none
  rw [List.count_eq_zero_of_not_mem none] at among
  omega

end Steps

/-- In every run of clients, proxy and workers, whatever is lost and in whatever order messages
come: a client only gets texts of requests that it sent itself, each of them at most `MAX_REPLIES`
times. No worker stops at its assertion on what it is sent, and what workers send always has an
address for the proxy. -/
theorem async_replies (tr : List Action) (s : System) (run : Run AsyncTrans asyncNew tr s) :
    (∀ m ∈ s.results.received, ∃ n, 1 ≤ n ∧ n ≤ s.requestNbr m.1 ∧ m.2 = [requestText n]) ∧
    (∀ id n, s.results.received.count (id, [requestText n]) ≤ MAX_REPLIES) ∧
    (∀ i msg replies, s.workers i = .waiting → replies ≤ MAX_REPLIES → (i, msg) ∈ s.work.underway →
      ∃ s', asyncStep s (.take i msg replies) = some s') ∧
    (∀ msg ∈ s.replies.underway, ∃ s', asyncStep s (.back msg) = some s') := by
  have inv : Inv s := run.invariant Inv .new fun _ _ _ inv st => inv.step st
  refine ⟨fun m mem => inv.result_text mem, fun id n => ?_, fun i msg replies idle le mem => ?_,
    fun msg mem => ?_⟩
  · have once : s.requests.sent.count (id, [requestText n]) ≤ 1 :=
      le_trans (inv.once id n) (by split <;> omega)
    calc s.results.received.count (id, [requestText n])
        ≤ MAX_REPLIES * s.requests.sent.count (id, [requestText n]) := inv.count_le _
      _ ≤ MAX_REPLIES * 1 := Nat.mul_le_mul_left _ once
  · obtain ⟨work, took⟩ := Channel.receive_of_mem mem
    obtain ⟨id, n, _, _, text⟩ := inv.work_text (s.work.mem_sent mem)
    cases text
    exact ⟨_, by rw [asyncStep, if_pos ⟨idle, le⟩, took]; rfl⟩
  · obtain ⟨replies, took⟩ := Channel.receive_of_mem mem
    obtain ⟨id, n, text⟩ := inv.reply_text (s.replies.mem_sent mem)
    cases text
    exact ⟨_, by rw [asyncStep, took]; rfl⟩

/-- A client's first request, answered twice, with one reply read. -/
def twoReplies : List Action :=
  [.recv [65] [requestText 1], .back [[65], requestText 1], .answer 2, .back [[65], requestText 1],
    .answer 2, .take 2 [[65], requestText 1] 2, .forward ([65], [requestText 1]) 2, .send [65]]

/-- A reply in hand and another under way. -/
theorem async_replies_two :
    ∃ s, Run AsyncTrans asyncNew twoReplies s ∧ s.results.received = [([65], [requestText 1])] ∧
      s.results.underway = [([65], [requestText 1])] ∧
        s.results.received.count ([65], [requestText 1]) ≤ MAX_REPLIES := by
  have some :
    ((exec asyncStep asyncNew twoReplies).map fun s => (s.results.received, s.results.underway)) =
      some ([([65], [requestText 1])], [([65], [requestText 1])]) := by decide
  obtain ⟨s, e, res⟩ := Option.map_eq_some_iff.mp some
  obtain ⟨received, underway⟩ := Prod.mk.inj res
  exact ⟨s, exec_run e, received, underway, (async_replies _ _ (exec_run e)).2.1 [65] 1⟩

end SweetClib.Async
