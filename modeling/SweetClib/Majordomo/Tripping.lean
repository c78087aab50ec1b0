import SweetClib.Lib.Run

/-!
# The round-trip test

Model of `MDP/tripping.c`: a client and a worker with a broker between them. The client first makes
calls one by one, and waits for the reply to each; then it sends all requests of the second test
before it receives the first reply. The worker sends back what it receives.

What lies between the client and the worker (the sockets with their queues, the connections and
`zmq_proxy`) is a parameter, `Network`: a state, the steps in which one of the four calls returns,
and steps of its own. It is assumed that it neither loses nor makes up messages
(`Network.Faithful`). How many messages it takes is another assumption, of the results that depend
on it: it never holds more than so many (`Network.Holds`), or it goes on as long as there are fewer
than so many (`Network.Carries`). All messages are the same, so that only their numbers count.

Every call takes one message one place further, or the client to its next loop, so every run that
ends the test has the same number of calls (`work_step`). Between its two loops the client has all
requests of the second test under way at once: with a network that does not hold them the test
cannot come to its end, and with one that carries them it comes to its end whatever happens
(`round_trips`).
-/

namespace SweetClib.Majordomo.Tripping
open SweetClib.Lib

/-- The numbers of calls in the two tests. -/
structure Test where
  sync : Nat
  async : Nat

/-- The numbers of the file. -/
def tripping : Test := ⟨10000, 100000⟩

/-- Where `client_task` is: in one of its loops with the variable `requests`, or behind them. -/
inductive Point where
  | sync (requests : Nat)
  | await (requests : Nat)
  | send (requests : Nat)
  | recv (requests : Nat)
  | done
  deriving DecidableEq

/-- What `client_task` does next: a call of `zstr_send` or of `zstr_recv`, or the end of a loop. -/
inductive Call where
  | send
  | recv
  | goOn
  deriving DecidableEq

/-- The next call of `client_task`, and where it is behind the call. -/
def Point.next (test : Test) : Point → Option (Call × Point)
  | .sync n => if n < test.sync then some (.send, .await n) else some (.goOn, .send 0)
  | .await n => some (.recv, .sync (n + 1))
  | .send n => if n < test.async then some (.send, .send (n + 1)) else some (.goOn, .recv 0)
  | .recv n => if n < test.async then some (.recv, .recv (n + 1)) else some (.goOn, .done)
  | .done => none

/-- What lies between the client and the worker: the states before and behind each of the four
calls, and those of a step of its own. `requests` are the messages that the client has sent and the
worker has not received, and `replies` those on their way back. -/
structure Network (E : Type) where
  start : E
  clientSend : E → E → Prop
  clientRecv : E → E → Prop
  workerRecv : E → E → Prop
  workerSend : E → E → Prop
  relay : E → E → Prop
  requests : E → Nat
  replies : E → Nat

variable {E : Type}

/-- No message is lost or made up. -/
structure Network.Faithful (net : Network E) : Prop where
  start : net.requests net.start = 0 ∧ net.replies net.start = 0
  clientSend : ∀ e e', net.clientSend e e' →
    net.requests e' = net.requests e + 1 ∧ net.replies e' = net.replies e
  clientRecv : ∀ e e', net.clientRecv e e' →
    net.requests e' = net.requests e ∧ net.replies e = net.replies e' + 1
  workerRecv : ∀ e e', net.workerRecv e e' →
    net.requests e = net.requests e' + 1 ∧ net.replies e' = net.replies e
  workerSend : ∀ e e', net.workerSend e e' →
    net.requests e' = net.requests e ∧ net.replies e' = net.replies e + 1
  relay : ∀ e e', net.relay e e' → net.requests e' = net.requests e ∧ net.replies e' = net.replies e

/-- The network takes no more than `n` messages: whoever sends one more blocks. -/
def Network.Holds (net : Network E) (n : Nat) : Prop := ∀ e, net.requests e + net.replies e ≤ n

/-- With fewer than `n` messages in the network a call of `zstr_send` or `zmsg_send` returns, and
with a message for the receiver a call of `zstr_recv` or `zmsg_recv`, now or after steps of the
network, which do not go on for ever. -/
structure Network.Carries (net : Network E) (n : Nat) : Prop where
  clientSend : ∀ e, net.requests e + net.replies e < n → ∃ e', net.clientSend e e' ∨ net.relay e e'
  workerSend : ∀ e, net.requests e + net.replies e < n → ∃ e', net.workerSend e e' ∨ net.relay e e'
  clientRecv : ∀ e, 0 < net.replies e → ∃ e', net.clientRecv e e' ∨ net.relay e e'
  workerRecv : ∀ e, 0 < net.requests e → ∃ e', net.workerRecv e e' ∨ net.relay e e'
  ends : WellFounded fun e' e => net.relay e e'

/-- The client, the worker, which has a message in its hands or not, and the network. -/
structure Trip (E : Type) where
  client : Point
  busy : Bool
  net : E

/-- Who takes a step. -/
inductive Action where
  | client
  | worker
  | relay
  deriving DecidableEq

/-- The transitions of the test. -/
inductive TripTrans (test : Test) (net : Network E) : Trip E → Action → Trip E → Prop where
  | clientSend {s point e} :
    s.client.next test = some (.send, point) →
    net.clientSend s.net e →
    TripTrans test net s .client { s with client := point, net := e }
  | clientRecv {s point e} :
    s.client.next test = some (.recv, point) →
    net.clientRecv s.net e →
    TripTrans test net s .client { s with client := point, net := e }
  | clientGoOn {s point} :
    s.client.next test = some (.goOn, point) →
    TripTrans test net s .client { s with client := point }
  | workerRecv {s e} :
    s.busy = false →
    net.workerRecv s.net e →
    TripTrans test net s .worker { s with busy := true, net := e }
  | workerSend {s e} :
    s.busy = true →
    net.workerSend s.net e →
    TripTrans test net s .worker { s with busy := false, net := e }
  | relay {s e} :
    net.relay s.net e →
    TripTrans test net s .relay { s with net := e }

/-- The tasks before their first calls. -/
def tripNew (net : Network E) : Trip E := ⟨.sync 0, false, net.start⟩

/-- The steps of the client and of the worker in a run. -/
def moves (tr : List Action) : Nat := tr.countP (· ≠ .relay)

/-- The messages under way. -/
def Trip.flight (net : Network E) (s : Trip E) : Nat :=
  net.requests s.net + s.busy.toNat + net.replies s.net

/-- How many messages are under way when the client is at a point. -/
def Point.Owed (test : Test) : Point → Nat → Prop
  | .sync n, k => n ≤ test.sync ∧ k = 0
  | .await n, k => n < test.sync ∧ k = 1
  | .send n, k => n ≤ test.async ∧ k = n
  | .recv n, k => n ≤ test.async ∧ k + n = test.async
  | .done, k => k = 0

/-- The calls that are left for the requests not sent, and for the client's own way. -/
def Point.work (test : Test) : Point → Nat
  | .sync n => 4 * (test.sync - n) + 4 * test.async + 3
  | .await n => 4 * (test.sync - n - 1) + 4 * test.async + 3
  | .send n => 4 * (test.async - n) + 2
  | .recv _ => 1
  | .done => 0

/-- The calls that are left. -/
def Trip.work (test : Test) (net : Network E) (s : Trip E) : Nat :=
  s.client.work test + 3 * net.requests s.net + 2 * s.busy.toNat + net.replies s.net

section Client

variable {test : Test} {point point' : Point} {k : Nat}

/-- A request is one more message under way, and four calls of those that are left. -/
lemma next_send (next : point.next test = some (.send, point')) (owed : point.Owed test k) :
    point'.Owed test (k + 1) ∧ point'.work test + 4 = point.work test := by
  cases point with
  | sync n =>
    rw [Point.next] at next
    split at next <;> cases next
    next more =>
      refine ⟨⟨more, by rw [owed.2]⟩, ?_⟩
      rw [Point.work, Point.work]
      omega
  | await n => cases next
  | send n =>
    rw [Point.next] at next
    split at next <;> cases next
    next more =>
      refine ⟨⟨more, by rw [owed.2]⟩, ?_⟩
      rw [Point.work, Point.work]
      omega
  | recv n =>
    rw [Point.next] at next
    split at next <;> cases next
  | done => cases next

/-- A reply is one message less. -/
lemma next_recv (next : point.next test = some (.recv, point')) (owed : point.Owed test (k + 1)) :
    point'.Owed test k ∧ point'.work test = point.work test := by
  cases point with
  | sync n =>
    rw [Point.next] at next
    split at next <;> cases next
  | await n =>
    cases next
    obtain ⟨lt, one⟩ := owed
    refine ⟨⟨lt, by omega⟩, ?_⟩
    rw [Point.work, Point.work]
    omega
  | send n =>
    rw [Point.next] at next
    split at next <;> cases next
  | recv n =>
    rw [Point.next] at next
    split at next <;> cases next
    next more =>
      obtain ⟨_, rest⟩ := owed
      exact ⟨⟨more, by omega⟩, rfl⟩
  | done => cases next

/-- The end of a loop is one step of those that are left. -/
lemma next_goOn (next : point.next test = some (.goOn, point')) (owed : point.Owed test k) :
    point'.Owed test k ∧ point'.work test + 1 = point.work test := by
  cases point with
  | sync n =>
    rw [Point.next] at next
    split at next <;> cases next
    next last =>
      refine ⟨⟨Nat.zero_le _, owed.2⟩, ?_⟩
      rw [Point.work, Point.work]
      omega
  | await n => cases next
  | send n =>
    rw [Point.next] at next
    split at next <;> cases next
    next last =>
      obtain ⟨le, sent⟩ := owed
      refine ⟨⟨Nat.zero_le _, by omega⟩, ?_⟩
      rw [Point.work, Point.work]
      omega
  | recv n =>
    rw [Point.next] at next
    split at next <;> cases next
    next last =>
      obtain ⟨le, rest⟩ := owed
      exact ⟨show k = 0 by omega, rfl⟩
  | done => cases next

/-- While the client waits for a reply, a message is under way. -/
lemma flight_pos (next : point.next test = some (.recv, point')) (owed : point.Owed test k) :
    0 < k := by
  cases point with
  | sync n =>
    rw [Point.next] at next
    split at next <;> cases next
  | await n =>
    obtain ⟨_, one⟩ := owed
    omega
  | send n =>
    rw [Point.next] at next
    split at next <;> cases next
  | recv n =>
    rw [Point.next] at next
    split at next <;> cases next
    obtain ⟨_, rest⟩ := owed
    omega
  | done => cases next

/-- No more messages are under way than the second test has requests, or one. -/
lemma flight_le (owed : point.Owed test k) : k ≤ max 1 test.async := by
  cases point with
  | sync n => exact owed.2.trans_le (Nat.zero_le _)
  | await n => exact owed.2.trans_le (le_max_left _ _)
  | send n =>
    obtain ⟨le, sent⟩ := owed
    omega
  | recv n =>
    obtain ⟨_, rest⟩ := owed
    omega
  | done => exact (show k = 0 from owed).trans_le (Nat.zero_le _)

/-- There is room for one more message when the client sends one. -/
lemma flight_lt (next : point.next test = some (.send, point')) (owed : point.Owed test k) :
    k < max 1 test.async :=
  Nat.lt_of_succ_le (flight_le (next_send next owed).1)

end Client

section Step

variable {test : Test} {net : Network E} {s s' : Trip E} {a : Action}

/-- A step keeps the number of messages under way that the client is owed, and a call is one of
those that are left. -/
lemma work_step (faithful : net.Faithful) (owed : s.client.Owed test (s.flight net))
    (st : TripTrans test net s a s') :
    s'.client.Owed test (s'.flight net) ∧
      s'.work test net + (if a ≠ .relay then 1 else 0) = s.work test net := by
  cases st with
  | @clientSend point e next call =>
    obtain ⟨requests, replies⟩ := faithful.clientSend _ _ call
    obtain ⟨owed', work⟩ := next_send next owed
    have flight : Trip.flight net { s with client := point, net := e } = s.flight net + 1 := by
      simp only [Trip.flight, requests, replies]
      omega
    refine ⟨flight ▸ owed', ?_⟩
    simp only [Trip.work, requests, replies, ne_eq, reduceCtorEq, not_false_eq_true, if_true]
    omega
  | @clientRecv point e next call =>
    obtain ⟨requests, replies⟩ := faithful.clientRecv _ _ call
    have flight : s.flight net = Trip.flight net { s with client := point, net := e } + 1 := by
      simp only [Trip.flight, requests, replies]
      omega
    obtain ⟨owed', work⟩ := next_recv next (flight ▸ owed)
    refine ⟨owed', ?_⟩
    simp only [Trip.work, requests, replies, work, ne_eq, reduceCtorEq, not_false_eq_true, if_true]
    omega
  | @clientGoOn point next =>
    obtain ⟨owed', work⟩ := next_goOn next owed
    refine ⟨owed', ?_⟩
    simp only [Trip.work, ne_eq, reduceCtorEq, not_false_eq_true, if_true]
    omega
  | @workerRecv e idle call =>
    obtain ⟨requests, replies⟩ := faithful.workerRecv _ _ call
    have flight : Trip.flight net { s with busy := true, net := e } = s.flight net := by
      simp only [Trip.flight, requests, replies, idle, Bool.toNat_true, Bool.toNat_false]
    refine ⟨flight ▸ owed, ?_⟩
    simp only [Trip.work, requests, replies, idle, Bool.toNat_true, Bool.toNat_false, ne_eq,
      reduceCtorEq, not_false_eq_true, if_true]
    omega
  | @workerSend e busy call =>
    obtain ⟨requests, replies⟩ := faithful.workerSend _ _ call
    have flight : Trip.flight net { s with busy := false, net := e } = s.flight net := by
      simp only [Trip.flight, requests, replies, busy, Bool.toNat_true, Bool.toNat_false]
      omega
    refine ⟨flight ▸ owed, ?_⟩
    simp only [Trip.work, requests, replies, busy, Bool.toNat_true, Bool.toNat_false, ne_eq,
      reduceCtorEq, not_false_eq_true, if_true]
    omega
  | @relay e step =>
    obtain ⟨requests, replies⟩ := faithful.relay _ _ step
    have flight : Trip.flight net { s with net := e } = s.flight net := by
      simp only [Trip.flight, requests, replies]
    refine ⟨flight ▸ owed, ?_⟩
    simp only [Trip.work, requests, replies, ne_eq, not_true_eq_false, if_false, Nat.add_zero]

lemma owed_new (faithful : net.Faithful) :
    (tripNew net).client.Owed test ((tripNew net).flight net) := by
  obtain ⟨requests, replies⟩ := faithful.start
  refine ⟨Nat.zero_le _, ?_⟩
  simp only [tripNew, Trip.flight, requests, replies, Bool.toNat_false]

/-- The calls of a run and those that are left add up. -/
lemma run_work (faithful : net.Faithful) {tr : List Action}
    (run : Run (TripTrans test net) (tripNew net) tr s) :
    s.client.Owed test (s.flight net) ∧
      s.work test net + moves tr = 4 * (test.sync + test.async) + 3 := by
  refine run.history (fun tr s => s.client.Owed test (s.flight net) ∧
    s.work test net + moves tr = 4 * (test.sync + test.async) + 3) ⟨owed_new faithful, ?_⟩ ?_
  · obtain ⟨requests, replies⟩ := faithful.start
    simp only [tripNew, Trip.work, Point.work, requests, replies, Bool.toNat_false, moves,
      List.countP_nil]
    omega
  · rintro tr s a s' ⟨owed, total⟩ st
    obtain ⟨owed', step⟩ := work_step faithful owed st
    refine ⟨owed', ?_⟩
    rw [moves, List.countP_cons, ← moves]
    simp only [decide_eq_true_eq]
    omega

/-- The client is done when no call is left. -/
lemma done_iff (owed : s.client.Owed test (s.flight net)) :
    s.client = .done ↔ s.work test net = 0 := by
  constructor
  · intro done
    rw [done] at owed
    have calm : s.flight net = 0 := owed
    rw [Trip.flight] at calm
    rw [Trip.work, done, Point.work]
    omega
  · intro finished
    have client : s.client.work test = 0 := by
      rw [Trip.work] at finished
      omega
    cases point : s.client with
    | done => rfl
    | _ =>
      rw [point] at client
      exact absurd client (Nat.succ_ne_zero _)

/-- A network that carries the messages lets someone go on, as long as the client is not done: the
worker sends what it has or receives what is there, and without requests under way the client sends
or receives. -/
lemma exists_step {n : Nat} (carries : net.Carries n) (room : max 1 test.async ≤ n)
    (owed : s.client.Owed test (s.flight net)) (going : s.client ≠ .done) :
    ∃ a s', TripTrans test net s a s' := by
  have under := flight_le owed
  have flight : s.flight net = net.requests s.net + s.busy.toNat + net.replies s.net := rfl
  have relay {e} (step : net.relay s.net e) : ∃ a s', TripTrans test net s a s' :=
    ⟨_, _, .relay step⟩
  cases busy : s.busy with
  | true =>
    rw [busy, Bool.toNat_true] at flight
    obtain ⟨e, call | step⟩ := carries.workerSend s.net (by omega)
    · exact ⟨_, _, .workerSend busy call⟩
    · exact relay step
  | false =>
    rw [busy, Bool.toNat_false] at flight
    by_cases waiting : 0 < net.requests s.net
    · obtain ⟨e, call | step⟩ := carries.workerRecv s.net waiting
      · exact ⟨_, _, .workerRecv busy call⟩
      · exact relay step
    · cases next : s.client.next test with
      | none =>
        cases point : s.client with
        | done => exact absurd point going
        | sync n => rw [point, Point.next] at next; split at next <;> cases next
        | await n => rw [point] at next; cases next
        | send n => rw [point, Point.next] at next; split at next <;> cases next
        | recv n => rw [point, Point.next] at next; split at next <;> cases next
      | some p =>
        obtain ⟨call, point⟩ := p
        cases call with
        | send =>
          obtain ⟨e, call | step⟩ :=
            carries.clientSend s.net (by have := flight_lt next owed; omega)
          · exact ⟨_, _, .clientSend next call⟩
          · exact relay step
        | recv =>
          obtain ⟨e, call | step⟩ :=
            carries.clientRecv s.net (by have := flight_pos next owed; omega)
          · exact ⟨_, _, .clientRecv next call⟩
          · exact relay step
        | goOn => exact ⟨_, _, .clientGoOn next⟩

/-- The test cannot go on for ever, when the network cannot: a call leaves fewer calls, and a step
of the network as many. -/
lemma no_infinite_run (faithful : net.Faithful) (ends : WellFounded fun e' e => net.relay e e')
    (f : Nat → Trip E) (owed : (f 0).client.Owed test ((f 0).flight net)) :
    ¬ ∀ i, ∃ a, TripTrans test net (f i) a (f (i + 1)) := by
  intro steps
  have all (i) : (f i).client.Owed test ((f i).flight net) := by
    induction i with
    | zero => exact owed
    | succ i ih =>
      obtain ⟨a, st⟩ := steps i
      exact (work_step faithful ih st).1
  let order := Prod.Lex (· < · : Nat → Nat → Prop) (fun e' e => net.relay e e')
  have wf : WellFounded order := WellFounded.prod_lex Nat.lt_wfRel.wf ends
  have : IsWellFounded _ order := ⟨wf⟩
  obtain ⟨i, stop⟩ := WellFounded.not_rel_apply_succ (r := order)
    fun i => ((f i).work test net, (f i).net)
  refine stop ?_
  obtain ⟨a, st⟩ := steps i
  have work := (work_step faithful (all i) st).2
  by_cases own : a = .relay
  · subst own
    simp only [ne_eq, not_true_eq_false, if_false, Nat.add_zero] at work
    rw [work]
    generalize f (i + 1) = s' at st
    cases st with
    | relay step => exact Prod.Lex.right _ step
  · rw [if_pos own] at work
    exact Prod.Lex.left _ _ (by omega)

/-- With more requests than the network and the worker hold the client never gets to its last
loop. -/
lemma step_before {n : Nat} (holds : net.Holds n) (few : n + 1 < test.async)
    (owed : s.client.Owed test (s.flight net)) (before : s.client ≠ .done ∧ ∀ k, s.client ≠ .recv k)
    (st : TripTrans test net s a s') : s'.client ≠ .done ∧ ∀ k, s'.client ≠ .recv k := by
  have under : s.flight net ≤ n + 1 := by
    have := holds s.net
    have := Bool.toNat_le s.busy
    rw [Trip.flight]
    omega
  have client {call point} (next : s.client.next test = some (call, point)) :
      point ≠ .done ∧ ∀ k, point ≠ .recv k := by
    cases here : s.client with
    | sync m =>
      rw [here, Point.next] at next
      split at next <;> cases next <;> exact ⟨Point.noConfusion, fun _ => Point.noConfusion⟩
    | await m =>
      rw [here] at next
      cases next
      exact ⟨Point.noConfusion, fun _ => Point.noConfusion⟩
    | send m =>
      rw [here] at owed
      obtain ⟨le, sent⟩ := owed
      rw [here, Point.next, if_pos (by omega)] at next
      cases next
      exact ⟨Point.noConfusion, fun _ => Point.noConfusion⟩
    | recv m => exact absurd here (before.2 m)
    | done => exact absurd here before.1
  cases st with
  | clientSend next | clientRecv next | clientGoOn next => exact client next
  | workerRecv | workerSend | relay => exact before

end Step

/-- Over every network that neither loses nor makes up messages: the client and the worker make no
more than four steps for each call and three for the loops, and the client is done exactly after so
many; then no message is left. If the network holds fewer messages than the second test has
requests, and the worker one, the client never receives one of their replies. If the network
carries as many, no run gets stuck before the client is done, and none goes on for ever. -/
theorem round_trips {test : Test} {net : Network E} (faithful : net.Faithful) {tr : List Action}
    {s : Trip E} (run : Run (TripTrans test net) (tripNew net) tr s) :
    moves tr ≤ 4 * (test.sync + test.async) + 3 ∧
    (s.client = .done ↔ moves tr = 4 * (test.sync + test.async) + 3) ∧
    (s.client = .done → s.flight net = 0) ∧
    (∀ n, net.Holds n → n + 1 < test.async → s.client ≠ .done ∧ ∀ k, s.client ≠ .recv k) ∧
    ∀ n, net.Carries n → max 1 test.async ≤ n →
      (s.client ≠ .done → ∃ a s', TripTrans test net s a s') ∧
      ∀ f : Nat → Trip E, f 0 = s → ¬ ∀ i, ∃ a, TripTrans test net (f i) a (f (i + 1)) := by
  obtain ⟨owed, total⟩ := run_work faithful run
  refine ⟨by omega, ?_, fun done => ?_, fun n holds few => ?_, fun n carries room =>
    ⟨fun going => exists_step carries room owed going, ?_⟩⟩
  · rw [done_iff owed]
    omega
  · rwa [done] at owed
  · refine run.invariant_under (fun s => s.client.Owed test (s.flight net))
      (fun s => s.client ≠ .done ∧ ∀ k, s.client ≠ .recv k) (owed_new faithful)
      (fun s a s' owed st => (work_step faithful owed st).1) ?_
      fun s a s' owed before st => step_before holds few owed before st
    exact ⟨Point.noConfusion, fun _ => Point.noConfusion⟩
  · rintro f rfl
    exact no_infinite_run faithful carries.ends f owed

/-- The shortest way between the client and the worker: a counter in each direction. -/
def wire (n : Nat) : Network (Nat × Nat) where
  start := (0, 0)
  clientSend e e' := e.1 + e.2 < n ∧ e' = (e.1 + 1, e.2)
  clientRecv e e' := 0 < e.2 ∧ e' = (e.1, e.2 - 1)
  workerRecv e e' := 0 < e.1 ∧ e' = (e.1 - 1, e.2)
  workerSend e e' := e.1 + e.2 < n ∧ e' = (e.1, e.2 + 1)
  relay _ _ := False
  requests e := e.1
  replies e := e.2

lemma wire_faithful (n : Nat) : (wire n).Faithful where
  start := ⟨rfl, rfl⟩
  clientSend := by
    rintro e _ ⟨_, rfl⟩
    exact ⟨rfl, rfl⟩
  clientRecv := by
    rintro e _ ⟨waiting, rfl⟩
    exact ⟨rfl, (Nat.sub_add_cancel waiting).symm⟩
  workerRecv := by
    rintro e _ ⟨waiting, rfl⟩
    exact ⟨(Nat.sub_add_cancel waiting).symm, rfl⟩
  workerSend := by
    rintro e _ ⟨_, rfl⟩
    exact ⟨rfl, rfl⟩
  relay _ _ := False.elim

lemma wire_carries (n : Nat) : (wire n).Carries n where
  clientSend _ room := ⟨_, .inl ⟨room, rfl⟩⟩
  workerSend _ room := ⟨_, .inl ⟨room, rfl⟩⟩
  clientRecv _ waiting := ⟨_, .inl ⟨waiting, rfl⟩⟩
  workerRecv _ waiting := ⟨_, .inl ⟨waiting, rfl⟩⟩
  ends := emptyWf.wf

/-- One call, and then two requests before the first reply. -/
theorem round_trips_two :
    ∃ tr s, Run (TripTrans ⟨1, 2⟩ (wire 2)) (tripNew (wire 2)) tr s ∧ tr.length = 15 ∧
      s.client = .done ∧ s.flight (wire 2) = 0 ∧
      ∀ f : Nat → Trip (Nat × Nat), f 0 = s →
        ¬ ∀ i, ∃ a, TripTrans ⟨1, 2⟩ (wire 2) (f i) a (f (i + 1)) := by
  have start : Run (TripTrans ⟨1, 2⟩ (wire 2)) (tripNew (wire 2)) [] ⟨.sync 0, false, 0, 0⟩ := .nil
  have called := start
    |>.cons (.clientSend rfl ⟨by decide, rfl⟩)
    |>.cons (.workerRecv rfl ⟨by decide, rfl⟩)
    |>.cons (.workerSend rfl ⟨by decide, rfl⟩)
    |>.cons (.clientRecv rfl ⟨by decide, rfl⟩)
    |>.cons (.clientGoOn rfl)
  have sent := called
    |>.cons (.clientSend rfl ⟨by decide, rfl⟩)
    |>.cons (.clientSend rfl ⟨by decide, rfl⟩)
    |>.cons (.clientGoOn rfl)
  have run := sent
    |>.cons (.workerRecv rfl ⟨by decide, rfl⟩)
    |>.cons (.workerSend rfl ⟨by decide, rfl⟩)
    |>.cons (.clientRecv rfl ⟨by decide, rfl⟩)
    |>.cons (.workerRecv rfl ⟨by decide, rfl⟩)
    |>.cons (.workerSend rfl ⟨by decide, rfl⟩)
    |>.cons (.clientRecv rfl ⟨by decide, rfl⟩)
    |>.cons (.clientGoOn rfl)
  obtain ⟨-, length, left, -, goes⟩ := round_trips (wire_faithful 2) run
  have done := length.mpr rfl
  exact ⟨_, _, run, rfl, done, left done, (goes 2 (wire_carries 2) le_rfl).2⟩

end SweetClib.Majordomo.Tripping
