import SweetClib.Majordomo.System
import SweetClib.Majordomo.Update

/-!
# Exactly one place for every request

The invariant of the system holds in every state of every run (`SysInv.run`), for any clock. With
it, every request of a client is in exactly one place, the queue of its service or one REQUEST to
one worker registered for the service; the requests of a service are sent in the order in which
they arrived; and no service has both requests and waiting workers (`majordomo_delivery`).
-/

namespace SweetClib.Majordomo
open SweetClib.Lib

variable {clock : Nat → Nat} {s s' : Sys} {b b' : Broker} {id : Frame}

/-- The identity whose turn an event asks for. -/
def turnOf : Event → Option Frame
  | .tick => none
  | .recv msg _ =>
    match workerCommand msg with
    | some (sender, command) =>
      if command = MDPW_READY ∨ command = MDPW_REPLY then some sender else none
    | none => none

/-- The request a step brings to the broker. -/
def Action.request : Action → Option (Str × Zmsg)
  | .client msg _ => clientRequest msg
  | _ => none

/-- The request of an event. -/
def requestOf : Event → Option (Str × Zmsg)
  | .tick => none
  | .recv msg _ => clientRequest msg

/-- A handler makes no more turns than the event asks for. -/
lemma Handled.turns {ev : Event} {tr : List Label} (h : Handled b ev tr) (id : Frame) :
    (loud tr).count (.turn id) ≤ if turnOf ev = some id then 1 else 0 := by
  cases h with
  | tick quiet => simp [quiet]
  | quiet _ quiet => obtain quiet | quiet := quiet <;> simp [quiet]
  | submit _ sub => simp [sub]
  | @turn msg offer sender command _ wc cmd turn =>
    have asks : turnOf (.recv msg offer) = some sender := by simp [turnOf, wc, cmd]
    rw [asks]
    obtain turn | turn := turn <;> simp [turn, List.count_cons]
  | refresh _ _ => simp

/-- A worker message is no request of a client. -/
lemma clientRequest_of_worker {msg : Zmsg} {x : Frame × Str} (wc : workerCommand msg = some x) :
    clientRequest msg = none := by
  match msg, wc with
  | _ :: _ :: header :: _ :: rest, wc =>
    have worker : header = MDPW_WORKER := by
      by_contra h
      simp [workerCommand, h] at wc
    cases rest <;> simp [clientRequest, worker, MDPW_WORKER, MDPC_CLIENT]

/-- A handler submits the request of the event. -/
lemma Handled.submits {ev : Event} {tr : List Label} (h : Handled b ev tr) :
    submits (loud tr) = (requestOf ev).toList := by
  cases h with
  | tick quiet => simp [quiet, requestOf, Majordomo.submits]
  | quiet none quiet =>
    obtain quiet | quiet := quiet <;> simp [quiet, requestOf, none, Majordomo.submits]
  | submit req sub => simp [sub, requestOf, req, Majordomo.submits]
  | turn wc _ turn =>
    have none := clientRequest_of_worker wc
    obtain turn | turn := turn <;> simp [turn, requestOf, none, Majordomo.submits]
  | refresh wc _ =>
    have none := clientRequest_of_worker wc
    simp [requestOf, none, Majordomo.submits]

/-- What a step of the broker does to the invariant of the system. -/
lemma SysInv.brokerStep (inv : SysInv s) {ev : Event} (e : brokerStep clock s.broker ev = some b')
    (idle : ReplyWhenIdle s.broker ev) (known : KnownCommand ev) :
    Book b' ∧ Ledger b' ∧ (∀ n, IdleAt b' n) ∧ Served b' ∧ s.broker.out <+: b'.out ∧
      b'.contents = s.broker.contents ++ (requestOf ev).toList ∧
      ∀ id, due b' id ≤ due s.broker id + if turnOf ev = some id then 1 else 0 := by
  have served : Served b' := by
    refine inv.served.effect (brokerStep_effect inv.book.toRoster e) fun p id new => ?_
    cases new with
    | stray command unknown _ => exact unknown (known _ _ command)
  obtain ⟨b₁, tr, e₁, run, handled⟩ := brokerStep_spec clock inv.book (brokerStep_accepts e) idle
  rw [e₁] at e
  cases e
  refine ⟨inv.book.acts run, inv.ledger.acts inv.book run, idle_acts inv.book run inv.idle,
    served, out_acts inv.book run, ?_, fun id => ?_⟩
  · have single : (requestOf ev).toList.reverse = (requestOf ev).toList := by
      cases requestOf ev <;> rfl
    rw [contents_acts inv.book run, handled.submits, single]
  · exact (due_acts inv.book run id).trans (Nat.add_le_add_left (handled.turns id) _)

/-- A worker message, as the broker gets it. -/
lemma WorkerMsg.command {m : Zmsg} (wm : WorkerMsg m) (id : Frame) :
    ∃ command, workerCommand (id :: m) = some (id, command) ∧
      (command = MDPW_READY ∨ command = MDPW_REPLY ∨ command = MDPW_HEARTBEAT) ∧
      (isTurn m = true ↔ command = MDPW_READY ∨ command = MDPW_REPLY) := by
  cases wm with
  | ready => exact ⟨MDPW_READY, rfl, .inl rfl, by simp [isTurn, sMdwrkSendToBroker]⟩
  | reply => exact ⟨MDPW_REPLY, rfl, .inr (.inl rfl), by simp [isTurn, sMdwrkSendToBroker]⟩
  | heartbeat => exact ⟨MDPW_HEARTBEAT, rfl, .inr (.inr rfl), by decide⟩

/-- What the session of a socket has received was sent to it. -/
lemma received_le (s : Sys) (id : Frame) :
    received s id ≤ s.broker.out.countP (isRequestTo id) := by
  have all : (outTo s.broker id).countP isRequest = s.broker.out.countP (isRequestTo id) := by
    rw [outTo, List.countP_filter]
    exact List.countP_congr fun m _ => by simp [isRequestTo]
  rw [← all]
  exact (List.take_sublist _ _).countP_le

/-- Sending more does not take back what was received. -/
lemma received_mono (s s' : Sys) (pre : s.broker.out <+: s'.broker.out) (taken : s'.taken = s.taken)
    (id : Frame) : received s id ≤ received s' id := by
  obtain ⟨rest, more⟩ := pre
  have split : outTo s'.broker id = outTo s.broker id ++ rest.filter fun m =>
      m.head? = some id := by
    rw [outTo, ← more, List.filter_append]
    rfl
  rw [received, received, taken, split, List.take_append, List.countP_append]
  exact Nat.le_add_right _ _

/-- A REPLY under way comes from a worker that is not waiting. -/
lemma SysInv.replyWhenIdle (inv : SysInv s) {m : Zmsg} {ms : List Zmsg} (up : s.up id = m :: ms)
    (offer : Addr) : ReplyWhenIdle s.broker (.recv (id :: m) offer) := by
  intro sender p wc reg mem
  obtain ⟨command, wc', _, turn⟩ := (inv.msgs id m (by simp [up])).command id
  rw [wc'] at wc
  cases wc
  -- the REPLY under way and the place on the waiting list would be two turns at once
  have asked : 0 < pending s id :=
    List.countP_pos_iff.mpr ⟨m, by simp [up], turn.mpr (.inr rfl)⟩
  have waiting : 0 < waits s.broker id := by
    obtain ⟨w, hw, hid⟩ := inv.book.toRoster.registered reg
    have same : w.identity = id := zframeStrhex_inj (w.hex.symm.trans hid)
    exact List.countP_pos_iff.mpr ⟨p, mem, by simp [Broker.identOf, hw, same]⟩
  have turns := inv.turns id
  have sent := received_le s id
  have one : opened s id ≤ 1 := by
    rw [opened]
    split <;> omega
  simp only [due] at turns
  omega

/-- The invariant after a step of a session. -/
lemma SysInv.balanced (inv : SysInv s) (bal : Balanced s s') : SysInv s' := by
  obtain ⟨n, _, e⟩ := bal.broker
  refine ⟨?_, ?_, ?_, ?_, bal.msgs inv.msgs, fun id => ?_⟩
  · rw [e]
    exact inv.book.congr rfl rfl rfl rfl rfl
  · rw [e]
    exact inv.ledger.congr rfl rfl rfl rfl
  · rw [e]
    exact inv.idle
  · rw [e]
    exact inv.served
  · have same : due s'.broker id = due s.broker id := by
      rw [e]
      rfl
    have old := inv.turns id
    have new := bal.turns id
    omega

/-- A step in which the broker handles an event: of the rest of the system only the messages under
way change, and the turn that the event asks for is one that a message under way asked for. -/
structure Move (clock : Nat → Nat) (s : Sys) (a : Action) (s' : Sys) (ev : Event) : Prop where
  step : Majordomo.brokerStep clock s.broker ev = some s'.broker
  procs : s'.procs = s.procs
  taken : s'.taken = s.taken
  used : s'.used = s.used
  up : ∀ id, ∀ m ∈ s'.up id, m ∈ s.up id
  turns : ∀ id, pending s' id + (if turnOf ev = some id then 1 else 0) = pending s id
  idle : ReplyWhenIdle s.broker ev
  known : KnownCommand ev
  request : requestOf ev = a.request

/-- A client sends a message, which is no worker message. -/
lemma move_client {msg : Zmsg} {offer : Addr} (wc : workerCommand msg = none)
    (e : brokerRecv clock s.broker msg offer = some b') :
    Move clock s (.client msg offer) { s with broker := b' } (.recv msg offer) := by
  refine ⟨e, rfl, rfl, rfl, fun _ _ h => h, fun id => ?_, ?_, ?_, rfl⟩
  · simp [turnOf, wc, pending]
  · intro sender p h
    rw [wc] at h
    cases h
  · intro sender command h
    rw [wc] at h
    cases h

/-- The broker handles the next message of a socket. -/
lemma SysInv.move_deliver (inv : SysInv s) {m : Zmsg} {ms : List Zmsg} {offer : Addr}
    (up : s.up id = m :: ms) (e : brokerRecv clock s.broker (id :: m) offer = some b') :
    Move clock s (.deliver id offer) { s with broker := b', up := Function.update s.up id ms }
      (.recv (id :: m) offer) := by
  obtain ⟨command, wc, cmd, turn⟩ := (inv.msgs id m (by simp [up])).command id
  refine ⟨e, rfl, rfl, rfl, fun n m' mem => ?_, fun n => ?_, inv.replyWhenIdle up offer, ?_,
    clientRequest_of_worker wc⟩
  · by_cases hn : n = id
    · subst hn
      simp only [Function.update_self] at mem
      simp [up, mem]
    · simpa only [Function.update_of_ne hn] using mem
  · simp only [turnOf, wc]
    by_cases hn : n = id
    · subst hn
      simp only [pending, Function.update_self, up, List.countP_cons]
      by_cases h : command = MDPW_READY ∨ command = MDPW_REPLY
      · simp [h, turn.mpr h]
      · simp [h, mt turn.mp h]
    · have ne : id ≠ n := fun h => hn h.symm
      have other : (if command = MDPW_READY ∨ command = MDPW_REPLY then some id else none) ≠
          some n := by
        split
        · simpa using ne
        · simp
      simp [pending, hn, other]
  · intro sender command' wc'
    rw [wc] at wc'
    cases wc'
    obtain h | h | h := cmd
    · exact .inl h
    · exact .inr (.inl h)
    · exact .inr (.inr (.inl h))

/-- A step is one in which the broker handles an event, or one of a session. -/
lemma SysInv.cases (inv : SysInv s) {a : Action} (e : sysStep clock s a = some s') :
    (∃ ev, eventOf s a = some ev ∧ Move clock s a s' ev) ∨
      eventOf s a = none ∧ a.request = none ∧ Balanced s s' := by
  cases he : eventOf s a with
  | none =>
    refine .inr ⟨rfl, ?_, .step e he⟩
    cases a <;> first | rfl | cases he
  | some ev =>
    refine .inl ⟨ev, rfl, ?_⟩
    cases a with
    | client msg offer =>
      simp only [sysStep] at e
      split at e
      · cases e
      next wc =>
        obtain ⟨b', eb, rfl⟩ := Option.map_eq_some_iff.mp e
        cases he
        exact move_client wc eb
    | deliver id offer =>
      simp only [sysStep] at e
      split at e
      · cases e
      next m ms up =>
        obtain ⟨b', eb, rfl⟩ := Option.map_eq_some_iff.mp e
        simp only [eventOf, up, List.head?_cons, Option.map_some, Option.some.injEq] at he
        subst he
        exact inv.move_deliver up eb
    | tick =>
      obtain ⟨b', eb, rfl⟩ := Option.map_eq_some_iff.mp e
      cases he
      exact ⟨eb, rfl, rfl, rfl, fun _ _ h => h, fun _ => rfl, trivial, trivial, rfl⟩
    | _ => cases he

/-- The invariant after the broker handles an event. -/
lemma SysInv.move (inv : SysInv s) {a : Action} {ev : Event} (mv : Move clock s a s' ev) :
    SysInv s' := by
  obtain ⟨book, ledger, idleAt, served, pre, _, turns⟩ := inv.brokerStep mv.step mv.idle mv.known
  refine ⟨book, ledger, idleAt, served, fun id m mem => inv.msgs id m (mv.up id m mem),
    fun id => ?_⟩
  have old := inv.turns id
  have new := turns id
  have asked := mv.turns id
  have mono := received_mono s s' pre mv.taken id
  have ow : owes s' id = owes s id := by rw [owes, owes, mv.procs]
  have opn : opened s' id = opened s id := by rw [opened, opened, mv.used]
  omega

lemma SysInv.step (inv : SysInv s) {a : Action} (e : sysStep clock s a = some s') : SysInv s' := by
  obtain ⟨ev, _, mv⟩ | ⟨_, _, bal⟩ := inv.cases e
  · exact inv.move mv
  · exact inv.balanced bal

lemma SysInv.new (clock : Nat → Nat) : SysInv (sysNew clock) :=
  ⟨.new clock, .new clock, nofun, nofun, nofun, fun _ => Nat.le_refl _⟩

/-- The invariant holds in every state of every run. -/
lemma SysInv.run {tr s} (run : Run (SysTrans clock) (sysNew clock) tr s) : SysInv s :=
  run.invariant SysInv (.new clock) fun _ _ _ inv st => inv.step st

/-- What every change of the broker keeps, and does not depend on the readings of the clock, a step
of the system keeps. -/
lemma SysInv.keeps (inv : SysInv s) (P : Broker → Prop)
    (change : ∀ b k b', Book b → P b → Change clock b k b' → P b')
    (reads : ∀ b n, P b → P { b with reads := n }) {a : Action} (e : sysStep clock s a = some s')
    (before : P s.broker) : P s'.broker := by
  obtain ⟨ev, _, mv⟩ | ⟨_, _, bal⟩ := inv.cases e
  · obtain ⟨b₁, tr, e₁, run, _⟩ :=
      brokerStep_spec clock inv.book (brokerStep_accepts mv.step) mv.idle
    rw [mv.step] at e₁
    cases e₁
    obtain ⟨ks, run, _⟩ := acts_changes inv.book run
    exact run.invariant_under Book P inv.book (fun _ _ _ bk ch => bk.change ch) before change
  · obtain ⟨n, _, eb⟩ := bal.broker
    rw [eb]
    exact reads _ n before

/-- The requests the clients have sent, in order. -/
def requests (tr : List Action) : List (Str × Zmsg) :=
  (tr.filterMap Action.request).reverse

/-- A step accepts the request it brings. -/
lemma SysInv.contents (inv : SysInv s) {a : Action} (e : sysStep clock s a = some s') :
    s'.broker.contents = s.broker.contents ++ a.request.toList := by
  obtain ⟨ev, _, mv⟩ | ⟨_, none, bal⟩ := inv.cases e
  · rw [(inv.brokerStep mv.step mv.idle mv.known).2.2.2.2.2.1, mv.request]
  · obtain ⟨n, _, eb⟩ := bal.broker
    rw [eb, none]
    exact (List.append_nil _).symm

/-- The requests accepted are those the clients have sent. -/
lemma contents_run {tr s} (run : Run (SysTrans clock) (sysNew clock) tr s) :
    s.broker.contents = requests tr := by
  suffices main : SysInv s ∧ s.broker.contents = requests tr from main.2
  refine run.history (fun tr s => SysInv s ∧ s.broker.contents = requests tr) ⟨.new clock, rfl⟩ ?_
  rintro tr s a s' ⟨inv, ih⟩ st
  refine ⟨inv.step st, ?_⟩
  have more : requests (a :: tr) = requests tr ++ a.request.toList := by
    cases h : a.request <;> simp [requests, h]
  rw [more, ← ih]
  exact inv.contents st

/-- Where an accepted request is: once in the queue of its service and in no other queue, or sent
once, to a worker registered for the service. -/
structure OnePlace (b : Broker) (name : Str) (r : Request) : Prop where
  once : (b.requestsOf name).count r + b.sent.countP (·.request = r) = 1
  queue : ∀ n, n ≠ name → r ∉ b.requestsOf n
  worker : ∀ e ∈ b.sent, e.request = r →
    e.service = name ∧ e.registered = true ∧ e.worker.service = some name

lemma Ledger.nodup (lg : Ledger b) : (b.accepted.map Prod.snd).Nodup := by
  have distinct : ((b.accepted.map Prod.snd).map Request.seq).Nodup := by
    rw [List.map_map]
    have seqs : b.accepted.map (Request.seq ∘ Prod.snd) = List.range b.accepted.length := lg.seqs
    rw [seqs]
    exact List.nodup_range
  exact distinct.of_map _

/-- An accepted request is accepted for one service only. -/
lemma Ledger.accepted_unique (lg : Ledger b) {name n : Str} {r : Request}
    (mem : (name, r) ∈ b.accepted) (mem' : r ∈ b.acceptedFor n) : n = name := by
  obtain ⟨x, hx, rfl⟩ := List.mem_map.mp mem'
  obtain ⟨hx, hn⟩ := List.mem_filter.mp hx
  have same := List.inj_on_of_nodup_map lg.nodup mem hx rfl
  rw [← same] at hn
  exact (of_decide_eq_true hn).symm

/-- By the ledger every accepted request is in one place. -/
lemma Ledger.onePlace (lg : Ledger b) {name : Str} {r : Request} (mem : (name, r) ∈ b.accepted) :
    OnePlace b name r := by
  have sentOther : ∀ e ∈ b.sent, e.request = r → e.service = name := by
    intro e he hr
    refine lg.accepted_unique mem ?_
    rw [← lg.order e.service]
    refine List.mem_append_left _ (List.mem_map.mpr ⟨e, List.mem_filter.mpr ⟨he, ?_⟩, hr⟩)
    exact decide_eq_true rfl
  refine ⟨?_, fun n hn h => ?_, fun e he hr => ?_⟩
  · have one : (b.acceptedFor name).count r = 1 := by
      refine List.count_eq_one_of_mem ?_ (List.mem_map.mpr ⟨_, List.mem_filter.mpr ⟨mem, ?_⟩, rfl⟩)
      · exact lg.nodup.sublist (List.filter_sublist.map _)
      · exact decide_eq_true rfl
    have sent : b.sent.countP (·.request = r) = (b.sentFor name).count r := by
      rw [Broker.sentFor, List.count_eq_countP, List.countP_map, List.countP_filter]
      refine List.countP_congr fun e he => ?_
      simp only [decide_eq_true_eq, Function.comp, beq_iff_eq, Bool.and_eq_true]
      exact ⟨fun h => ⟨h, sentOther e he h⟩, fun h => h.1⟩
    rw [← lg.order name, List.count_append] at one
    omega
  · refine hn (lg.accepted_unique mem ?_)
    rw [← lg.order n]
    exact List.mem_append_right _ h
  · obtain ⟨reg, svc⟩ := lg.registered e he
    have same := sentOther e he hr
    exact ⟨same, reg, same ▸ svc⟩

/-- The steps the broker can be expected to take: handle an acceptable message of a client or the
next message of a socket, with an unused address for a new worker, or look at the clock. -/
def BrokerReady (s : Sys) : Action → Prop
  | .client msg offer => workerCommand msg = none ∧ Accepts s.broker (.recv msg offer)
  | .deliver id offer => s.up id ≠ [] ∧ s.broker.heap offer = none
  | .tick => True
  | _ => False

/-- A worker message that the handler accepts is acceptable. -/
lemma accepts_worker {sender empty : Frame} {command : Str} {rest : Zmsg} {offer : Addr}
    (ok : WorkerAccepts b sender command rest offer) :
    Accepts b (.recv (sender :: empty :: MDPW_WORKER :: command :: rest) offer) := by
  have ne : MDPW_WORKER ≠ MDPC_CLIENT := by decide
  rw [Accepts, if_neg ne, if_pos rfl]
  exact ⟨command, rest, rfl, ok⟩

/-- A message of a worker is acceptable. -/
lemma SysInv.accepts (inv : SysInv s) {m : Zmsg} {ms : List Zmsg} {offer : Addr}
    (up : s.up id = m :: ms) (fresh : s.broker.heap offer = none) :
    Accepts s.broker (.recv (id :: m) offer) := by
  have served : ∀ p, s.broker.workers (zframeStrhex id) = some p → (s.broker.svcOf p).isSome := by
    intro p reg
    obtain ⟨w, hw, _⟩ := inv.book.toRoster.registered reg
    simpa [Broker.svcOf, hw] using inv.served p w hw
  have ok : ∀ command rest, rest ≠ [] → WorkerAccepts s.broker id command rest offer :=
    fun command rest ne => ⟨fun _ => fresh, fun _ _ _ => ne, fun _ p reg => ⟨ne, served p reg⟩⟩
  cases inv.msgs id m (by simp [up]) with
  | ready => exact accepts_worker (ok _ _ (List.cons_ne_nil _ _))
  | reply => exact accepts_worker (ok _ _ (List.cons_ne_nil _ _))
  | heartbeat =>
    refine accepts_worker ⟨fun _ => fresh, ?_, ?_⟩
    · intro h
      cases h
    · intro h
      cases h

lemma SysInv.ready (inv : SysInv s) {a : Action} (rd : BrokerReady s a) :
    ∃ s', sysStep clock s a = some s' := by
  cases a with
  | client msg offer =>
    obtain ⟨wc, ok⟩ := rd
    have idle : ReplyWhenIdle s.broker (.recv msg offer) := by
      intro sender p h
      rw [wc] at h
      cases h
    obtain ⟨b', _, e, _⟩ := brokerStep_spec clock inv.book ok idle
    have e : brokerRecv clock s.broker msg offer = some b' := e
    exact Option.isSome_iff_exists.mp (by simp [sysStep, wc, e])
  | deliver id offer =>
    obtain ⟨ne, fresh⟩ := rd
    cases up : s.up id with
    | nil => exact absurd up ne
    | cons m ms =>
      obtain ⟨b', _, e, _⟩ := brokerStep_spec clock inv.book (inv.accepts up fresh)
        (inv.replyWhenIdle up offer)
      have e : brokerRecv clock s.broker (id :: m) offer = some b' := e
      exact Option.isSome_iff_exists.mp (by simp [sysStep, up, e])
  | tick =>
    obtain ⟨b', _, e, _⟩ := tick_spec clock inv.book
    exact Option.isSome_iff_exists.mp (by simp [sysStep, e])
  | _ => exact rd.elim

/-- In every state of every run: the requests accepted are those the clients have sent; each of
them is in one place; the requests of a service are sent in the order of arrival; the REQUEST
messages on the socket are the requests sent; no service has both requests and waiting workers; and
the broker does not fault. -/
theorem majordomo_delivery (clock : Nat → Nat) : ∀ tr s, Run (SysTrans clock) (sysNew clock) tr s →
    s.broker.contents = requests tr ∧
    (∀ name r, (name, r) ∈ s.broker.accepted → OnePlace s.broker name r) ∧
    (∀ name, s.broker.sentFor name ++ s.broker.requestsOf name = s.broker.acceptedFor name) ∧
    s.broker.out.filter isRequest = s.broker.sent.map (fun e => requestMsg e.worker e.request) ∧
    (∀ name sv, s.broker.services name = some sv → sv.requests = [] ∨ sv.waiting = []) ∧
    ∀ a, BrokerReady s a → ∃ s', SysTrans clock s a s' := by
  intro tr s run
  have inv := SysInv.run run
  exact ⟨contents_run run, fun _ _ mem => inv.ledger.onePlace mem, inv.ledger.order,
    inv.ledger.wire, inv.idle, fun _ rd => inv.ready rd⟩

/-- A worker becomes ready and a client sends a request for its service, which is then sent to
it. -/
theorem majordomo_delivery_request : ∃ s, Run (SysTrans fun n => n) (sysNew fun n => n)
    [.client [[67], [], MDPC_CLIENT, [115], [120]] 1, .deliver [65] 0, .start [65] [115]] s ∧
    s.broker.sent.length = 1 ∧
    ∀ name r, (name, r) ∈ s.broker.accepted → OnePlace s.broker name r := by
  have run : Run (SysTrans fun n => n) (sysNew fun n => n)
      [.client [[67], [], MDPC_CLIENT, [115], [120]] 1, .deliver [65] 0, .start [65] [115]] _ :=
    .cons (.cons (.cons .nil rfl) rfl) rfl
  exact ⟨_, run, rfl, (majordomo_delivery _ _ _ run).2.1⟩

end SweetClib.Majordomo
