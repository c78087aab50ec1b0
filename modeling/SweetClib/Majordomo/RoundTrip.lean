import Mathlib.Data.List.TakeWhile
import SweetClib.Majordomo.Client
import SweetClib.Majordomo.Delivery

/-!
# The envelope of a request

A request goes from a client through the broker to a worker, and its reply the same way back. On
this way four programs put frames before the body and take them off again: the client its header
and the service, the sockets the identities and the empty frames, the broker the envelope with the
client's address, and the worker API its header and command. `envelope_round_trip` says, of every
state the system reaches, that what one of them puts together the next one takes apart, so that the
worker sees the body of the client, and a worker that returns it makes both client APIs return it.

The broker puts the name of the worker's service before the reply, and the client expects the one
it asked for. That they are the same rests on an invariant of the system: an identity stands for
one service (`Settled`), since a socket sends one READY.
-/

namespace SweetClib.Majordomo
open SweetClib.Lib

/-- The services of the workers, and of the workers that requests were sent to, are those `P` gives
their identities. -/
structure Homed (P : Frame → Str → Prop) (b : Broker) : Prop where
  role : ∀ p id name, b.roleOf p = some (id, some name) → P id name
  sent : ∀ e ∈ b.sent, ∀ name, e.worker.service = some name → P e.worker.identity name

/-- The READY of a session for a service. -/
def readyMsg (service : Str) : Zmsg :=
  sMdwrkSendToBroker MDPW_READY (some service) none

/-- The REPLY of a session to a client. -/
def replyMsg (client : Frame) (body : Zmsg) : Zmsg :=
  sMdwrkSendToBroker MDPW_REPLY none (some (zmsgWrap body client))

/-- What the steps of sessions are made of. -/
inductive SessionStep (clock : Nat → Nat) : Sys → Sys → Prop where
  | read {s} :
    SessionStep clock s s.read
  | take {s id} :
    SessionStep clock s (s.take id)
  | close {s id} :
    SessionStep clock s { s with procs := Function.update s.procs id none }
  | write {s id self msgs} :
    (∀ service, readyMsg service ∉ msgs) →
    SessionStep clock s (s.write id self msgs)
  | connect {s id self r} :
    s.connect clock id self = some r →
    SessionStep clock s r.2
  | lose {s id n} :
    SessionStep clock s { s with up := Function.update s.up id ((s.up id).take n) }

/-- Every identity stands for the service `home` gives it: in the broker, and in the READY messages
under way. -/
structure Settled (home : Frame → Option Str) (s : Sys) : Prop where
  broker : Homed (fun id name => home id = some name) s.broker
  ready : ∀ id service, readyMsg service ∈ s.up id → home id = some (zframeStrdup service)
  used : ∀ id, s.used id = false → home id = none

/-- The way of a request and of its reply. Both client APIs send a message in which the broker
accepts the body for the service; a worker that gets the request sees the body, and if it returns
it, puts a REPLY on its socket; when the broker gets to it and the worker is still registered, it
sends a message to the client for which both client APIs return the body. -/
structure RoundTrip (clock : Nat → Nat) (s : Sys) (client : Frame) (service : Str) (body : Zmsg) :
    Prop where
  request : ∀ msg, msg = reqSend (MDPC_CLIENT :: service :: body) ∨ msg = mdcli2Send service body →
    ∀ offer,
    ∃ s', SysTrans clock s (.client (client :: msg) offer) s' ∧
      s'.broker.contents = s.broker.contents ++ [(service, zmsgWrap body client)]
  worker : ∀ e ∈ s.broker.sent, e.request.msg = zmsgWrap body client → ∃ msg,
    e.worker.identity :: msg ∈ s.broker.out ∧
    ∀ self, ∃ self' self'', mdwrkRecvMsg self msg = some (self', .request body) ∧
      mdwrkRecvReply self' (some body) = some (self'', [replyMsg client body])
  reply : ∀ e ∈ s.broker.sent, e.service = service → ∀ msgs offer,
    s.up e.worker.identity = replyMsg client body :: msgs →
    (s.broker.workers (zframeStrhex e.worker.identity)).isSome → ∃ s' msg rest,
    SysTrans clock s (.deliver e.worker.identity offer) s' ∧
    s'.broker.out = s.broker.out ++ (client :: msg) :: rest ∧
    (∃ msg', reqRecv msg = some msg' ∧ ∀ retries timeouts polled, timeouts < retries →
      mdcliSend service body retries (List.replicate timeouts .timeout ++ .msg msg' :: polled) =
        some (List.replicate (timeouts + 1) (MDPC_CLIENT :: service :: body), some body)) ∧
    mdcli2Recv (.msg msg) = some (some body)

variable {clock : Nat → Nat} {b b' : Broker} {s s' : Sys} {id : Frame} {self : Mdwrk}

section Homed

variable {P : Frame → Str → Prop}

/-- Updates keep the services of identities; the requests they send go to workers that are there. -/
lemma Homed.update (hm : Homed P b) (up : Update clock b b') : Homed P b' := by
  refine ⟨fun p id name e => hm.role p id name (up.role e), ?_⟩
  cases up with
  | change ch plain =>
    cases ch with
    | read => exact hm.sent
    | beat => exact hm.sent
    | send _ => exact hm.sent
    | service _ => exact hm.sent
    | register _ _ => cases plain
    | assign _ _ _ => cases plain
    | delete _ => exact hm.sent
    | accept _ => exact hm.sent
    | enlist _ _ _ _ => exact hm.sent
    | refresh _ => exact hm.sent
    | @give _ _ p w _ _ _ _ _ _ hw =>
      intro e mem name hn
      rcases List.mem_append.mp mem with mem | mem
      · exact hm.sent e mem name hn
      · rw [List.mem_singleton.mp mem] at hn ⊢
        have service : w.service = some name := hn
        exact hm.role p _ _ (by simp [Broker.roleOf, hw, service])
  | relist _ _ _ => exact hm.sent

/-- Runs of updates keep the services of identities. -/
lemma Homed.updates (hm : Homed P b) (ups : Updates clock b b') : Homed P b' :=
  ups.invariant (Homed P) hm fun _ _ hm up => hm.update up

/-- Rewriting a worker, if its service is one for its identity. -/
lemma Homed.set (hm : Homed P b) {p : Addr} {w : Worker} (heap : b'.heap = b.heap.set p w)
    (sent : b'.sent = b.sent) (ok : ∀ name, w.service = some name → P w.identity name) :
    Homed P b' := by
  refine ⟨fun q id name e => ?_, by rw [sent]; exact hm.sent⟩
  rw [roleOf_set heap] at e
  by_cases h : q = p
  · rw [h, Function.update_self] at e
    obtain ⟨rfl, hn⟩ := Prod.mk.inj (Option.some.inj e)
    exact ok name hn
  · rw [Function.update_of_ne h] at e
    exact hm.role q id name e

/-- A step keeps the services of identities, if the worker it brings in has one for its identity. -/
lemma Homed.effect (hm : Homed P b) {ev : Event} (eff : Effect clock b ev b')
    (new : ∀ p id name, Newcomer b ev p (id, some name) → P id name) : Homed P b' := by
  have register : ∀ {offer sender}, Homed P (b.register offer sender) :=
    hm.set rfl rfl nofun
  cases eff with
  | upkeep ups => exact hm.updates ups
  | stray _ _ _ _ => exact register
  | refused _ _ ups _ => exact register.updates ups
  | @joined _ offer _ frame b₁ w sv _ ready notMmi absent _ ups _ hid _ _ ups' =>
    have assigned : Homed P (b₁.assign offer w (zframeStrdup frame) sv) := by
      refine (register.updates ups).set rfl rfl ?_
      rintro name ⟨⟩
      subst hid
      exact new _ _ _ (.joined ready notMmi absent)
    exact assigned.updates ups'

end Homed

section Settled

/-- The end of a round consists of such steps. -/
lemma sessionSteps_heartbeat (s : Sys) (id : Frame) (self : Mdwrk) :
    Relation.ReflTransGen (SessionStep clock) s (s.heartbeat clock id self) := by
  rw [Sys.heartbeat]
  split
  · refine ((Relation.ReflTransGen.single .read).tail .read).tail (.write fun service mem => ?_)
    cases List.mem_singleton.mp mem
  · exact (Relation.ReflTransGen.single .read).tail (.write fun _ => List.not_mem_nil)

/-- A round that goes on consists of such steps. -/
lemma sessionSteps_proceed {fresh : Frame} {r : Mdwrk × Outcome}
    (e : s.proceed clock id fresh r = some s') :
    Relation.ReflTransGen (SessionStep clock) s s' := by
  obtain ⟨self, outcome⟩ := r
  cases outcome with
  | request msg =>
    cases e
    exact .single (.write fun _ => List.not_mem_nil)
  | stay =>
    cases e
    exact sessionSteps_heartbeat s id self
  | reconnect =>
    simp only [Sys.proceed] at e
    split at e
    · cases e
    next self' s₁ hc =>
      cases e
      have opened : SessionStep clock _ s₁ := .connect hc
      exact ((Relation.ReflTransGen.single .close).tail opened).trans
        (sessionSteps_heartbeat s₁ fresh self')

/-- A step of a session consists of such steps. -/
lemma sessionSteps {a : Action} (e : sysStep clock s a = some s') (ns : eventOf s a = none) :
    Relation.ReflTransGen (SessionStep clock) s s' := by
  cases a with
  | client _ _ => cases ns
  | deliver id _ =>
    simp only [sysStep] at e
    split at e
    · cases e
    next up => simp [eventOf, up] at ns
  | tick => cases ns
  | start id service =>
    obtain ⟨r, hr, rfl⟩ := Option.map_eq_some_iff.mp e
    exact .single (.connect hr)
  | setHeartbeat id heartbeat =>
    simp only [sysStep] at e
    split at e
    · cases e
    · cases e
      exact .single (.write fun _ => List.not_mem_nil)
  | call id reply =>
    simp only [sysStep] at e
    split at e
    · cases e
    split at e
    · cases e
    obtain ⟨r, hr, rfl⟩ := Option.map_eq_some_iff.mp e
    refine .single (.write fun service mem => ?_)
    simp only [mdwrkRecvReply] at hr
    split at hr
    · split at hr
      · cases hr
      · cases hr
        cases mem
    · split at hr
      · cases hr
      · cases hr
        cases List.mem_singleton.mp mem
  | poll id fresh =>
    simp only [sysStep] at e
    split at e
    · split at e
      · obtain ⟨r, _, e⟩ := Option.bind_eq_some_iff.mp e
        exact .head .take (sessionSteps_proceed e)
      · cases e
    · cases e
  | timeout id fresh =>
    simp only [sysStep] at e
    split at e
    · cases e
    · split at e
      · exact sessionSteps_proceed e
      · cases e
  | lose id n =>
    simp only [sysStep] at e
    split at e
    · cases e
    · cases e
      exact .single .lose

lemma Settled.connect {home : Frame → Option Str} (st : Settled home s) {r : Mdwrk × Sys}
    (e : s.connect clock id self = some r) :
    Settled (Function.update home id (some (zframeStrdup self.service))) r.2 := by
  unfold Sys.connect at e
  split at e
  · cases e
  next unused =>
    cases e
    have free : home id = none := st.used id (by simpa using unused)
    -- nothing was said of the identity before
    have same : ∀ {n name}, home n = some name →
        Function.update home id (some (zframeStrdup self.service)) n = some name := by
      intro n name e
      have ne : n ≠ id := by
        rintro rfl
        rw [free] at e
        cases e
      rw [Function.update_of_ne ne, e]
    refine ⟨⟨fun p n name e => same (st.broker.role p n name e), fun e mem name hn =>
      same (st.broker.sent e mem name hn)⟩, fun n service mem => ?_, fun n e => ?_⟩
    · by_cases h : n = id
      · subst h
        simp only [Sys.write, Sys.read, Function.update_self] at mem
        rcases List.mem_append.mp mem with mem | mem
        · exact same (st.ready n service mem)
        · cases List.mem_singleton.mp mem
          exact Function.update_self ..
      · simp only [Sys.write, Sys.read, Function.update_of_ne h] at mem
        exact same (st.ready n service mem)
    · have e : Function.update s.used id true n = false := e
      by_cases h : n = id
      · rw [h, Function.update_self] at e
        cases e
      · rw [Function.update_of_ne h] at e ⊢
        exact st.used n e

/-- The steps of sessions keep identities settled. -/
lemma Settled.session (st : ∃ home, Settled home s) (step : SessionStep clock s s') :
    ∃ home, Settled home s' := by
  obtain ⟨home, st⟩ := st
  cases step with
  | read => exact ⟨home, ⟨st.broker.role, st.broker.sent⟩, st.ready, st.used⟩
  | take => exact ⟨home, st.broker, st.ready, st.used⟩
  | close => exact ⟨home, st.broker, st.ready, st.used⟩
  | @write id _ msgs no =>
    refine ⟨home, st.broker, fun n service mem => ?_, st.used⟩
    by_cases h : n = id
    · subst h
      simp only [Sys.write, Function.update_self] at mem
      rcases List.mem_append.mp mem with mem | mem
      · exact st.ready n service mem
      · exact absurd mem (no service)
    · simp only [Sys.write, Function.update_of_ne h] at mem
      exact st.ready n service mem
  | connect e => exact ⟨_, st.connect e⟩
  | @lose id n =>
    refine ⟨home, st.broker, fun n' service mem => ?_, st.used⟩
    by_cases h : n' = id
    · subst h
      simp only [Function.update_self] at mem
      exact st.ready n' service (List.mem_of_mem_take mem)
    · simp only [Function.update_of_ne h] at mem
      exact st.ready n' service mem

/-- The READY of a session, as the broker gets it. -/
lemma WorkerMsg.readyService {m : Zmsg} (wm : WorkerMsg m) {sender frame : Frame}
    (e : readyService (id :: m) = some (sender, frame)) : sender = id ∧ m = readyMsg frame := by
  cases wm with
  | ready =>
    cases e
    exact ⟨rfl, rfl⟩
  | reply =>
    simp [Majordomo.readyService, sMdwrkSendToBroker, zmsgWrap, MDPW_REPLY, MDPW_READY] at e
  | heartbeat => cases e

/-- What the broker does keeps identities settled. -/
lemma Settled.move {home : Frame → Option Str} (st : Settled home s) (inv : SysInv s) {a : Action}
    {ev : Event} (e : sysStep clock s a = some s') (he : eventOf s a = some ev)
    (mv : Move clock s a s' ev) : Settled home s' := by
  have eff := brokerStep_effect inv.book.toRoster mv.step
  refine ⟨st.broker.effect eff fun p id name new => ?_,
    fun id service mem => st.ready id service (mv.up id _ mem), by rw [mv.used]; exact st.used⟩
  obtain ⟨msg, rfl⟩ := new.recv
  obtain ⟨frame, ready, rfl⟩ := new.ready
  cases a with
  | client _ _ =>
    -- a client sends no worker message
    cases he
    simp [sysStep, workerCommand_of_ready ready] at e
  | deliver sender offer =>
    obtain ⟨m, hm, same⟩ := Option.map_eq_some_iff.mp he
    cases same
    have mem : m ∈ s.up sender := List.mem_of_mem_head? hm
    obtain ⟨rfl, rfl⟩ := (inv.msgs sender m mem).readyService ready
    exact st.ready _ frame mem
  | _ => cases he

/-- Every identity is settled in every state of every run. -/
lemma Settled.run {tr} (run : Run (SysTrans clock) (sysNew clock) tr s) :
    ∃ home, Settled home s := by
  refine run.invariant_under SysInv (fun s => ∃ home, Settled home s) (.new clock)
    (fun _ _ _ inv st => inv.step st) ⟨fun _ => none, ⟨nofun, nofun⟩, nofun, fun _ _ => rfl⟩ ?_
  rintro s a s' inv ⟨home, st⟩ e
  obtain ⟨ev, he, mv⟩ | ⟨ns, -, -⟩ := inv.cases e
  · exact ⟨home, st.move inv e he mv⟩
  · have steps := sessionSteps e ns
    clear e ns
    induction steps with
    | refl => exact ⟨home, st⟩
    | tail _ step ih => exact Settled.session ih step

/-- A worker has the service for which a request was sent to its identity. -/
lemma Settled.service {home : Frame → Option Str} (st : Settled home s) (inv : SysInv s)
    {e : Sent} (mem : e ∈ s.broker.sent) {p : Addr}
    (reg : s.broker.workers (zframeStrhex e.worker.identity) = some p) :
    s.broker.svcOf p = some e.service := by
  obtain ⟨w, hw, hid⟩ := inv.book.toRoster.registered reg
  have same : w.identity = e.worker.identity := zframeStrhex_inj (w.hex.symm.trans hid)
  obtain ⟨name, hn⟩ := Option.isSome_iff_exists.mp (inv.served p w hw)
  have now := st.broker.role p w.identity name (by simp [Broker.roleOf, hw, hn])
  have before := st.broker.sent e mem e.service (inv.ledger.registered e mem).2
  rw [same, before] at now
  cases now
  simp [Broker.svcOf, hw, hn]

end Settled

/-- The broker accepts the request of a client. -/
lemma SysInv.accepts_request (inv : SysInv s) (clock : Nat → Nat) (client : Frame) {service : Str}
    {body : Zmsg} (noNul : 0 ∉ service) (notMmi : isMmi service = false) (nonempty : body ≠ [])
    (offer : Addr) :
    ∃ s', SysTrans clock s (.client (client :: mdcli2Send service body) offer) s' ∧
      s'.broker.contents = s.broker.contents ++ [(service, zmsgWrap body client)] := by
  obtain ⟨frame, frames, rfl⟩ := List.exists_cons_of_ne_nil nonempty
  have name : zframeStrdup service = service := by
    refine List.takeWhile_eq_self_iff.mpr fun byte mem => ?_
    have ne : byte ≠ 0 := fun h => noNul (h ▸ mem)
    simpa using ne
  have request : Action.request (.client (client :: mdcli2Send service (frame :: frames)) offer) =
      some (service, zmsgWrap (frame :: frames) client) := by
    simp [Action.request, clientRequest, mdcli2Send, notMmi, name]
  have ready : BrokerReady s (.client (client :: mdcli2Send service (frame :: frames)) offer) := by
    refine ⟨rfl, ?_⟩
    simp [Accepts, mdcli2Send]
  obtain ⟨s', e⟩ := inv.ready ready
  refine ⟨s', e, ?_⟩
  rw [inv.contents e, request]
  rfl

/-- The worker sees the body, and its REPLY carries what it returns. -/
lemma worker_returns (self : Mdwrk) (client : Frame) (body : Zmsg) :
    ∃ self' self'', mdwrkRecvMsg self ([] :: MDPW_WORKER :: MDPW_REQUEST :: zmsgWrap body client) =
        some (self', .request body) ∧
      mdwrkRecvReply self' (some body) = some (self'', [replyMsg client body]) :=
  ⟨_, _, rfl, rfl⟩

/-- The broker sends the reply of a registered worker to the client, with the service of the
worker. -/
lemma SysInv.delivers_reply (inv : SysInv s) (clock : Nat → Nat) {client : Frame} {service : Str}
    {body : Zmsg} {msgs : List Zmsg} {p : Addr} (offer : Addr)
    (up : s.up id = replyMsg client body :: msgs)
    (reg : s.broker.workers (zframeStrhex id) = some p) (svc : s.broker.svcOf p = some service) :
    ∃ s' rest, SysTrans clock s (.deliver id offer) s' ∧
      s'.broker.out = s.broker.out ++ (client :: [] :: MDPC_CLIENT :: service :: body) :: rest := by
  obtain ⟨w, hw, hn⟩ := Option.bind_eq_some_iff.mp svc
  have send : Change clock s.broker .send
      (zmsgSend s.broker (zmsgWrap (MDPC_CLIENT :: service :: body) client)) :=
        .send (isRequest_client _ _)
  have idle : p ∉ s.broker.waiting := inv.replyWhenIdle up offer id p rfl reg
  obtain ⟨b', e, act⟩ :=
    waiting_act clock (inv.book.change send) (p := p) (w := w) hw (by simp [hn]) idle
  have handled : brokerRecv clock s.broker (id :: replyMsg client body) offer = some b' := by
    have reply : sBrokerWorkerMsg clock s.broker id (MDPW_REPLY :: zmsgWrap body client) offer =
        some b' := by
      rw [workerMsg_reply offer reg hw, hn]
      exact e
    exact reply
  obtain ⟨rest, more⟩ := out_acts (inv.book.change send) (.single act)
  refine ⟨{ s with broker := b', up := Function.update s.up id msgs }, rest, ?_, ?_⟩
  · simp only [SysTrans, sysStep, up, handled, Option.map_some]
  · rw [← more]
    simp [zmsgSend, zmsgWrap]

/-- Both client APIs return the body of the message the broker sends. -/
lemma clients_return (service : Str) {body : Zmsg} (nonempty : body ≠ []) :
    mdcliReply service (MDPC_CLIENT :: service :: body) = some body ∧
      mdcli2Recv (.msg ([] :: MDPC_CLIENT :: service :: body)) = some (some body) := by
  have length := List.length_pos_iff.mpr nonempty
  constructor
  · rw [mdcliReply, if_pos (by simp only [List.length_cons]; omega)]
    simp
  · rw [mdcli2Recv, if_pos (by simp only [List.length_cons]; omega)]
    simp

/-- In every state of every run, for every client, every service that is not one of the broker
itself and every body with a frame, the request and its reply go through. -/
theorem envelope_round_trip (clock : Nat → Nat) : ∀ tr s, Run (SysTrans clock) (sysNew clock) tr s →
    ∀ client service body, 0 ∉ service → isMmi service = false → body ≠ [] →
    RoundTrip clock s client service body := by
  intro tr s run client service body noNul notMmi nonempty
  have inv := SysInv.run run
  obtain ⟨home, st⟩ := Settled.run run
  refine ⟨?_, ?_, ?_⟩
  · intro msg sent offer
    -- with the frame the REQ socket adds, both clients send the same message
    have same : msg = mdcli2Send service body := by
      rcases sent with rfl | rfl
      · rfl
      · rfl
    rw [same]
    exact inv.accepts_request clock client noNul notMmi nonempty offer
  · intro e mem contents
    refine ⟨[] :: MDPW_WORKER :: MDPW_REQUEST :: zmsgWrap body client, ?_,
      fun self => worker_returns self client body⟩
    have wire : requestMsg e.worker e.request ∈ s.broker.out.filter isRequest := by
      rw [inv.ledger.wire]
      exact List.mem_map_of_mem mem
    rw [requestMsg, contents] at wire
    exact List.mem_of_mem_filter wire
  · rintro e mem rfl msgs offer up registered
    obtain ⟨p, reg⟩ := Option.isSome_iff_exists.mp registered
    obtain ⟨s', rest, step, out⟩ := inv.delivers_reply clock offer up reg (st.service inv mem reg)
    obtain ⟨req, dealer⟩ := clients_return e.service nonempty
    refine ⟨s', _, rest, step, out, ⟨_, rfl, ?_⟩, dealer⟩
    intro retries timeouts polled lt
    exact mdcliSend_reply req body lt polled

/-- A worker gets a request and returns its body; its REPLY is on the way. -/
theorem envelope_round_trip_echo : ∃ s, Run (SysTrans fun n => n) (sysNew fun n => n)
    [.call [65] (some [[120]]), .poll [65] [66], .client [[67], [], MDPC_CLIENT, [115], [120]] 1,
      .deliver [65] 0, .call [65] none, .start [65] [115]] s ∧
    s.up [65] = [replyMsg [67] [[120]]] ∧ RoundTrip (fun n => n) s [67] [115] [[120]] := by
  have run : Run (SysTrans fun n => n) (sysNew fun n => n)
      [.call [65] (some [[120]]), .poll [65] [66], .client [[67], [], MDPC_CLIENT, [115], [120]] 1,
        .deliver [65] 0,
        .call [65] none, .start [65] [115]] _ :=
    .cons (.cons (.cons (.cons (.cons (.cons .nil rfl) rfl) rfl) rfl) rfl) rfl
  exact ⟨_, run, rfl, envelope_round_trip _ _ _ run [67] [115] [[120]] (by decide) (by decide)
    (by decide)⟩

end SweetClib.Majordomo
