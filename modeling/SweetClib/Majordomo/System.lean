import SweetClib.Majordomo.Worker
import SweetClib.Majordomo.Ledger
import SweetClib.Majordomo.Bookkeeping

/-!
# The broker among workers and clients

The system is the broker, any number of worker sessions, and arbitrary clients. A session is kept
under the identity of its socket; every connection gets an identity that no socket had before. What
a socket sends waits in a queue for the broker, and what the broker has sent to an identity is read
from its log in order. Messages of a socket that was closed may be lost. A client is any peer that
does not send worker messages.

`SysInv` is the invariant of the system. Its heart is the account of turns (`turns`): what the
broker owes or has given to an identity, with the READY and REPLY messages under way and the reply
the session owes, never exceeds the requests the session has received by more than its one READY.
So a REPLY never comes from a worker that is waiting.
-/

namespace SweetClib.Majordomo
open SweetClib.Lib

/-- The state of the system: the broker, the sessions by the identity of their socket, the messages
under way to the broker, the number of messages each socket has received, and the identities used
so far. -/
structure Sys where
  broker : Broker
  procs : Frame → Option Mdwrk
  up : Frame → List Zmsg
  taken : Frame → Nat
  used : Frame → Bool

/-- The messages the broker has sent to an identity. -/
def outTo (b : Broker) (id : Frame) : List Zmsg :=
  b.out.filter fun m => m.head? = some id

/-- The steps of the system; a step of a session that may reconnect comes with the identity of a
new socket. -/
inductive Action where
  | client (msg : Zmsg) (offer : Addr)
  | deliver (id : Frame) (offer : Addr)
  | tick
  | start (id : Frame) (service : Str)
  | setHeartbeat (id : Frame) (heartbeat : Nat)
  | call (id : Frame) (reply : Option Zmsg)
  | poll (id fresh : Frame)
  | timeout (id fresh : Frame)
  | lose (id : Frame) (n : Nat)

/-- Store a session and put messages on its socket. -/
def Sys.write (s : Sys) (id : Frame) (self : Mdwrk) (msgs : List Zmsg) : Sys :=
  { s with
    procs := Function.update s.procs id (some self)
    up := Function.update s.up id (s.up id ++ msgs) }

/-- Read the clock. -/
def Sys.read (s : Sys) : Sys :=
  { s with broker := s.broker.read }

/-- Take the next message from a socket. -/
def Sys.take (s : Sys) (id : Frame) : Sys :=
  { s with taken := Function.update s.taken id (s.taken id + 1) }

/-- Open a socket with an identity not used before. -/
def Sys.connect (clock : Nat → Nat) (s : Sys) (id : Frame) (self : Mdwrk) : Option (Mdwrk × Sys) :=
  if s.used id then none
  else
    let (self, ready) := sMdwrkConnectToBroker self (clock s.broker.reads)
    some (self, { s.read.write id self [ready] with used := Function.update s.used id true })

/-- The end of a round of the loop of C `mdwrk_recv`: a heartbeat is sent if it is due. -/
def Sys.heartbeat (clock : Nat → Nat) (s : Sys) (id : Frame) (self : Mdwrk) : Sys :=
  if clock s.broker.reads > self.heartbeatAt then
    s.read.read.write id { self with heartbeatAt := clock (s.broker.reads + 1) + self.heartbeat }
      [sMdwrkSendToBroker MDPW_HEARTBEAT none none]
  else
    s.read.write id self []

/-- A round of the loop of C `mdwrk_recv` goes on. -/
def Sys.proceed (clock : Nat → Nat) (s : Sys) (id fresh : Frame) : Mdwrk × Outcome → Option Sys
  | (self, .request _) => some (s.write id self [])
  | (self, .stay) => some (s.heartbeat clock id self)
  | (self, .reconnect) =>
    let s := { s with procs := Function.update s.procs id none }
    match s.connect clock fresh self with
    | none => none
    | some (self, s) => some (s.heartbeat clock fresh self)

/-- One step of the system; `none` when the step cannot be taken. -/
def sysStep (clock : Nat → Nat) (s : Sys) : Action → Option Sys
  | .client msg offer =>
    match workerCommand msg with
    | some _ => none
    | none => (brokerRecv clock s.broker msg offer).map fun b => { s with broker := b }
  | .deliver id offer =>
    match s.up id with
    | [] => none
    | m :: ms => (brokerRecv clock s.broker (id :: m) offer).map fun b =>
        { s with broker := b, up := Function.update s.up id ms }
  | .tick => (brokerTick clock s.broker).map fun b => { s with broker := b }
  | .start id service => (s.connect clock id (mdwrkNew service)).map Prod.snd
  | .setHeartbeat id heartbeat =>
    match s.procs id with
    | none => none
    | some self => some (s.write id (mdwrkSetHeartbeat self heartbeat) [])
  | .call id reply =>
    match s.procs id with
    | none => none
    | some self =>
      if self.polling then none
      else (mdwrkRecvReply self reply).map fun r => s.write id r.1 r.2
  | .poll id fresh =>
    match s.procs id, (outTo s.broker id)[s.taken id]? with
    | some self, some (_ :: msg) =>
      if self.polling then
        (mdwrkRecvMsg self msg).bind ((s.take id).proceed clock id fresh)
      else none
    | _, _ => none
  | .timeout id fresh =>
    match s.procs id with
    | none => none
    | some self => if self.polling then s.proceed clock id fresh (mdwrkRecvTimeout self) else none
  | .lose id n =>
    match s.procs id with
    | some _ => none
    | none => some { s with up := Function.update s.up id ((s.up id).take n) }

/-- A message with the header of clients goes to the handler of client messages. -/
lemma sysStep_client (clock : Nat → Nat) (s : Sys) (client empty serviceFrame : Frame)
    (msg : Zmsg) (offer : Addr) :
    sysStep clock s (.client (client :: empty :: MDPC_CLIENT :: serviceFrame :: msg) offer) =
      (sBrokerClientMsg clock s.broker client (serviceFrame :: msg)).map fun b =>
        { s with broker := b } := by
  simp only [sysStep, workerCommand, if_neg (by decide : MDPC_CLIENT ≠ MDPW_WORKER), brokerRecv,
    if_true]

/-- The transitions of the system. -/
def SysTrans (clock : Nat → Nat) (s : Sys) (a : Action) (s' : Sys) : Prop :=
  sysStep clock s a = some s'

/-- The system at the start: a new broker, and no sessions. -/
def sysNew (clock : Nat → Nat) : Sys :=
  { broker := sBrokerNew clock, procs := fun _ => none, up := fun _ => [], taken := fun _ => 0,
    used := fun _ => false }

/-- The messages of a worker that ask for a turn: READY and REPLY. -/
def isTurn : Zmsg → Bool
  | _ :: header :: command :: _ =>
    header = MDPW_WORKER ∧ (command = MDPW_READY ∨ command = MDPW_REPLY)
  | _ => false

/-- The turns asked for by messages under way. -/
def pending (s : Sys) (id : Frame) : Nat :=
  (s.up id).countP isTurn

/-- Whether a session owes a reply. -/
def Mdwrk.owes (self : Mdwrk) : Nat :=
  if self.polling = false ∧ self.replyTo.isSome then 1 else 0

/-- Whether the session of a socket owes a reply. -/
def owes (s : Sys) (id : Frame) : Nat :=
  match s.procs id with
  | some self => self.owes
  | none => 0

/-- The requests that the session of a socket has received. -/
def received (s : Sys) (id : Frame) : Nat :=
  ((outTo s.broker id).take (s.taken id)).countP isRequest

/-- The one READY of a socket. -/
def opened (s : Sys) (id : Frame) : Nat :=
  if s.used id then 1 else 0

/-- The messages workers send. -/
inductive WorkerMsg : Zmsg → Prop where
  | ready {service} :
    WorkerMsg (sMdwrkSendToBroker MDPW_READY (some service) none)
  | reply {client body} :
    WorkerMsg (sMdwrkSendToBroker MDPW_REPLY none (some (zmsgWrap body client)))
  | heartbeat :
    WorkerMsg (sMdwrkSendToBroker MDPW_HEARTBEAT none none)

/-- The invariant of the system. -/
structure SysInv (s : Sys) : Prop where
  book : Book s.broker
  ledger : Ledger s.broker
  idle : ∀ n, IdleAt s.broker n
  served : Served s.broker
  msgs : ∀ id, ∀ m ∈ s.up id, WorkerMsg m
  turns : ∀ id, due s.broker id + pending s id + owes s id ≤ received s id + opened s id

/-- A step of a session: of the broker it changes only the readings of the clock, it sends worker
messages, and it asks for no more turns than the requests it receives and the sockets it opens
allow. -/
structure Balanced (s s' : Sys) : Prop where
  broker : ∃ n, s.broker.reads ≤ n ∧ s'.broker = { s.broker with reads := n }
  msgs : (∀ id, ∀ m ∈ s.up id, WorkerMsg m) → ∀ id, ∀ m ∈ s'.up id, WorkerMsg m
  turns : ∀ id, pending s' id + owes s' id + received s id + opened s id ≤
    pending s id + owes s id + received s' id + opened s' id

variable {clock : Nat → Nat} {s s' s'' : Sys} {id : Frame} {self : Mdwrk}

lemma Balanced.trans (bal : Balanced s s') (bal' : Balanced s' s'') : Balanced s s'' := by
  obtain ⟨n, le, e⟩ := bal.broker
  obtain ⟨n', le', e'⟩ := bal'.broker
  rw [e] at le' e'
  refine ⟨⟨n', le.trans le', e'⟩, fun h => bal'.msgs (bal.msgs h), fun id => ?_⟩
  have h := bal.turns id
  have h' := bal'.turns id
  omega

lemma Balanced.read (s : Sys) : Balanced s s.read :=
  ⟨⟨_, Nat.le_succ _, rfl⟩, fun h => h, fun _ => Nat.le_refl _⟩

/-- A session sends at most a reply that it owes. -/
lemma Balanced.write {msgs : List Zmsg} (all : ∀ m ∈ msgs, WorkerMsg m)
    (le : msgs.countP isTurn + self.owes ≤ owes s id) : Balanced s (s.write id self msgs) := by
  refine ⟨⟨_, le_rfl, rfl⟩, fun h n m mem => ?_, fun n => ?_⟩
  · by_cases hn : n = id
    · subst hn
      simp only [Sys.write, Function.update_self] at mem
      obtain mem | mem := List.mem_append.mp mem
      · exact h n m mem
      · exact all m mem
    · simp only [Sys.write, Function.update_of_ne hn] at mem
      exact h n m mem
  · have rest : received (s.write id self msgs) n = received s n := rfl
    have opn : opened (s.write id self msgs) n = opened s n := rfl
    rw [rest, opn]
    by_cases hn : n = id
    · subst hn
      have up : pending (s.write n self msgs) n = pending s n + msgs.countP isTurn := by
        simp [pending, Sys.write]
      have ow : owes (s.write n self msgs) n = self.owes := by simp [owes, Sys.write]
      omega
    · have up : pending (s.write id self msgs) n = pending s n := by simp [pending, Sys.write, hn]
      have ow : owes (s.write id self msgs) n = owes s n := by simp [owes, Sys.write, hn]
      omega

lemma owes_polling (pl : self.polling = true) : self.owes = 0 := by
  simp [Mdwrk.owes, pl]

lemma Balanced.heartbeat (pl : self.polling = true) : Balanced s (s.heartbeat clock id self) := by
  have none : ∀ msgs : List Zmsg, msgs.countP isTurn = 0 → ∀ m : Mdwrk, m.polling = true →
      ∀ s : Sys, msgs.countP isTurn + m.owes ≤ owes s id := by
    intro msgs h m pl s
    rw [h, owes_polling pl]
    exact Nat.zero_le _
  rw [Sys.heartbeat]
  split
  · refine ((Balanced.read s).trans (.read _)).trans (.write ?_ (none _ rfl _ pl _))
    intro m mem
    rw [List.mem_singleton.mp mem]
    exact .heartbeat
  · exact (Balanced.read s).trans (.write nofun (none _ rfl _ pl _))

lemma Balanced.connect {r : Mdwrk × Sys} (e : s.connect clock id self = some r)
    (ow : self.owes = 0) : Balanced s r.2 ∧ r.1.polling = self.polling := by
  unfold Sys.connect at e
  split at e
  · cases e
  next new =>
    simp only [sMdwrkConnectToBroker, Option.some.injEq] at e
    subst e
    refine ⟨⟨⟨_, Nat.le_succ _, rfl⟩, fun h n m mem => ?_, fun n => ?_⟩, rfl⟩
    · by_cases hn : n = id
      · subst hn
        simp only [Sys.write, Sys.read, Function.update_self] at mem
        obtain mem | mem := List.mem_append.mp mem
        · exact h n m mem
        · rw [List.mem_singleton.mp mem]
          exact .ready
      · simp only [Sys.write, Sys.read, Function.update_of_ne hn] at mem
        exact h n m mem
    · by_cases hn : n = id
      · subst hn
        have ow' : Mdwrk.owes { self with
            liveness := WORKER_LIVENESS, heartbeatAt :=
              clock s.broker.reads + self.heartbeat } = 0 := ow
        simp only [pending, owes, received, opened, Sys.write, Sys.read, Function.update_self, ow',
          List.countP_append, new, if_true, Bool.false_eq_true, if_false]
        have one : [sMdwrkSendToBroker MDPW_READY (some self.service) none].countP isTurn = 1 := rfl
        have same : (outTo s.broker.read n) = outTo s.broker n := rfl
        rw [one, same]
        omega
      · simp only [pending, owes, received, opened, Sys.write, Sys.read, Function.update_of_ne hn]
        exact Nat.le_refl _

lemma Balanced.close (s : Sys) (id : Frame) :
    Balanced s { s with procs := Function.update s.procs id none } := by
  refine ⟨⟨_, le_rfl, rfl⟩, fun h => h, fun n => ?_⟩
  have le : owes { s with procs := Function.update s.procs id none } n ≤ owes s n := by
    by_cases hn : n = id
    · subst hn
      simp [owes]
    · simp [owes, hn]
  exact Nat.add_le_add_right (Nat.add_le_add_right (Nat.add_le_add_left le _) _) _

/-- A polling session goes on without a request. -/
lemma Balanced.proceed {fresh : Frame} {r : Mdwrk × Outcome} (pl : r.1.polling = true)
    (no : ∀ msg, r.2 ≠ .request msg) (e : s.proceed clock id fresh r = some s') :
    Balanced s s' := by
  obtain ⟨self, outcome⟩ := r
  cases outcome with
  | request msg => exact absurd rfl (no msg)
  | stay =>
    cases e
    exact .heartbeat pl
  | reconnect =>
    simp only [Sys.proceed] at e
    split at e
    · cases e
    next self' s₁ hc =>
      cases e
      obtain ⟨bal, same⟩ := Balanced.connect hc (owes_polling pl)
      have pl' : self'.polling = true := same.trans pl
      exact ((Balanced.close s id).trans bal).trans (.heartbeat pl')

/-- A message is taken from the socket. -/
lemma received_take {m : Zmsg} (next : (outTo s.broker id)[s.taken id]? = some m) (n : Frame) :
    received (s.take id) n = received s n + if n = id ∧ isRequest m then 1 else 0 := by
  by_cases hn : n = id
  · subst hn
    simp only [received, Sys.take, Function.update_self, List.take_add_one, next,
      Option.toList_some, List.countP_append, List.countP_singleton, true_and]
  · simp [received, Sys.take, hn]

/-- What a session does with a message. -/
lemma mdwrkRecvMsg_spec {msg : Zmsg} {r : Mdwrk × Outcome} (e : mdwrkRecvMsg self msg = some r) :
    (∃ body, r.2 = .request body ∧ ∀ id, isRequest (id :: msg) = true) ∨
      (∀ body, r.2 ≠ .request body) ∧ r.1.polling = self.polling := by
  obtain _ | ⟨empty, _ | ⟨header, _ | ⟨command, msg⟩⟩⟩ := msg
  · cases e
  · cases e
  · cases e
  have stay : ∀ body, Outcome.stay ≠ .request body := by
    intro body h
    cases h
  have reconnect : ∀ body, Outcome.reconnect ≠ .request body := by
    intro body h
    cases h
  simp only [mdwrkRecvMsg] at e
  split at e
  next frame =>
    obtain ⟨rfl, rfl⟩ := frame
    split at e
    next isReq =>
      subst isReq
      split at e
      · cases e
      · cases e
        exact .inl ⟨_, rfl, fun _ => by simp [isRequest]⟩
    next =>
      split at e
      · cases e
        exact .inr ⟨stay, rfl⟩
      · split at e
        · cases e
          exact .inr ⟨reconnect, rfl⟩
        · cases e
          exact .inr ⟨stay, rfl⟩
  · cases e

/-- A message other than a request is taken. -/
lemma Balanced.take {m : Zmsg} (next : (outTo s.broker id)[s.taken id]? = some m) :
    Balanced s (s.take id) := by
  refine ⟨⟨_, le_rfl, rfl⟩, fun h => h, fun n => ?_⟩
  have rest : pending (s.take id) n + owes (s.take id) n = pending s n + owes s n := rfl
  have opn : opened (s.take id) n = opened s n := rfl
  rw [received_take next n, rest, opn]
  omega

/-- A request is taken, and pays for the reply that is now owed. -/
lemma Balanced.request {m : Zmsg} (next : (outTo s.broker id)[s.taken id]? = some m)
    (req : isRequest m = true) (own : owes s id = 0) :
    Balanced s ((s.take id).write id self []) := by
  refine ⟨⟨_, le_rfl, rfl⟩, fun h n m mem => ?_, fun n => ?_⟩
  · by_cases hn : n = id
    · subst hn
      simp only [Sys.take, Sys.write, Function.update_self, List.append_nil] at mem
      exact h n m mem
    · simp only [Sys.take, Sys.write, Function.update_of_ne hn] at mem
      exact h n m mem
  · have rcv : received ((s.take id).write id self []) n = received (s.take id) n := rfl
    have opn : opened ((s.take id).write id self []) n = opened s n := rfl
    rw [rcv, opn, received_take next n]
    by_cases hn : n = id
    · subst hn
      have le : self.owes ≤ 1 := by
        rw [Mdwrk.owes]
        split <;> omega
      have up : pending ((s.take n).write n self []) n = pending s n := by
        simp [pending, Sys.write, Sys.take]
      have ow : owes ((s.take n).write n self []) n = self.owes := by simp [owes, Sys.write]
      rw [up, ow, if_pos ⟨rfl, req⟩]
      omega
    · have up : pending ((s.take id).write id self []) n = pending s n := by
        simp [pending, Sys.write, Sys.take]
      have ow : owes ((s.take id).write id self []) n = owes s n := by
        simp [owes, Sys.write, Sys.take, hn]
      rw [up, ow]
      omega

/-- A session takes a message from its socket. -/
lemma Balanced.poll {fresh : Frame} (e : sysStep clock s (.poll id fresh) = some s') :
    Balanced s s' := by
  simp only [sysStep] at e
  split at e
  next self head msg hp next =>
    split at e
    next pl =>
      obtain ⟨r, hr, e⟩ := Option.bind_eq_some_iff.mp e
      have own : owes s id = 0 := by
        rw [owes, hp]
        exact owes_polling pl
      obtain ⟨body, req, isReq⟩ | ⟨no, same⟩ := mdwrkRecvMsg_spec hr
      · obtain ⟨self', outcome⟩ := r
        subst req
        cases e
        exact .request next (isReq head) own
      · exact (Balanced.take next).trans (.proceed (same.trans pl) no e)
    · cases e
  · cases e

/-- What the broker handles in a step of the system. -/
def eventOf (s : Sys) : Action → Option Event
  | .client msg offer => some (.recv msg offer)
  | .deliver id offer => (s.up id).head?.map fun m => .recv (id :: m) offer
  | .tick => some .tick
  | _ => none

/-- Every step in which the broker handles nothing is balanced. -/
lemma Balanced.step {a : Action} (e : sysStep clock s a = some s') (ns : eventOf s a = none) :
    Balanced s s' := by
  cases a with
  | client _ _ => cases ns
  | deliver id _ =>
    simp only [sysStep] at e
    split at e
    · cases e
    next up => simp [eventOf, up] at ns
  | tick => cases ns
  | start id service =>
    obtain ⟨r, hr, rfl⟩ := Option.map_eq_some_iff.mp e
    exact (Balanced.connect hr rfl).1
  | setHeartbeat id heartbeat =>
    simp only [sysStep] at e
    split at e
    · cases e
    next self hp =>
      cases e
      refine .write nofun ?_
      have same : (mdwrkSetHeartbeat self heartbeat).owes = self.owes := rfl
      rw [owes, hp, same]
      simp
  | call id reply =>
    simp only [sysStep] at e
    split at e
    · cases e
    next self hp =>
      split at e
      · cases e
      next pl =>
        obtain ⟨r, hr, rfl⟩ := Option.map_eq_some_iff.mp e
        have own : owes s id = self.owes := by rw [owes, hp]
        simp only [mdwrkRecvReply] at hr
        split at hr
        next =>
          split at hr
          · cases hr
          · cases hr
            exact .write nofun (by simp [Mdwrk.owes])
        next reply =>
          split at hr
          · cases hr
          next client ht =>
            cases hr
            refine .write ?_ ?_
            · intro m mem
              rw [List.mem_singleton.mp mem]
              exact .reply
            · -- the reply sent is the one the session owes
              have one : self.owes = 1 := by simp [Mdwrk.owes, ht, Bool.eq_false_iff.mpr pl]
              rw [own, one, owes_polling rfl]
              rfl
  | poll id fresh => exact .poll e
  | timeout id fresh =>
    simp only [sysStep] at e
    split at e
    · cases e
    next self hp =>
      split at e
      next pl =>
        refine .proceed (r := mdwrkRecvTimeout self) pl ?_ e
        intro msg h
        simp only [mdwrkRecvTimeout] at h
        split at h <;> cases h
      · cases e
  | lose id n =>
    simp only [sysStep] at e
    split at e
    · cases e
    · cases e
      refine ⟨⟨_, le_rfl, rfl⟩, fun h n' m mem => ?_, fun n' => ?_⟩
      · by_cases hn : n' = id
        · subst hn
          simp only [Function.update_self] at mem
          exact h n' m (List.mem_of_mem_take mem)
        · simp only [Function.update_of_ne hn] at mem
          exact h n' m mem
      · have le : pending { s with up := Function.update s.up id ((s.up id).take n) } n' ≤
            pending s n' := by
          by_cases hn : n' = id
          · subst hn
            simp only [pending, Function.update_self]
            exact (List.take_sublist n _).countP_le
          · simp [pending, hn]
        exact Nat.add_le_add_right (Nat.add_le_add_right (Nat.add_le_add_right le _) _) _

end SweetClib.Majordomo
