import SweetClib.Majordomo.Bookkeeping

/-!
# The broker among arbitrary peers

The bookkeeping of the waiting lists needs peers that reply only when they have a request. What the
broker does to its workers and their services can be said without it: as long as the functions of
the broker return, they are runs of updates, which are the changes of `Change` and the enlisting of
a worker that is already waiting, except that no worker is added and none gets a service. `Effect`
says what a step of the broker does besides: it may add the sender of the message, and leave it
without a service, delete it again, or give it the service it asks for.

`Kept` is what the functions leave of the workers: each of them is still there, or a reading of the
clock has shown it to be expired.
-/

namespace SweetClib.Majordomo
open SweetClib.Lib

/-- The changes that neither add a worker nor give one a service. -/
def Kind.plain : Kind → Bool
  | .register | .assign => false
  | _ => true

/-- The updates. -/
inductive Update (clock : Nat → Nat) : Broker → Broker → Prop where
  | change {b k b'} :
    Change clock b k b' →
    k.plain = true →
    Update clock b b'
  | relist {b p w name s} :
    b.heap p = some w →
    w.service = some name →
    b.services name = some s →
    Update clock b (b.enlist clock p w name s)

/-- Runs of updates. -/
def Updates (clock : Nat → Nat) : Broker → Broker → Prop :=
  Relation.ReflTransGen (Update clock)

/-- Every worker that is gone or changed has expired by a reading of the clock. -/
structure Kept (clock : Nat → Nat) (b b' : Broker) : Prop where
  reads : b.reads ≤ b'.reads
  heap : ∀ p w, b.heap p = some w →
    b'.heap p = some w ∨ ∃ i, b.reads ≤ i ∧ i < b'.reads ∧ w.expiry ≤ clock i

/-- The identity and the service of the worker at an address. -/
def Broker.roleOf (b : Broker) (p : Addr) : Option (Frame × Option Str) :=
  (b.heap p).map fun w => (w.identity, w.service)

/-- The sender of a READY and the service it asks for. -/
def readyService : Zmsg → Option (Frame × Frame)
  | sender :: _ :: header :: command :: frame :: _ =>
    if header = MDPW_WORKER ∧ command = MDPW_READY then some (sender, frame) else none
  | _ => none

/-- What a step of the broker does: updates, or, for a sender that is not registered, it adds the
worker and leaves it so, deletes it again, or gives it a service. -/
inductive Effect (clock : Nat → Nat) (b : Broker) : Event → Broker → Prop where
  | upkeep {ev b'} :
    Updates clock b b' →
    Effect clock b ev b'
  | stray {msg offer sender command} :
    workerCommand msg = some (sender, command) →
    ¬ SentByWorkers command →
    b.workers (zframeStrhex sender) = none →
    b.heap offer = none →
    Effect clock b (.recv msg offer) (b.register offer sender)
  | refused {msg offer sender b'} :
    b.workers (zframeStrhex sender) = none →
    b.heap offer = none →
    Updates clock (b.register offer sender) b' →
    b'.heap offer = none →
    Effect clock b (.recv msg offer) b'
  | joined {msg offer sender frame b₁ w s b'} :
    readyService msg = some (sender, frame) →
    isMmi sender = false →
    b.workers (zframeStrhex sender) = none →
    b.heap offer = none →
    Updates clock (b.register offer sender) b₁ →
    b₁.heap offer = some w →
    w.identity = sender →
    w.service = none →
    b₁.services (zframeStrdup frame) = some s →
    Updates clock (b₁.assign offer w (zframeStrdup frame) s) b' →
    Effect clock b (.recv msg offer) b'

/-- The worker an event brings in: its address and its role. -/
inductive Newcomer (b : Broker) : Event → Addr → Frame × Option Str → Prop where
  | stray {msg offer sender command} :
    workerCommand msg = some (sender, command) →
    ¬ SentByWorkers command →
    b.workers (zframeStrhex sender) = none →
    Newcomer b (.recv msg offer) offer (sender, none)
  | joined {msg offer sender frame} :
    readyService msg = some (sender, frame) →
    isMmi sender = false →
    b.workers (zframeStrhex sender) = none →
    Newcomer b (.recv msg offer) offer (sender, some (zframeStrdup frame))

variable {clock : Nat → Nat} {b b' b₁ : Broker} {p : Addr} {w : Worker} {name : Str} {s : Service}

lemma workerCommand_of_ready {msg : Zmsg} {sender frame : Frame}
    (e : readyService msg = some (sender, frame)) :
    workerCommand msg = some (sender, MDPW_READY) := by
  unfold readyService at e
  split at e
  next =>
    split at e
    next both =>
      obtain ⟨rfl, rfl⟩ := both
      cases e
      simp [workerCommand]
    next => cases e
  next => cases e

/-- A worker is brought in by a message, at the address that comes with it. -/
lemma Newcomer.recv {ev : Event} {r} (new : Newcomer b ev p r) : ∃ msg, ev = .recv msg p := by
  cases new <;> exact ⟨_, rfl⟩

/-- A worker is brought in with a service by the READY that asks for it. -/
lemma Newcomer.ready {msg : Zmsg} {offer : Addr} {id : Frame}
    (new : Newcomer b (.recv msg offer) p (id, some name)) :
    ∃ frame, readyService msg = some (id, frame) ∧ name = zframeStrdup frame := by
  cases new with
  | joined ready _ _ => exact ⟨_, ready, rfl⟩

/-- A run of plain changes is a run of updates. -/
lemma updates_of_plain {ks : List Kind} (run : Run (Change clock) b ks b')
    (plain : ∀ k ∈ ks, k.plain = true) : Updates clock b b' := by
  induction run with
  | nil => exact .refl
  | cons _ ch ih =>
    have before := ih fun k mem => plain k (List.mem_cons_of_mem _ mem)
    exact .tail before (.change ch (plain _ List.mem_cons_self))

/-- A predicate that updates keep is kept by runs of updates. -/
lemma Updates.invariant (I : Broker → Prop) (ups : Updates clock b b') (init : I b)
    (step : ∀ b b', I b → Update clock b b' → I b') : I b' := by
  induction ups with
  | refl => exact init
  | tail _ up ih => exact step _ _ ih up

lemma Roster.update (ro : Roster b) (up : Update clock b b') : Roster b' := by
  cases up with
  | change ch plain =>
    cases ch with
    | read => exact ⟨ro.reg, ro.svc⟩
    | beat => exact ⟨ro.reg, ro.svc⟩
    | send _ => exact ⟨ro.reg, ro.svc⟩
    | service _ => exact ro.congr rfl rfl rfl queue_setService_isSome
    | register _ _ => cases plain
    | assign _ _ _ => cases plain
    | delete hw => exact ro.delete hw
    | accept _ => exact ro.congr rfl rfl rfl queue_setService_isSome
    | enlist hw _ _ _ => exact ro.enlist hw
    | refresh hw =>
      exact ro.congr rfl (idOf_set_same hw rfl rfl) (svcOf_set_same hw rfl rfl) fun _ ex => ex
    | give _ _ _ _ => exact ro.congr rfl rfl rfl queue_setService_isSome
  | relist hw _ _ => exact ro.enlist hw

lemma Roster.updates (ro : Roster b) (ups : Updates clock b b') : Roster b' :=
  ups.invariant Roster ro fun _ _ ro up => ro.update up

/-- Rewriting a worker changes the roles at its address only. -/
lemma roleOf_set (hh : b'.heap = b.heap.set p w) :
    b'.roleOf = Function.update b.roleOf p (some (w.identity, w.service)) := by
  funext q
  by_cases h : q = p
  · subst h
    simp [Broker.roleOf, hh]
  · simp [Broker.roleOf, hh, h]

lemma roleOf_expiry (hw : b.heap p = some w) {t : Nat}
    (hh : b'.heap = b.heap.set p { w with expiry := t }) : b'.roleOf = b.roleOf := by
  rw [roleOf_set hh]
  refine Function.update_eq_self_iff.mpr ?_
  simp [Broker.roleOf, hw]

/-- After an update the workers have the roles they had. -/
lemma Update.role (up : Update clock b b') {r} (e : b'.roleOf p = some r) :
    b.roleOf p = some r := by
  cases up with
  | change ch plain =>
    cases ch with
    | read => exact e
    | beat => exact e
    | send _ => exact e
    | service _ => exact e
    | register _ _ => cases plain
    | assign _ _ _ => cases plain
    | @delete q _ _ =>
      by_cases h : p = q
      · subst h
        simp [Broker.roleOf, Broker.delete] at e
      · simpa [Broker.roleOf, Broker.delete, h] using e
    | accept _ => exact e
    | enlist hw _ _ _ => rwa [roleOf_expiry (b := b) hw rfl] at e
    | refresh hw => rwa [roleOf_expiry (b := b) hw rfl] at e
    | give _ _ _ _ => exact e
  | relist hw _ _ => rwa [roleOf_expiry (b := b) hw rfl] at e

/-- After updates the workers have the roles they had. -/
lemma Updates.role (ups : Updates clock b b') {r} (e : b'.roleOf p = some r) :
    b.roleOf p = some r := by
  induction ups with
  | refl => exact e
  | tail _ up ih => exact ih (up.role e)

lemma Kept.refl (clock : Nat → Nat) (b : Broker) : Kept clock b b :=
  ⟨le_rfl, fun _ _ hw => .inl hw⟩

lemma Kept.trans (k : Kept clock b b₁) (k' : Kept clock b₁ b') : Kept clock b b' := by
  refine ⟨k.reads.trans k'.reads, fun p w hw => ?_⟩
  rcases k.heap p w hw with hw₁ | ⟨i, le, lt, old⟩
  · rcases k'.heap p w hw₁ with hw' | ⟨i, le, lt, old⟩
    · exact .inl hw'
    · exact .inr ⟨i, k.reads.trans le, lt, old⟩
  · exact .inr ⟨i, le, lt.trans_le k'.reads, old⟩

/-- A worker that has expired may be deleted. -/
lemma Kept.delete (hw : b.heap p = some w) (old : w.expiry ≤ clock b.reads) :
    Kept clock b (b.read.delete p w) := by
  refine ⟨Nat.le_succ _, fun q w' hq => ?_⟩
  by_cases h : q = p
  · subst h
    rw [hw] at hq
    cases hq
    exact .inr ⟨b.reads, le_rfl, Nat.lt_succ_self _, old⟩
  · refine .inl ?_
    simpa [Broker.delete, Broker.read, h] using hq

/-- A purge that returns is a run of updates and deletes expired workers only. -/
lemma purgeLoop_updates (n : Nat) (ro : Roster b) (e : purgeLoop clock n b = some b') :
    Updates clock b b' ∧ Kept clock b b' := by
  induction n generalizing b with
  | zero =>
    cases e
    exact ⟨.refl, .refl ..⟩
  | succ n ih =>
    cases hws : b.waiting with
    | nil =>
      rw [purgeLoop, hws] at e
      cases e
      exact ⟨.refl, .refl ..⟩
    | cons p ws =>
      cases hw : b.heap p with
      | none => simp [purgeLoop, hws, hw] at e
      | some w =>
        have read : Update clock b b.read := .change .read rfl
        rw [purgeLoop_cons n hws hw] at e
        by_cases live : clock b.reads < w.expiry
        · rw [if_pos live] at e
          cases e
          exact ⟨.single read, Nat.le_succ _, fun _ _ hw => .inl hw⟩
        · have ro₁ := ro.update read
          rw [if_neg live, sWorkerDelete_eq ro₁ hw, Option.bind_some] at e
          have delete : Update clock b.read (b.read.delete p w) := .change (.delete hw) rfl
          obtain ⟨ups, kept⟩ := ih (ro₁.update delete) e
          exact ⟨.head read (.head delete ups), (Kept.delete hw (by omega)).trans kept⟩

/-- The dispatch loop, if it returns, is a run of updates and leaves the workers alone. -/
lemma dispatchLoop_updates (n : Nat) (e : dispatchLoop clock name n b = some b') :
    Updates clock b b' ∧ b'.heap = b.heap ∧ b'.reads = b.reads := by
  induction n generalizing b with
  | zero =>
    cases e
    exact ⟨.refl, rfl, rfl⟩
  | succ n ih =>
    cases hs : b.services name with
    | none => simp [dispatchLoop, hs] at e
    | some s =>
      cases hws : s.waiting with
      | nil =>
        simp only [dispatchLoop, hs, hws, Option.bind_eq_bind, Option.bind_some] at e
        cases e
        exact ⟨.refl, rfl, rfl⟩
      | cons p ws =>
        cases hrs : s.requests with
        | nil =>
          simp only [dispatchLoop, hs, hws, hrs, Option.bind_eq_bind, Option.bind_some] at e
          cases e
          exact ⟨.refl, rfl, rfl⟩
        | cons r rs =>
          cases hw : b.heap p with
          | none => simp [dispatchLoop, hs, hws, hrs, Broker.setService, hw] at e
          | some w =>
            rw [dispatchLoop_cons n hs hws hrs hw] at e
            obtain ⟨ups, heap, reads⟩ := ih e
            exact ⟨.head (.change (.give hs hws hrs hw) rfl) ups, heap, reads⟩

/-- Dispatching without a new request, if it returns. -/
lemma dispatch_updates (ro : Roster b) (e : sServiceDispatch clock b name none = some b') :
    Updates clock b b' ∧ Kept clock b b' := by
  simp only [sServiceDispatch, Option.bind_eq_bind, Option.bind_eq_some_iff] at e
  obtain ⟨_, _, b₁, e₁, s, _, e⟩ := e
  obtain ⟨ups, kept⟩ := purgeLoop_updates _ ro e₁
  obtain ⟨ups', heap, reads⟩ := dispatchLoop_updates _ e
  refine ⟨ups.trans ups', kept.trans ⟨reads.ge, fun p w hw => .inl ?_⟩⟩
  rw [heap, hw]

lemma dispatch_accept_updates (ro : Roster b) {msg : Zmsg}
    (e : sServiceDispatch clock b name (some msg) = some b') : Updates clock b b' := by
  cases hs : b.services name with
  | none => simp [sServiceDispatch, hs] at e
  | some s =>
    rw [dispatch_accept hs] at e
    have accept : Update clock b (b.accept name s msg) := .change (.accept hs) rfl
    exact .head accept (dispatch_updates (ro.update accept) e).1

/-- C `s_worker_waiting`, if it returns, is a run of updates; the worker is there with its new
expiry, or that is over as well. -/
lemma waiting_updates (ro : Roster b) (hw : b.heap p = some w)
    (e : sWorkerWaiting clock b p = some b') :
    Updates clock b b' ∧ (b'.heap p = some { w with expiry := clock b.reads + HEARTBEAT_EXPIRY } ∨
      ∃ i, b.reads < i ∧ i < b'.reads ∧ clock b.reads + HEARTBEAT_EXPIRY ≤ clock i) := by
  obtain ⟨name, hn⟩ : ∃ name, w.service = some name := by
    rw [← Option.ne_none_iff_exists']
    intro hn
    simp [sWorkerWaiting, hw, hn] at e
  obtain ⟨s, hs, _⟩ := ro.served (show b.svcOf p = some name by simp [Broker.svcOf, hw, hn])
  rw [sWorkerWaiting_eq hw hn hs] at e
  obtain ⟨ups, kept⟩ := dispatch_updates (ro.enlist hw) e
  exact ⟨.head (.relist hw hn hs) ups, kept.heap p _ (Heap.set_same ..)⟩

/-- The handler of client messages, if it returns. -/
lemma clientMsg_updates (ro : Roster b) {sender : Frame} {msg : Zmsg}
    (e : sBrokerClientMsg clock b sender msg = some b') : Updates clock b b' := by
  obtain _ | ⟨serviceFrame, _ | ⟨frame, msg⟩⟩ := msg
  · cases e
  · cases e
  obtain ⟨services, ks, e₁, run, kinds, _⟩ := sServiceRequire_changes clock b serviceFrame
  have ups := updates_of_plain run fun k mem => by rw [kinds k mem]; rfl
  simp only [sBrokerClientMsg, e₁] at e
  split at e
  next =>
    simp only [Option.bind_eq_bind, Option.bind_eq_some_iff, Prod.exists] at e
    obtain ⟨_, _, client, m, _, e⟩ := e
    cases e
    exact .tail ups (.change (.send (isRequest_client _ _)) rfl)
  next => exact .trans ups (dispatch_accept_updates (ro.updates ups) e)

lemma heartbeatLoop_updates (ws : List Addr) (e : heartbeatLoop ws b = some b') :
    Updates clock b b' := by
  induction ws generalizing b with
  | nil =>
    cases e
    exact .refl
  | cons p ws ih =>
    simp only [heartbeatLoop, Option.bind_eq_bind, Option.bind_eq_some_iff] at e
    obtain ⟨w, _, e⟩ := e
    exact .head (.change (.send (isRequest_sWorkerSend (by decide) _ _)) rfl) (ih e)

/-- The second half of the main loop, if it returns. -/
lemma tick_updates (ro : Roster b) (e : brokerTick clock b = some b') : Updates clock b b' := by
  have read : ∀ b, Update clock b b.read := fun b => .change .read rfl
  rw [brokerTick_eq] at e
  by_cases due : clock b.reads > b.heartbeatAt
  · rw [if_pos due] at e
    simp only [Option.bind_eq_some_iff] at e
    obtain ⟨b₁, e₁, b₂, e₂, e⟩ := e
    cases e
    have purge := (purgeLoop_updates _ (ro.update (read b)) e₁).1
    have beats : Updates clock b₁ b₂ := heartbeatLoop_updates _ e₂
    have sent := Relation.ReflTransGen.head (read b) (.trans purge beats)
    exact (sent.tail (read b₂)).tail (.change .beat rfl)
  · rw [if_neg due] at e
    cases e
    exact .single (read b)

/-- A message of a registered worker, if the handler returns. -/
lemma workerMsg_registered_updates (ro : Roster b) {sender : Frame} {command : Str} {msg : Zmsg}
    {offer : Addr} (reg : b.workers (zframeStrhex sender) = some p)
    (e : sBrokerWorkerMsg clock b sender (command :: msg) offer = some b') :
    Updates clock b b' := by
  obtain ⟨w, hw, _⟩ := ro.registered reg
  rcases workerMsg_registered_cases clock command msg offer reg hw with rfl | ⟨disconnect, eq⟩ | ⟨_,
    eq⟩ | eq
  · rw [workerMsg_reply offer reg hw] at e
    simp only [Option.bind_eq_some_iff, Prod.exists] at e
    obtain ⟨client, body, _, service, _, e⟩ := e
    have send : Update clock b (zmsgSend b (zmsgWrap (MDPC_CLIENT :: service :: body) client)) :=
      .change (.send (isRequest_client _ _)) rfl
    exact .head send (waiting_updates (ro.update send) hw e).1
  · obtain ⟨b₁, ks, e₁, run, kinds, _⟩ := sWorkerDelete_changes clock ro hw disconnect
    rw [eq, e₁] at e
    cases e
    refine updates_of_plain run fun k mem => ?_
    rcases kinds k mem with h | h <;> rw [h] <;> rfl
  · rw [eq] at e
    cases e
    exact .single (.change (.refresh hw) rfl)
  · rw [eq] at e
    cases e
    exact .refl

/-- A worker message, if the handler returns. -/
lemma workerMsg_effect (ro : Roster b) {sender empty : Frame} {command : Str} {msg : Zmsg}
    {offer : Addr} (e : sBrokerWorkerMsg clock b sender (command :: msg) offer = some b') :
    Effect clock b (.recv (sender :: empty :: MDPW_WORKER :: command :: msg) offer) b' := by
  cases reg : b.workers (zframeStrhex sender) with
  | some p => exact .upkeep (workerMsg_registered_updates ro reg e)
  | none =>
    obtain ⟨_, _, same, ok⟩ := workerMsg_accepts e
    cases same
    have fresh := ok.fresh reg
    have ro₁ := ro.register fresh reg
    rcases workerMsg_new_cases clock command msg reg fresh with ⟨disconnect, eq⟩ | ⟨rfl,
      notMmi⟩ | ⟨unknown, eq⟩
    · obtain ⟨b₁, ks, e₁, run, kinds, heap⟩ :=
        sWorkerDelete_changes clock ro₁ (Heap.set_same ..) disconnect
      rw [eq, e₁] at e
      cases e
      refine .refused reg fresh (updates_of_plain run fun k mem => ?_)
        (by rw [heap, Heap.free_same])
      rcases kinds k mem with h | h <;> rw [h] <;> rfl
    · obtain ⟨frame, frames, rfl⟩ := List.exists_cons_of_ne_nil (ok.ready rfl reg notMmi)
      obtain ⟨b₁, ks, w, s, run, kinds, _, hw, hid, hn, hs, eq⟩ :=
        workerMsg_ready clock frame frames reg fresh notMmi
      rw [eq] at e
      have ups := updates_of_plain run fun k mem => by rw [kinds k mem]; rfl
      have ro₂ := (ro₁.updates ups).assign hw hs
      refine .joined ?_ notMmi reg fresh ups hw hid hn hs
        (waiting_updates ro₂ (Heap.set_same ..) e).1
      simp [readyService]
    · rw [eq] at e
      cases e
      exact .stray (by simp [workerCommand]) unknown reg fresh

/-- A step of the broker that returns has an effect. -/
lemma brokerStep_effect (ro : Roster b) {ev : Event} (e : brokerStep clock b ev = some b') :
    Effect clock b ev b' := by
  cases ev with
  | tick => exact .upkeep (tick_updates ro e)
  | recv msg offer =>
    obtain _ | ⟨sender, _ | ⟨empty, _ | ⟨header, msg⟩⟩⟩ := msg
    · cases e
    · cases e
    · cases e
    simp only [brokerStep, brokerRecv] at e
    split at e
    next => exact .upkeep (clientMsg_updates ro e)
    next =>
      split at e
      next isWorker =>
        subst isWorker
        cases msg with
        | nil => cases e
        | cons command msg => exact workerMsg_effect ro e
      next =>
        cases e
        exact .upkeep .refl

/-- Every step of the broker keeps the roster, whatever its peers do. -/
lemma Roster.step (ro : Roster b) {ev : Event} (e : brokerStep clock b ev = some b') :
    Roster b' := by
  cases brokerStep_effect ro e with
  | upkeep ups => exact ro.updates ups
  | stray _ _ new fresh => exact ro.register fresh new
  | refused new fresh ups _ => exact (ro.register fresh new).updates ups
  | joined _ _ new fresh ups hw _ _ hs ups' =>
    exact (((ro.register fresh new).updates ups).assign hw hs).updates ups'

/-- After a step the workers have the roles they had, but for the one the event brings in. -/
lemma Effect.role {ev : Event} (eff : Effect clock b ev b') {r} (e : b'.roleOf p = some r) :
    b.roleOf p = some r ∨ Newcomer b ev p r := by
  have registered : ∀ {offer sender}, (b.register offer sender).roleOf p = some r →
      p = offer ∧ r = (sender, none) ∨ b.roleOf p = some r := by
    intro offer sender e
    rw [roleOf_set (b := b) rfl] at e
    by_cases h : p = offer
    · rw [h, Function.update_self] at e
      exact .inl ⟨h, (Option.some.inj e).symm⟩
    · rw [Function.update_of_ne h] at e
      exact .inr e
  cases eff with
  | upkeep ups => exact .inl (ups.role e)
  | stray command unknown new _ =>
    rcases registered e with ⟨rfl, rfl⟩ | e
    · exact .inr (.stray command unknown new)
    · exact .inl e
  | refused _ _ ups gone =>
    rcases registered (ups.role e) with ⟨rfl, _⟩ | e
    · simp [Broker.roleOf, gone] at e
    · exact .inl e
  | @joined _ offer _ _ b₁ _ _ _ ready notMmi new _ ups hw hid _ _ ups' =>
    have e := ups'.role e
    rw [roleOf_set (b := b₁) rfl] at e
    by_cases h : p = offer
    · subst h
      rw [Function.update_self] at e
      cases e
      subst hid
      exact .inr (.joined ready notMmi new)
    · rw [Function.update_of_ne h] at e
      rcases registered (ups.role e) with ⟨same, _⟩ | e
      · exact absurd same h
      · exact .inl e

/-- Every step that brings in no worker without a service keeps the workers served. -/
lemma Served.effect (sv : Served b) {ev : Event} (eff : Effect clock b ev b')
    (no : ∀ p id, ¬ Newcomer b ev p (id, none)) : Served b' := by
  intro p w hw
  have role : b'.roleOf p = some (w.identity, w.service) := by simp [Broker.roleOf, hw]
  rcases eff.role role with before | new
  · obtain ⟨w₀, hw₀, same⟩ := Option.map_eq_some_iff.mp before
    have served : w₀.service.isSome := sv p w₀ hw₀
    rwa [(Prod.mk.inj same).2] at served
  · rw [Option.isSome_iff_ne_none]
    intro hn
    rw [hn] at new
    exact no p w.identity new

end SweetClib.Majordomo
