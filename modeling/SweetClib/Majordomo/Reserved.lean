import SweetClib.Majordomo.Update

/-!
# The services of the registered workers

`s_worker_require` registers the sender of a worker message before the command is looked at. Every
command that workers send gives the new worker a service or deletes it again, but any other command
leaves it registered without one (`unknown_command_registers`), and a REPLY of such a worker
follows the null pointer. Without such commands from strangers every registered worker has a
service (`registered_has_service`).

The guard for the services of the broker itself compares the sender of a READY with `"mmi."`, not
the name of the service. A worker can register for such a service, and a worker whose identity
starts with `"mmi."` for none (`guard_reads_sender`). As long as nobody else asks for such a
service, the names are kept (`reserved_services`).
-/

namespace SweetClib.Majordomo
open SweetClib.Lib

/-- Strangers send the commands of workers only. -/
def Introduced (b : Broker) : Event → Prop
  | .tick => True
  | .recv msg _ => ∀ sender command, workerCommand msg = some (sender, command) →
    b.workers (zframeStrhex sender) = none → SentByWorkers command

/-- Every registered worker has a service: a REPLY of it and a READY of a new worker get to
`s_worker_waiting` with a worker that has one. -/
structure HasService (clock : Nat → Nat) (b : Broker) : Prop where
  registered : ∀ id p, b.workers id = some p → ∃ w, b.heap p = some w ∧ w.service.isSome
  reply : ∀ sender client frames offer p, b.workers (zframeStrhex sender) = some p →
    ∃ service body, b.svcOf p = some service ∧ zmsgUnwrap (client :: frames) = some (client, body) ∧
      sBrokerWorkerMsg clock b sender (MDPW_REPLY :: client :: frames) offer =
        sWorkerWaiting clock (zmsgSend b (zmsgWrap (MDPC_CLIENT :: service :: body) client)) p
  ready : ∀ sender frame frames offer, b.workers (zframeStrhex sender) = none →
    b.heap offer = none →
    isMmi sender = false → ∃ b₁, b₁.svcOf offer = some (zframeStrdup frame) ∧
      sBrokerWorkerMsg clock b sender (MDPW_READY :: frame :: frames) offer =
        sWorkerWaiting clock b₁ offer

/-- A stranger that asks for a service of the broker itself has an identity that starts with
`"mmi."`, which is what the guard looks at. -/
def GuardSeesService (b : Broker) : Event → Prop
  | .tick => True
  | .recv msg _ => ∀ sender frame, readyService msg = some (sender, frame) →
    b.workers (zframeStrhex sender) = none → isMmi frame = true → isMmi sender = true

/-- The services of the broker itself have no workers. -/
structure Reserved (b : Broker) : Prop where
  workers : ∀ p name, b.svcOf p = some name → isMmi name = false
  services : ∀ name s, b.services name = some s → isMmi name = true → s.workers = 0 ∧ s.waiting = []

/-- The sender is registered, for the service. -/
def Joined (b : Broker) (sender : Frame) (p : Addr) (name : Str) : Prop :=
  b.workers (zframeStrhex sender) = some p ∧ b.svcOf p = some name

/-- In `b'` the sender is registered for the service, unless a later reading of the clock than the
one `b` is about to make shows it to be expired. -/
def JoinedUnlessExpired (clock : Nat → Nat) (b b' : Broker) (sender : Frame) (p : Addr)
    (name : Str) : Prop :=
  Joined b' sender p name ∨ ∃ i, b.reads < i ∧ i < b'.reads ∧
    clock b.reads + HEARTBEAT_EXPIRY ≤ clock i

variable {clock : Nat → Nat} {b b' b₁ : Broker} {p : Addr} {w : Worker} {name : Str} {s : Service}

/-- A worker with a service has a role with it. -/
lemma svcOf_role : b.svcOf p = some name ↔ ∃ id, b.roleOf p = some (id, some name) := by
  simp only [Broker.svcOf, Broker.roleOf, Option.bind_eq_some_iff, Option.map_eq_some_iff,
    Prod.mk.injEq]
  constructor
  · rintro ⟨w, hw, hn⟩
    exact ⟨w.identity, w, hw, rfl, hn⟩
  · rintro ⟨_, w, hw, _, hn⟩
    exact ⟨w, hw, hn⟩

/-- If strangers send the commands of workers only, no worker comes in without a service. -/
lemma Introduced.newcomer {ev : Event} (known : Introduced b ev) (p : Addr) (id : Frame) :
    ¬ Newcomer b ev p (id, none) := by
  intro new
  cases new with
  | stray command unknown new => exact unknown (known _ _ command new)

/-- What the handlers find when the workers are served. -/
lemma Served.hasService (sv : Served b) (ro : Roster b) : HasService clock b := by
  refine ⟨?_, ?_, ?_⟩
  · intro id p reg
    obtain ⟨w, hw, _⟩ := ro.registered reg
    exact ⟨w, hw, sv p w hw⟩
  · intro sender client frames offer p reg
    obtain ⟨w, hw, _⟩ := ro.registered reg
    obtain ⟨service, hn⟩ := Option.isSome_iff_exists.mp (sv p w hw)
    obtain ⟨body, hu⟩ := zmsgUnwrap_cons client frames
    refine ⟨service, body, by simp [Broker.svcOf, hw, hn], hu, ?_⟩
    rw [workerMsg_reply offer reg hw, hu, hn]
    rfl
  · intro sender frame frames offer new fresh notMmi
    obtain ⟨b₁, _, w, s, _, _, _, _, _, _, _, eq⟩ :=
      workerMsg_ready clock frame frames new fresh notMmi
    refine ⟨b₁.assign offer w (zframeStrdup frame) s, ?_, eq⟩
    rw [svcOf_set (b := b₁) rfl, Function.update_self]

/-- If every registered worker has a service behind a message, it was not one by which a stranger is
registered without. -/
lemma HasService.introduced {ev : Event} (has : HasService clock b')
    (st : BrokerTrans clock b ev b') : Introduced b ev := by
  cases ev with
  | tick => trivial
  | recv msg offer =>
    intro sender command worker new
    by_contra unknown
    obtain ⟨empty, rest, rfl⟩ : ∃ empty rest,
        msg = sender :: empty :: MDPW_WORKER :: command :: rest := by
      unfold workerCommand at worker
      split at worker
      · obtain ⟨rfl, e⟩ := Option.ite_none_right_eq_some.mp worker
        cases e
        exact ⟨_, _, rfl⟩
      · cases worker
    have handled : sBrokerWorkerMsg clock b sender (command :: rest) offer = some b' := st
    obtain ⟨_, _, same, ok⟩ := workerMsg_accepts handled
    cases same
    rw [workerMsg_stray clock rest new (ok.fresh new) unknown] at handled
    cases handled
    obtain ⟨w, hw, served⟩ := has.registered (zframeStrhex sender) offer (Function.update_self ..)
    cases (Heap.set_same ..).symm.trans hw
    cases served

/-- As long as strangers send the commands of workers only, every registered worker has a service in
every state of the broker, and a message keeps it so exactly when it is not another command of a
stranger. -/
theorem registered_has_service (clock : Nat → Nat) : ∀ tr b,
    Run (fun b ev b' => Introduced b ev ∧ BrokerTrans clock b ev b') (sBrokerNew clock) tr b →
    HasService clock b ∧
      ∀ ev b', BrokerTrans clock b ev b' → (HasService clock b' ↔ Introduced b ev) := by
  suffices keeps : ∀ tr b, Run (fun b ev b' => Introduced b ev ∧ BrokerTrans clock b ev b')
      (sBrokerNew clock) tr b → HasService clock b by
    intro tr b run
    refine ⟨keeps tr b run, fun ev b' st => ⟨fun has => has.introduced st, fun known => ?_⟩⟩
    exact keeps _ b' (run.cons ⟨known, st⟩)
  intro tr b run
  have sv : Served b := by
    refine run.invariant_under Roster Served (Book.new clock).toRoster
      (fun _ _ _ ro st => ro.step st.2) nofun ?_
    rintro b ev b' ro sv ⟨known, e⟩
    exact sv.effect (brokerStep_effect ro e) known.newcomer
  exact sv.hasService
    (run.invariant Roster (Book.new clock).toRoster fun _ _ _ ro st => ro.step st.2)

/-- A worker becomes ready, and its REPLY gets to `s_worker_waiting`. -/
theorem registered_has_service_ready : ∃ b,
    Run (fun b ev b' => Introduced b ev ∧ BrokerTrans (fun n => n) b ev b') (sBrokerNew fun n => n)
      [.recv [[65], [], MDPW_WORKER, MDPW_READY, [115]] 0] b ∧
    b.workers (zframeStrhex [65]) = some 0 ∧ HasService (fun n => n) b := by
  have known :
      Introduced (sBrokerNew fun n => n) (.recv [[65], [], MDPW_WORKER, MDPW_READY, [115]] 0) := by
    rintro sender command ⟨⟩ _
    exact .inl rfl
  have run : Run (fun b ev b' => Introduced b ev ∧ BrokerTrans (fun n => n) b ev b')
      (sBrokerNew fun n => n) [.recv [[65], [], MDPW_WORKER, MDPW_READY, [115]] 0] _ :=
        .cons .nil ⟨known, rfl⟩
  exact ⟨_, run, rfl, (registered_has_service _ _ _ run).1⟩

/-- A stranger sends a command that is none of a worker: it stays registered without a service, and
its REPLY makes the broker follow the null pointer. -/
theorem unknown_command_registers : ∃ b, Run (BrokerTrans fun n => n) (sBrokerNew fun n => n)
    [.recv [[65], [], MDPW_WORKER, [9]] 0] b ∧
    (b.workers (zframeStrhex [65]) = some 0 ∧ (b.heap 0).map Worker.service = some none) ∧
    brokerStep (fun n => n) b (.recv [[65], [], MDPW_WORKER, MDPW_REPLY, [67], [], [120]] 1) =
      none ∧
    ¬ HasService (fun n => n) b := by
  refine ⟨_, .cons .nil rfl, ⟨rfl, rfl⟩, rfl, fun has => ?_⟩
  obtain ⟨w, hw, sv⟩ := has.registered (zframeStrhex [65]) 0 rfl
  cases hw
  cases sv

/-- Frames that start with `"mmi."`, by their bytes. -/
lemma isMmi_iff {frame : Frame} :
    isMmi frame = true ↔ ∃ rest, frame = 109 :: 109 :: 105 :: 46 :: rest := by
  rw [isMmi, decide_eq_true_iff]
  constructor
  · rintro ⟨_, start⟩
    refine ⟨frame.drop 4, ?_⟩
    rw [← List.take_append_drop 4 frame, start]
    simp
  · rintro ⟨rest, rfl⟩
    simp

/-- The name of a service starts with `"mmi."` if its frame does. -/
lemma isMmi_strdup (frame : Frame) : isMmi (zframeStrdup frame) = isMmi frame := by
  rw [Bool.eq_iff_iff, isMmi_iff, isMmi_iff]
  constructor
  · rintro ⟨rest, e⟩
    obtain ⟨tail, whole⟩ := List.takeWhile_prefix (· ≠ 0) (l := frame)
    refine ⟨rest ++ tail, ?_⟩
    rw [← whole, ← zframeStrdup, e]
    rfl
  · rintro ⟨rest, rfl⟩
    exact ⟨zframeStrdup rest, rfl⟩

/-- Storing a service, if one of the broker itself is stored without workers. -/
lemma Reserved.setService (rs : Reserved b)
    (ok : isMmi name = true → s.workers = 0 ∧ s.waiting = []) :
    ∀ n s', (b.setService name s).services n = some s' → isMmi n = true → s'.workers = 0 ∧
      s'.waiting = [] := by
  intro n s' e
  by_cases h : n = name
  · subst h
    simp only [Broker.setService, Function.update_self] at e
    cases e
    exact ok
  · simp only [Broker.setService, Function.update_of_ne h] at e
    exact rs.services n s' e

/-- What is said of the services after one has been enlisted. -/
lemma Reserved.enlist (rs : Reserved b) (hw : b.heap p = some w) (hn : w.service = some name) :
    Reserved (b.enlist clock p w name s) := by
  have notMmi := rs.workers p name (by simp [Broker.svcOf, hw, hn])
  have svcs : (b.enlist clock p w name s).svcOf = b.svcOf := svcOf_set_same hw rfl rfl
  refine ⟨?_, rs.setService (by simp [notMmi])⟩
  rw [svcs]
  exact rs.workers

lemma Reserved.update (rs : Reserved b) (up : Update clock b b') : Reserved b' := by
  have workers : ∀ p name, b'.svcOf p = some name → isMmi name = false := by
    intro p name e
    obtain ⟨id, role⟩ := svcOf_role.mp e
    exact rs.workers p name (svcOf_role.mpr ⟨id, up.role role⟩)
  cases up with
  | change ch plain =>
    refine ⟨workers, ?_⟩
    cases ch with
    | read => exact rs.services
    | beat => exact rs.services
    | send _ => exact rs.services
    | service _ => exact rs.setService fun _ => ⟨rfl, rfl⟩
    | register _ _ => cases plain
    | assign _ _ _ => cases plain
    | @delete p w hw =>
      intro name s e mmi
      -- the worker that goes is of another service
      have other : w.service ≠ some name := by
        intro hn
        have := rs.workers p name (by simp [Broker.svcOf, hw, hn])
        simp [this] at mmi
      simp only [Broker.delete, Broker.unlist, if_neg other] at e
      exact rs.services name s e mmi
    | @accept _ s _ hs =>
      have same : isMmi _ = true → s.workers = 0 ∧ s.waiting = [] := rs.services _ s hs
      exact rs.setService same
    | enlist hw hn _ _ => exact (rs.enlist hw hn).services
    | refresh _ => exact rs.services
    | give hs hws _ _ =>
      refine rs.setService fun mmi => ?_
      have := (rs.services _ _ hs mmi).2
      simp [hws] at this
  | relist hw hn _ => exact rs.enlist hw hn

lemma Reserved.updates (rs : Reserved b) (ups : Updates clock b b') : Reserved b' :=
  ups.invariant Reserved rs fun _ _ rs up => rs.update up

lemma Reserved.register (rs : Reserved b) {identity : Frame} :
    Reserved (b.register p identity) := by
  refine ⟨fun q name e => ?_, rs.services⟩
  rw [svcOf_set (b := b) rfl] at e
  by_cases h : q = p
  · rw [h, Function.update_self] at e
    cases e
  · rw [Function.update_of_ne h] at e
    exact rs.workers q name e

/-- A worker gets a service that is not one of the broker itself. -/
lemma Reserved.assign (rs : Reserved b) (notMmi : isMmi name = false) :
    Reserved (b.assign p w name s) := by
  refine ⟨fun q n e => ?_, rs.setService (by simp [notMmi])⟩
  rw [svcOf_set (b := b) rfl] at e
  by_cases h : q = p
  · rw [h, Function.update_self] at e
    cases e
    exact notMmi
  · rw [Function.update_of_ne h] at e
    exact rs.workers q n e

/-- Every step in which the guard sees what it should keeps the names. -/
lemma Reserved.effect (rs : Reserved b) {ev : Event} (guard : GuardSeesService b ev)
    (eff : Effect clock b ev b') : Reserved b' := by
  cases eff with
  | upkeep ups => exact rs.updates ups
  | stray _ _ _ _ => exact rs.register
  | refused _ _ ups _ => exact rs.register.updates ups
  | @joined _ _ _ frame _ _ _ _ ready notMmi new _ ups _ _ _ _ ups' =>
    have notMmi : isMmi (zframeStrdup frame) = false := by
      rw [isMmi_strdup, ← Bool.not_eq_true]
      intro mmi
      rw [guard _ _ ready new mmi] at notMmi
      cases notMmi
    exact ((rs.register.updates ups).assign notMmi).updates ups'

/-- READY of a stranger whose identity does not start with `"mmi."` registers it for the service.
It is still registered when the broker is done, unless it has expired by then. -/
lemma ready_joins (clock : Nat → Nat) (ro : Roster b) {sender : Frame} {offer : Addr}
    (frame : Frame) (frames : Zmsg) (new : b.workers (zframeStrhex sender) = none)
    (fresh : b.heap offer = none) (notMmi : isMmi sender = false) :
    ∃ b₁, Joined b₁ sender offer (zframeStrdup frame) ∧
      sBrokerWorkerMsg clock b sender (MDPW_READY :: frame :: frames) offer =
        sWorkerWaiting clock b₁ offer ∧
      ∀ b', sWorkerWaiting clock b₁ offer = some b' →
        JoinedUnlessExpired clock b b' sender offer (zframeStrdup frame) := by
  obtain ⟨b₁, ks, w, s, run, kinds, only, hw, hid, hn, hs, eq⟩ :=
    workerMsg_ready clock frame frames new fresh notMmi
  have ups := updates_of_plain run fun k mem => by rw [kinds k mem]; rfl
  have ro₁ := ((ro.register fresh new).updates ups).assign hw hs
  have joined : ∀ {b'}, Roster b' → ∀ {w'}, b'.heap offer = some w' → w'.identity = sender →
      w'.service = some (zframeStrdup frame) → Joined b' sender offer (zframeStrdup frame) := by
    intro b' ro' w' hw' hid' hn'
    refine ⟨(ro'.reg _ _).mpr ?_, by simp [Broker.svcOf, hw', hn']⟩
    simp [Broker.idOf, hw', w'.hex, hid']
  have reads : (b₁.assign offer w (zframeStrdup frame) s).reads = b.reads := by
    rw [only]
    rfl
  refine ⟨b₁.assign offer w (zframeStrdup frame) s, joined ro₁ (Heap.set_same ..) hid rfl, eq,
    fun b' e => ?_⟩
  obtain ⟨ups', stays⟩ := waiting_updates ro₁ (Heap.set_same ..) e
  rw [reads] at stays
  rcases stays with stays | expired
  · exact .inl (joined (ro₁.updates ups') stays hid rfl)
  · exact .inr expired

/-- As long as the guard sees what it should, no worker is registered for a service of the broker
itself. A READY of a stranger whose identity does not start with `"mmi."` registers it before the
broker gets to `s_worker_waiting`; as long as every REPLY comes from a worker that is not waiting,
the broker also gets out of it. -/
theorem reserved_services (clock : Nat → Nat) :
    (∀ tr b, Run (fun b ev b' => GuardSeesService b ev ∧ BrokerTrans clock b ev b')
      (sBrokerNew clock) tr b →
      Reserved b) ∧
    (∀ tr b, Run (BrokerTrans clock) (sBrokerNew clock) tr b → ∀ sender frame frames offer,
      b.workers (zframeStrhex sender) = none → b.heap offer = none → isMmi sender = false →
      ∃ b₁, Joined b₁ sender offer (zframeStrdup frame) ∧
        sBrokerWorkerMsg clock b sender (MDPW_READY :: frame :: frames) offer =
          sWorkerWaiting clock b₁ offer ∧
        ∀ b', sWorkerWaiting clock b₁ offer = some b' →
          JoinedUnlessExpired clock b b' sender offer (zframeStrdup frame)) ∧
    (∀ tr b, Run (fun b ev b' => ReplyWhenIdle b ev ∧ BrokerTrans clock b ev b')
      (sBrokerNew clock) tr b →
      ∀ sender empty frame frames offer,
      b.workers (zframeStrhex sender) = none → b.heap offer = none → isMmi sender = false →
      ∃ b', BrokerTrans clock b
        (.recv (sender :: empty :: MDPW_WORKER :: MDPW_READY :: frame :: frames) offer) b' ∧
        JoinedUnlessExpired clock b b' sender offer (zframeStrdup frame)) := by
  refine ⟨?_, ?_, ?_⟩
  · intro tr b run
    refine run.invariant_under Roster Reserved (Book.new clock).toRoster
      (fun _ _ _ ro st => ro.step st.2)
      ⟨nofun, nofun⟩ ?_
    rintro b ev b' ro rs ⟨guard, e⟩
    exact rs.effect guard (brokerStep_effect ro e)
  · intro tr b run sender frame frames offer new fresh notMmi
    have ro : Roster b := run.invariant Roster (Book.new clock).toRoster fun _ _ _ ro e => ro.step e
    exact ready_joins clock ro frame frames new fresh notMmi
  · intro tr b run sender empty frame frames offer new fresh notMmi
    have bk : Book b := run.invariant Book (.new clock) fun _ _ _ bk st => bk.step st.1 st.2
    obtain ⟨b₁, _, eq, joins⟩ := ready_joins clock bk.toRoster frame frames new fresh notMmi
    have ok :
        Accepts b (.recv (sender :: empty :: MDPW_WORKER :: MDPW_READY :: frame :: frames) offer) :=
      ⟨MDPW_READY, frame :: frames, rfl, fun _ => fresh, fun _ _ _ => by simp, by simp [new]⟩
    have idle :
        ReplyWhenIdle b
        (.recv (sender :: empty :: MDPW_WORKER :: MDPW_READY :: frame :: frames) offer) := by
      rintro _ p ⟨⟩
    obtain ⟨b', _, e, _⟩ := brokerStep_spec clock bk ok idle
    refine ⟨b', e, joins b' ?_⟩
    rw [← eq]
    exact e

/-- A worker becomes ready for a service, with a guard that sees what it should. -/
theorem reserved_services_ready : ∃ b,
    Run (fun b ev b' => GuardSeesService b ev ∧ BrokerTrans (fun n => n) b ev b')
      (sBrokerNew fun n => n)
      [.recv [[65], [], MDPW_WORKER, MDPW_READY, [115]] 0] b ∧
    Joined b [65] 0 [115] ∧ Reserved b := by
  have guard :
      GuardSeesService (sBrokerNew fun n => n)
      (.recv [[65], [], MDPW_WORKER, MDPW_READY, [115]] 0) := by
    rintro sender frame ⟨⟩ _ mmi
    cases mmi
  have run : Run (fun b ev b' => GuardSeesService b ev ∧ BrokerTrans (fun n => n) b ev b')
      (sBrokerNew fun n => n) [.recv [[65], [], MDPW_WORKER, MDPW_READY, [115]] 0] _ :=
        .cons .nil ⟨guard, rfl⟩
  exact ⟨_, run, ⟨rfl, rfl⟩, (reserved_services _).1 _ _ run⟩

/-- A worker registers for the service `"mmi.x"`, and READY of a worker with the identity `"mmi.A"`
registers nothing. -/
theorem guard_reads_sender :
    (∃ b, Run (BrokerTrans fun n => n) (sBrokerNew fun n => n)
        [.recv [[65], [], MDPW_WORKER, MDPW_READY, [109, 109, 105, 46, 120]] 0] b ∧
      Joined b [65] 0 [109, 109, 105, 46, 120] ∧ ¬ Reserved b) ∧
    ∃ b, Run (BrokerTrans fun n => n) (sBrokerNew fun n => n)
        [.recv [[109, 109, 105, 46, 65], [], MDPW_WORKER, MDPW_READY, [115]] 0] b ∧
      b.workers (zframeStrhex [109, 109, 105, 46, 65]) = none := by
  refine ⟨⟨_, .cons .nil rfl, ⟨rfl, rfl⟩, fun rs => ?_⟩, _, .cons .nil rfl, rfl⟩
  cases rs.workers 0 [109, 109, 105, 46, 120] rfl

end SweetClib.Majordomo
