import SweetClib.Majordomo.Functions

/-!
# The handlers of the broker

The handlers are runs of actions (`Act`): a small change that concerns neither requests nor waiting
lists, a new expiry, a new worker, a purge, a request handed to `s_service_dispatch` and a worker
handed to `s_worker_waiting`. The last is the turn of the worker, and a handler makes at most one
turn, that of the sender of a READY or REPLY.

`Accepts` says what an event must be for the broker not to fault, and `ReplyWhenIdle` that a REPLY
comes from a worker that is not waiting. `brokerStep_spec` is the specification of one step of the
broker under both.
-/

namespace SweetClib.Majordomo
open SweetClib.Lib

/-- What an action means for the workers and the requests: nothing, a new worker, a new expiry of
one of them, the turn of one, or a new request. -/
inductive Label where
  | quiet
  | register
  | submit (name : Str) (msg : Zmsg)
  | refresh (p : Addr)
  | turn (identity : Frame)
  deriving DecidableEq

/-- The labels other than `quiet`. -/
def loud (tr : List Label) : List Label :=
  tr.filter (· ≠ .quiet)

/-- The label of a change. -/
def Kind.label : Kind → Label
  | .register => .register
  | .accept name msg => .submit name msg
  | .refresh p => .refresh p
  | .enlist identity => .turn identity
  | _ => .quiet

/-- The changes that concern neither requests nor waiting workers nor their expiry. -/
def Kind.small : Kind → Bool
  | .read | .beat | .send | .service | .assign | .delete => true
  | .register | .accept _ _ | .enlist _ | .refresh _ | .give => false

/-- The changes other than accepting a request and enlisting a worker. -/
def Kind.calm : Kind → Bool
  | .accept _ _ | .enlist _ => false
  | _ => true

/-- The actions the handlers are made of. -/
inductive Act (clock : Nat → Nat) : Broker → Label → Broker → Prop where
  | change {b k b'} :
    Change clock b k b' →
    k.small = true →
    Act clock b .quiet b'
  | register {b p identity} :
    b.heap p = none →
    b.workers (zframeStrhex identity) = none →
    Act clock b .register (b.register p identity)
  | refresh {b p w} :
    b.heap p = some w →
    Act clock b (.refresh p) (b.refresh clock p w)
  | purge {b b'} :
    sBrokerPurge clock b = some b' →
    Act clock b .quiet b'
  | submit {b name msg b'} :
    (b.services name).isSome →
    sServiceDispatch clock b name (some msg) = some b' →
    Act clock b (.submit name msg) b'
  | turn {b p w b'} :
    b.heap p = some w →
    w.service.isSome →
    p ∉ b.waiting →
    sWorkerWaiting clock b p = some b' →
    Act clock b (.turn w.identity) b'

/-- The sender and the command of a worker message. -/
def workerCommand : Zmsg → Option (Frame × Str)
  | sender :: _ :: header :: command :: _ =>
    if header = MDPW_WORKER then some (sender, command) else none
  | _ => none

/-- What the handler of worker messages needs: an address for a worker not yet registered, a service
frame behind READY, and behind REPLY an address to answer to and a worker with a service. -/
structure WorkerAccepts (b : Broker) (sender : Frame) (command : Str) (msg : Zmsg) (offer : Addr) :
    Prop where
  fresh : b.workers (zframeStrhex sender) = none → b.heap offer = none
  ready : command = MDPW_READY → b.workers (zframeStrhex sender) = none → isMmi sender = false →
    msg ≠ []
  reply : command = MDPW_REPLY → ∀ p, b.workers (zframeStrhex sender) = some p →
    msg ≠ [] ∧ (b.svcOf p).isSome

/-- What the broker needs of an event in order not to fault. -/
def Accepts (b : Broker) : Event → Prop
  | .tick => True
  | .recv (sender :: _ :: header :: msg) offer =>
    if header = MDPC_CLIENT then 2 ≤ msg.length
    else if header = MDPW_WORKER then
      ∃ command rest, msg = command :: rest ∧ WorkerAccepts b sender command rest offer
    else True
  | .recv _ _ => False

/-- A REPLY comes from a worker that is not waiting. -/
def ReplyWhenIdle (b : Broker) : Event → Prop
  | .tick => True
  | .recv msg _ => ∀ sender p, workerCommand msg = some (sender, MDPW_REPLY) →
    b.workers (zframeStrhex sender) = some p → p ∉ b.waiting

/-- Every worker has a service. -/
def Served (b : Broker) : Prop :=
  ∀ p w, b.heap p = some w → w.service.isSome

/-- The four commands that workers send. -/
def SentByWorkers (command : Str) : Prop :=
  command = MDPW_READY ∨ command = MDPW_REPLY ∨ command = MDPW_HEARTBEAT ∨ command = MDPW_DISCONNECT

/-- The command of a worker message is one of the four that workers send. -/
def KnownCommand : Event → Prop
  | .tick => True
  | .recv msg _ =>
    ∀ sender command, workerCommand msg = some (sender, command) → SentByWorkers command

/-- The request of a client message: the service and the message for the worker, unless the service
is one of the broker itself. -/
def clientRequest : Zmsg → Option (Str × Zmsg)
  | sender :: _ :: header :: serviceFrame :: frame :: msg =>
    if header = MDPC_CLIENT ∧ isMmi serviceFrame = false then
      some (zframeStrdup serviceFrame, zmsgWrap (frame :: msg) sender)
    else none
  | _ => none

/-- The labels of the actions an event leads to. -/
inductive Handled (b : Broker) : Event → List Label → Prop where
  | tick {tr} :
    loud tr = [] →
    Handled b .tick tr
  | quiet {msg offer tr} :
    clientRequest msg = none →
    loud tr = [] ∨ loud tr = [.register] →
    Handled b (.recv msg offer) tr
  | submit {msg offer name request tr} :
    clientRequest msg = some (name, request) →
    loud tr = [.submit name request] →
    Handled b (.recv msg offer) tr
  | turn {msg offer sender command tr} :
    workerCommand msg = some (sender, command) →
    command = MDPW_READY ∨ command = MDPW_REPLY →
    loud tr = [.turn sender] ∨ loud tr = [.turn sender, .register] →
    Handled b (.recv msg offer) tr
  | refresh {msg offer sender p} :
    workerCommand msg = some (sender, MDPW_HEARTBEAT) →
    b.workers (zframeStrhex sender) = some p →
    Handled b (.recv msg offer) [.refresh p]

variable {clock : Nat → Nat} {b b' : Broker} {p : Addr} {w : Worker} {name : Str} {s : Service}

@[simp] lemma loud_nil : loud [] = [] := rfl

@[simp] lemma loud_quiet (tr : List Label) : loud (.quiet :: tr) = loud tr := rfl

@[simp] lemma loud_register (tr : List Label) : loud (.register :: tr) = .register :: loud tr := rfl

@[simp] lemma loud_submit (name : Str) (msg : Zmsg) (tr : List Label) :
    loud (.submit name msg :: tr) = .submit name msg :: loud tr := rfl

@[simp] lemma loud_turn (identity : Frame) (tr : List Label) :
    loud (.turn identity :: tr) = .turn identity :: loud tr := rfl

@[simp] lemma loud_refresh (p : Addr) (tr : List Label) :
    loud (.refresh p :: tr) = .refresh p :: loud tr := rfl

/-- The loud acts of two histories. -/
@[simp] lemma loud_append (tr tr' : List Label) : loud (tr ++ tr') = loud tr ++ loud tr' :=
  List.filter_append ..

/-- A small change is quiet. -/
lemma Kind.label_small {k : Kind} (sm : k.small = true) : k.label = .quiet := by
  cases k <;> first | rfl | cases sm

/-- Changes of quiet kinds make a quiet trace. -/
lemma loud_of_quiet {tr : List Kind} (quiet : ∀ k ∈ tr, k.label = .quiet) :
    loud (tr.map Kind.label) = [] := by
  induction tr with
  | nil => rfl
  | cons k tr ih =>
    rw [List.map_cons, quiet k List.mem_cons_self, loud_quiet]
    exact ih fun k mem => quiet k (List.mem_cons_of_mem _ mem)

/-- Dispatching is a quiet run of changes. -/
lemma dispatch_changes (clock : Nat → Nat) (bk : Book b) (ex : (b.services name).isSome) :
    ∃ b' tr, sServiceDispatch clock b name none = some b' ∧ Run (Change clock) b tr b' ∧
      ∀ k ∈ tr, k.label = .quiet := by
  obtain ⟨b₁, b', tr₁, tr, _, run₁, kinds₁, e, run, kinds, _⟩ := dispatch_spec clock bk ex
  refine ⟨b', tr ++ tr₁, e, run₁.trans run, fun k mem => ?_⟩
  obtain mem | mem := List.mem_append.mp mem
  · rw [kinds k mem]
    rfl
  · obtain h | h := kinds₁ k mem <;> rw [h] <;> rfl

/-- The labels of a trace are quiet or among the loud ones. -/
lemma mem_loud {tr : List Label} {l : Label} (mem : l ∈ tr) (ne : l ≠ .quiet) : l ∈ loud tr :=
  List.mem_filter.mpr ⟨mem, by simpa using ne⟩

/-- An action is a run of changes that concern no request, or it adds a request or a waiting worker
to a service and dispatches for it. -/
lemma Act.cases (bk : Book b) {l : Label} (act : Act clock b l b') :
    (∃ ks, Run (Change clock) b ks b' ∧ (∀ k ∈ ks, k.calm = true ∧ k ≠ .give) ∧
      loud (ks.map Kind.label) = loud [l]) ∨
    ∃ k b₁ name, Change clock b k b₁ ∧ k.calm = false ∧ k.label = l ∧
      (∀ n, n ≠ name → b₁.services n = b.services n) ∧ (b₁.services name).isSome ∧
      sServiceDispatch clock b₁ name none = some b' := by
  cases act with
  | @change k _ ch sm =>
    refine .inl ⟨[k], .single ch, fun k' mem => ?_, by simp [Kind.label_small sm]⟩
    rw [List.mem_singleton.mp mem]
    cases k <;> first | cases sm; done | simp [Kind.calm]
  | register fresh new =>
    exact .inl ⟨[.register], .single (.register fresh new), by simp [Kind.calm], rfl⟩
  | @refresh p _ hw => exact .inl ⟨[.refresh p], .single (.refresh hw), by simp [Kind.calm], rfl⟩
  | purge e =>
    obtain ⟨b₁, ks, e₁, run, kinds, _⟩ := purge_spec clock bk
    rw [e₁] at e
    cases e
    refine .inl ⟨ks, run, fun k mem => ?_, loud_of_quiet fun k mem => ?_⟩
    · obtain h | h := kinds k mem <;> simp [h, Kind.calm]
    · obtain h | h := kinds k mem <;> rw [h] <;> rfl
  | @submit name msg _ ex e =>
    obtain ⟨s, hs⟩ := Option.isSome_iff_exists.mp ex
    have accept : Change clock b (.accept name msg) (b.accept name s msg) := .accept hs
    rw [dispatch_accept hs] at e
    exact .inr ⟨_, _, name, accept, rfl, rfl, fun n ne => Function.update_of_ne ne _ _,
      accept.services ex, e⟩
  | turn hw sv out e =>
    obtain ⟨name, s, enlist, ex, eq⟩ := waiting_enlist clock bk hw sv out
    rw [eq] at e
    exact .inr ⟨_, _, name, enlist, rfl, rfl, fun n ne => Function.update_of_ne ne _ _, ex, e⟩

/-- An action is a run of changes that is quiet but for its own label. -/
lemma Act.changes (bk : Book b) {l : Label} (act : Act clock b l b') :
    ∃ ks, Run (Change clock) b ks b' ∧ loud (ks.map Kind.label) = loud [l] := by
  obtain ⟨ks, run, _, labels⟩ | ⟨k, b₁, name, ch, _, label, _, ex, e⟩ := act.cases bk
  · exact ⟨ks, run, labels⟩
  · obtain ⟨b₂, ks, e₂, run, quiet⟩ := dispatch_changes clock (bk.change ch) ex
    rw [e₂] at e
    cases e
    exact ⟨_, .trans (.single ch) run, by simp [loud_of_quiet quiet, label]⟩

/-- An act keeps the book. -/
lemma Book.act (bk : Book b) {l : Label} (act : Act clock b l b') : Book b' := by
  obtain ⟨tr, run, _⟩ := act.changes bk
  exact bk.changes run

/-- A run of actions is a run of changes with the same labels. -/
lemma acts_changes (bk : Book b) {tr} (run : Run (Act clock) b tr b') :
    ∃ ks, Run (Change clock) b ks b' ∧ loud (ks.map Kind.label) = loud tr := by
  suffices main : Book b' ∧ ∃ ks, Run (Change clock) b ks b' ∧
    loud (ks.map Kind.label) = loud tr from main.2
  refine run.history (fun tr b₁ => Book b₁ ∧ ∃ ks, Run (Change clock) b ks b₁ ∧
    loud (ks.map Kind.label) = loud tr) ⟨bk, [], .nil, rfl⟩ ?_
  rintro tr b₁ l b₂ ⟨bk₁, ks, run, labels⟩ act
  obtain ⟨ks', run', labels'⟩ := act.changes bk₁
  refine ⟨bk₁.act act, ks' ++ ks, run.trans run', ?_⟩
  rw [List.map_append, loud_append, labels, labels', ← loud_append]
  rfl

/-- So do several. -/
lemma Book.acts (bk : Book b) {tr} (run : Run (Act clock) b tr b') : Book b' := by
  obtain ⟨ks, run, _⟩ := acts_changes bk run
  exact bk.changes run

/-- The label of a change is among those of the actions it comes from. -/
lemma label_mem {ks : List Kind} {tr : List Label} (labels : loud (ks.map Kind.label) = loud tr)
    {k : Kind} (mem : k ∈ ks) (ne : k.label ≠ .quiet) : k.label ∈ tr := by
  have mem : k.label ∈ loud (ks.map Kind.label) := mem_loud (List.mem_map_of_mem mem) ne
  rw [labels] at mem
  exact List.mem_of_mem_filter mem

/-- A run of small changes is a quiet run. -/
lemma acts_of_small {ks : List Kind} (run : Run (Change clock) b ks b')
    (small : ∀ k ∈ ks, k.small = true) : ∃ tr, Run (Act clock) b tr b' ∧ loud tr = [] := by
  induction run with
  | nil => exact ⟨[], .nil, rfl⟩
  | cons _ ch ih =>
    obtain ⟨tr, acts, quiet⟩ := ih fun k mem => small k (List.mem_cons_of_mem _ mem)
    exact ⟨.quiet :: tr, .cons acts (.change ch (small _ List.mem_cons_self)), quiet⟩

/-- The service is there afterwards. -/
lemma sServiceRequire_spec (clock : Nat → Nat) (b : Broker) (frame : Frame) :
    ∃ b' tr, sServiceRequire b frame = (zframeStrdup frame, b') ∧ Run (Act clock) b tr b' ∧
      loud tr = [] ∧ (b'.services (zframeStrdup frame)).isSome := by
  obtain ⟨services, ks, e, run, kinds, ex⟩ := sServiceRequire_changes clock b frame
  obtain ⟨tr, acts, quiet⟩ := acts_of_small run fun k mem => by rw [kinds k mem]; rfl
  exact ⟨_, tr, e, acts, quiet, ex⟩

/-- C `s_worker_delete` with its message is a quiet run. -/
lemma delete_acts (clock : Nat → Nat) (ro : Roster b) (hw : b.heap p = some w) (disconnect : Bool) :
    ∃ b' tr, sWorkerDelete b p disconnect = some b' ∧ Run (Act clock) b tr b' ∧ loud tr = [] := by
  obtain ⟨b', ks, e, run, kinds, _⟩ := sWorkerDelete_changes clock ro hw disconnect
  obtain ⟨tr, acts, quiet⟩ :=
    acts_of_small run fun k mem => by obtain h | h := kinds k mem <;> rw [h] <;> rfl
  exact ⟨b', tr, e, acts, quiet⟩

/-- C `s_worker_waiting` is a turn of the worker. -/
lemma waiting_act (clock : Nat → Nat) (bk : Book b) (hw : b.heap p = some w)
    (sv : w.service.isSome) (out : p ∉ b.waiting) :
    ∃ b', sWorkerWaiting clock b p = some b' ∧ Act clock b (.turn w.identity) b' := by
  obtain ⟨name, s, enlist, ex, eq⟩ := waiting_enlist clock bk hw sv out
  obtain ⟨b', tr, e, _⟩ := dispatch_changes clock (bk.change enlist) ex
  rw [← eq] at e
  exact ⟨b', e, .turn hw sv out e⟩

/-- A worker that is registered is found. -/
lemma sWorkerRequire_registered {sender : Frame} (reg : b.workers (zframeStrhex sender) = some p)
    (offer : Addr) : sWorkerRequire b sender offer = some (p, b) := by
  simp only [sWorkerRequire, reg]

/-- Another one is registered. -/
lemma sWorkerRequire_new {sender : Frame} {offer : Addr}
    (new : b.workers (zframeStrhex sender) = none) (fresh : b.heap offer = none) :
    sWorkerRequire b sender offer = some (offer, b.register offer sender) := by
  simp only [sWorkerRequire, new, Heap.malloc, fresh, Option.isNone_none, if_true]
  rfl

/-- A reply is passed on to the client, and the worker waits again. -/
lemma workerMsg_reply {clock : Nat → Nat} {sender : Frame} {msg : Zmsg} (offer : Addr)
    (reg : b.workers (zframeStrhex sender) = some p) (hw : b.heap p = some w) :
    sBrokerWorkerMsg clock b sender (MDPW_REPLY :: msg) offer =
      (zmsgUnwrap msg).bind fun m => w.service.bind fun service =>
        sWorkerWaiting clock (zmsgSend b (zmsgWrap (MDPC_CLIENT :: service :: m.2) m.1)) p := by
  simp only [sBrokerWorkerMsg, reg, sWorkerRequire_registered reg offer, Option.isSome_some,
    Option.bind_eq_bind, Option.bind_some, if_true,
    if_neg (by decide : MDPW_REPLY ≠ MDPW_READY), hw]

/-- What C `s_broker_worker_msg` comes to for a registered worker. -/
lemma workerMsg_registered_cases (clock : Nat → Nat) {sender : Frame} (command : Str) (msg : Zmsg)
    (offer : Addr) (reg : b.workers (zframeStrhex sender) = some p) (hw : b.heap p = some w) :
    command = MDPW_REPLY ∨
    (∃ disconnect, sBrokerWorkerMsg clock b sender (command :: msg) offer =
      sWorkerDelete b p disconnect) ∨
    (command = MDPW_HEARTBEAT ∧
      sBrokerWorkerMsg clock b sender (command :: msg) offer = some (b.refresh clock p w)) ∨
    sBrokerWorkerMsg clock b sender (command :: msg) offer = some b := by
  have req := sWorkerRequire_registered reg offer
  simp only [sBrokerWorkerMsg, reg, req, Option.isSome_some, Option.bind_eq_bind, Option.bind_some,
    if_true]
  split
  next => exact .inr (.inl ⟨true, rfl⟩)
  next =>
    split
    next isReply => exact .inl isReply
    next =>
      split
      next isBeat =>
        refine .inr (.inr (.inl ⟨isBeat, ?_⟩))
        simp only [hw, Option.bind_some, zclockTime]
        rfl
      next =>
        split
        next => exact .inr (.inl ⟨false, rfl⟩)
        next => exact .inr (.inr (.inr rfl))

/-- READY of a worker that is not registered, up to `s_worker_waiting`. -/
lemma workerMsg_ready (clock : Nat → Nat) {sender : Frame} {offer : Addr} (frame : Frame)
    (msg : Zmsg) (new : b.workers (zframeStrhex sender) = none) (fresh : b.heap offer = none)
    (notMmi : isMmi sender = false) :
    ∃ b₁ ks w s, Run (Change clock) (b.register offer sender) ks b₁ ∧ (∀ k ∈ ks, k = .service) ∧
      b₁ = { b.register offer sender with services := b₁.services } ∧
      b₁.heap offer = some w ∧ w.identity = sender ∧ w.service = none ∧
      b₁.services (zframeStrdup frame) = some s ∧
      sBrokerWorkerMsg clock b sender (MDPW_READY :: frame :: msg) offer =
        sWorkerWaiting clock (b₁.assign offer w (zframeStrdup frame) s) offer := by
  obtain ⟨services, ks, e₁, run, kinds, ex⟩ :=
    sServiceRequire_changes clock (b.register offer sender) frame
  obtain ⟨s, hs⟩ := Option.isSome_iff_exists.mp ex
  obtain ⟨w, hw, hid, hn⟩ : ∃ w : Worker, (b.register offer sender).heap offer = some w ∧
      w.identity = sender ∧ w.service = none := ⟨_, Heap.set_same .., rfl, rfl⟩
  refine ⟨_, ks, w, s, run, kinds, rfl, hw, hid, hn, hs, ?_⟩
  simp only [sBrokerWorkerMsg, new, sWorkerRequire_new new fresh, Option.isSome_none,
    Option.bind_eq_bind, Option.bind_some, Bool.false_eq_true, if_false, if_true, notMmi, e₁,
    hw, hs]
  rfl

/-- What C `s_broker_worker_msg` comes to for a worker that is not registered. -/
lemma workerMsg_new_cases (clock : Nat → Nat) {sender : Frame} (command : Str) (msg : Zmsg)
    {offer : Addr} (new : b.workers (zframeStrhex sender) = none) (fresh : b.heap offer = none) :
    (∃ disconnect, sBrokerWorkerMsg clock b sender (command :: msg) offer =
      sWorkerDelete (b.register offer sender) offer disconnect) ∨
    (command = MDPW_READY ∧ isMmi sender = false) ∨
    (¬ SentByWorkers command ∧
      sBrokerWorkerMsg clock b sender (command :: msg) offer = some (b.register offer sender)) := by
  simp only [sBrokerWorkerMsg, new, sWorkerRequire_new new fresh, Option.isSome_none,
    Option.bind_eq_bind, Option.bind_some, Bool.false_eq_true, if_false]
  split
  next isReady =>
    split
    next => exact .inl ⟨true, rfl⟩
    next notMmi => exact .inr (.inl ⟨isReady, by simpa using notMmi⟩)
  next notReady =>
    split
    next => exact .inl ⟨true, rfl⟩
    next notReply =>
      split
      next => exact .inl ⟨true, rfl⟩
      next notBeat =>
        split
        next => exact .inl ⟨false, rfl⟩
        next notGone => exact .inr (.inr ⟨by simp [SentByWorkers, *], rfl⟩)

/-- A command that workers do not send leaves its sender registered without a service. -/
lemma workerMsg_stray (clock : Nat → Nat) {sender : Frame} {command : Str} (msg : Zmsg)
    {offer : Addr} (new : b.workers (zframeStrhex sender) = none) (fresh : b.heap offer = none)
    (unknown : ¬ SentByWorkers command) :
    sBrokerWorkerMsg clock b sender (command :: msg) offer = some (b.register offer sender) := by
  simp only [SentByWorkers, not_or] at unknown
  obtain ⟨notReady, notReply, notBeat, notGone⟩ := unknown
  simp only [sBrokerWorkerMsg, new, sWorkerRequire_new new fresh, Option.isSome_none,
    Option.bind_eq_bind, Option.bind_some, if_neg notReady, if_neg notReply, if_neg notBeat,
    if_neg notGone]

/-- What a registered worker can bring about. -/
lemma workerMsg_registered (clock : Nat → Nat) (bk : Book b) {sender : Frame} {command : Str}
    {msg : Zmsg} {offer : Addr} (ok : WorkerAccepts b sender command msg offer)
    (reg : b.workers (zframeStrhex sender) = some p) (idle : command = MDPW_REPLY → p ∉ b.waiting) :
    ∃ b' tr, sBrokerWorkerMsg clock b sender (command :: msg) offer = some b' ∧
      Run (Act clock) b tr b' ∧
      (loud tr = [] ∨ command = MDPW_REPLY ∧ loud tr = [.turn sender] ∨
        command = MDPW_HEARTBEAT ∧ tr = [.refresh p]) := by
  obtain ⟨w, hw, hid⟩ := bk.toRoster.registered reg
  have same : w.identity = sender := zframeStrhex_inj (w.hex.symm.trans hid)
  obtain rfl | ⟨disconnect, eq⟩ | ⟨isBeat, eq⟩ | eq :=
    workerMsg_registered_cases clock command msg offer reg hw
  · obtain ⟨nonempty, sv⟩ := ok.reply rfl p reg
    have sv : w.service.isSome := by simpa [Broker.svcOf, hw] using sv
    obtain ⟨service, hn⟩ := Option.isSome_iff_exists.mp sv
    obtain ⟨client, frames, rfl⟩ := List.exists_cons_of_ne_nil nonempty
    obtain ⟨body, hu⟩ := zmsgUnwrap_cons client frames
    have send : Change clock b .send
        (zmsgSend b (zmsgWrap (MDPC_CLIENT :: service :: body) client)) :=
      .send (isRequest_client _ _)
    obtain ⟨b', e, act⟩ := waiting_act clock (bk.change send) (p := p) (w := w) hw sv (idle rfl)
    refine ⟨b', [.turn w.identity, .quiet], ?_, .cons (.single (.change send rfl)) act, ?_⟩
    · rw [workerMsg_reply offer reg hw, hu, hn]
      exact e
    · exact .inr (.inl ⟨rfl, by rw [same]; rfl⟩)
  · obtain ⟨b', tr, e, run, quiet⟩ := delete_acts clock bk.toRoster hw disconnect
    exact ⟨b', tr, eq.trans e, run, .inl quiet⟩
  · exact ⟨b.refresh clock p w, [.refresh p], eq, .single (.refresh hw), .inr (.inr ⟨isBeat, rfl⟩)⟩
  · exact ⟨b, [], eq, .nil, .inl rfl⟩

/-- A message of a worker that is not registered. -/
lemma workerMsg_new (clock : Nat → Nat) (bk : Book b) {sender : Frame} {command : Str} {msg : Zmsg}
    {offer : Addr} (ok : WorkerAccepts b sender command msg offer)
    (new : b.workers (zframeStrhex sender) = none) :
    ∃ b' tr, sBrokerWorkerMsg clock b sender (command :: msg) offer = some b' ∧
      Run (Act clock) b tr b' ∧
      (loud tr = [.register] ∨ command = MDPW_READY ∧ loud tr = [.turn sender, .register]) := by
  have fresh := ok.fresh new
  have register : Act clock b .register (b.register offer sender) := .register fresh new
  have bk₁ := bk.act register
  obtain ⟨disconnect, eq⟩ | ⟨rfl, notMmi⟩ | ⟨_, eq⟩ :=
    workerMsg_new_cases clock command msg new fresh
  · -- the worker just registered is deleted again
    obtain ⟨b', tr, e, run, quiet⟩ := delete_acts clock bk₁.toRoster (Heap.set_same ..) disconnect
    exact ⟨b', tr ++ [.register], eq.trans e, .trans (.single register) run, .inl (by simp [quiet])⟩
  · obtain ⟨frame, frames, rfl⟩ := List.exists_cons_of_ne_nil (ok.ready rfl new notMmi)
    obtain ⟨b₂, ks, w, s, run, kinds, _, hw, hid, hn, hs, eq⟩ :=
      workerMsg_ready clock frame frames new fresh notMmi
    obtain ⟨tr₂, run₂, quiet₂⟩ := acts_of_small run fun k mem => by rw [kinds k mem]; rfl
    have assign : Change clock b₂ .assign (b₂.assign offer w (zframeStrdup frame) s) :=
      .assign hw hn hs
    have bk₂ := bk₁.acts run₂
    have out : offer ∉ b₂.waiting := bk₂.not_waiting (by simp [Broker.svcOf, hw, hn])
    have hw₃ : (b₂.assign offer w (zframeStrdup frame) s).heap offer =
        some { w with service := some (zframeStrdup frame) } := Heap.set_same ..
    obtain ⟨b', e, act⟩ := waiting_act clock (bk₂.change assign) hw₃ rfl out
    have run : Run (Act clock) b _ b' :=
      .cons (.cons (.trans (.single register) run₂) (.change assign rfl)) act
    exact ⟨b', _, eq.trans e, run, .inr ⟨rfl, by simp [quiet₂, hid]⟩⟩
  · exact ⟨_, [.register], eq, .single register, .inl rfl⟩

/-- C `s_broker_client_msg` answers a request for the broker itself and submits any other. -/
lemma clientMsg_spec (clock : Nat → Nat) (bk : Book b) (sender serviceFrame frame : Frame)
    (msg : Zmsg) :
    ∃ b' tr, sBrokerClientMsg clock b sender (serviceFrame :: frame :: msg) = some b' ∧
      Run (Act clock) b tr b' ∧ loud tr = if isMmi serviceFrame then []
        else [.submit (zframeStrdup serviceFrame) (zmsgWrap (frame :: msg) sender)] := by
  obtain ⟨b₁, tr, e₁, run, quiet, ex⟩ := sServiceRequire_spec clock b serviceFrame
  have bk₁ := bk.acts run
  simp only [sBrokerClientMsg, e₁]
  split
  next =>
    have envelope : ∃ m last, (zmsgWrap (frame :: msg) sender).getLast? = some last ∧
        zmsgUnwrap ((zmsgWrap (frame :: msg) sender).dropLast ++
          [mmiCode b₁ serviceFrame last]) = some (sender, m) := by
      cases h : (zmsgWrap (frame :: msg) sender).getLast? with
      | none => simp [zmsgWrap] at h
      | some last => exact ⟨_, last, rfl, rfl⟩
    obtain ⟨m, last, hl, hu⟩ := envelope
    have send : Change clock b₁ .send
        (zmsgSend b₁ (zmsgWrap (MDPC_CLIENT :: serviceFrame :: m) sender)) :=
      .send (isRequest_client _ _)
    refine ⟨_, .quiet :: tr, ?_, .cons run (.change send rfl), quiet⟩
    simp only [hl, hu, Option.bind_eq_bind, Option.bind_some]
  next =>
    obtain ⟨s, hs⟩ := Option.isSome_iff_exists.mp ex
    have accept : Change clock b₁ _
        (b₁.accept (zframeStrdup serviceFrame) s (zmsgWrap (frame :: msg) sender)) := .accept hs
    obtain ⟨b', _, e, _⟩ := dispatch_changes clock (bk₁.change accept) (accept.services ex)
    rw [← dispatch_accept hs] at e
    exact ⟨b', _, e, .cons run (.submit ex e), by simp [quiet]⟩

/-- Heartbeats are quiet. -/
lemma heartbeatLoop_spec (clock : Nat → Nat) (ws : List Addr) (live : ∀ p ∈ ws, (b.heap p).isSome) :
    ∃ b' tr, heartbeatLoop ws b = some b' ∧ Run (Act clock) b tr b' ∧ loud tr = [] := by
  induction ws generalizing b with
  | nil => exact ⟨b, [], rfl, .nil, rfl⟩
  | cons p ws ih =>
    obtain ⟨w, hw⟩ := Option.isSome_iff_exists.mp (live p List.mem_cons_self)
    have send : Change clock b .send (sWorkerSend b w MDPW_HEARTBEAT none none) :=
      .send (isRequest_sWorkerSend (by decide) _ _)
    obtain ⟨b', tr, e, run, quiet⟩ := ih (b := sWorkerSend b w MDPW_HEARTBEAT none none)
      fun q mem => live q (List.mem_cons_of_mem _ mem)
    refine ⟨b', tr ++ [.quiet], ?_, .trans (.single (.change send rfl)) run, by simp [quiet]⟩
    simp only [heartbeatLoop, hw, Option.bind_eq_bind, Option.bind_some, e]

/-- The second half of the main loop, with the clock read. -/
lemma brokerTick_eq (clock : Nat → Nat) (b : Broker) : brokerTick clock b =
    if clock b.reads > b.heartbeatAt then
      (sBrokerPurge clock b.read).bind fun b₁ => (heartbeatLoop b₁.waiting b₁).bind fun b₂ =>
        some { b₂.read with heartbeatAt := clock b₂.reads + HEARTBEAT_INTERVAL }
    else some b.read := rfl

/-- The second half of the main loop is a quiet run. -/
lemma tick_spec (clock : Nat → Nat) (bk : Book b) :
    ∃ b' tr, brokerTick clock b = some b' ∧ Run (Act clock) b tr b' ∧ loud tr = [] := by
  have read : ∀ b, Act clock b .quiet b.read := fun b => .change .read rfl
  rw [brokerTick_eq]
  by_cases due : clock b.reads > b.heartbeatAt
  · rw [if_pos due]
    obtain ⟨b₁, _, e₁, _⟩ := purge_spec clock (bk.act (read b))
    have purge : Act clock b.read .quiet b₁ := .purge e₁
    have bk₁ := (bk.act (read b)).act purge
    have live : ∀ p ∈ b₁.waiting, (b₁.heap p).isSome := by
      intro p mem
      obtain ⟨w, _, _, hw, _⟩ := bk₁.live mem
      simp [hw]
    obtain ⟨b₂, tr, e₂, run, quiet⟩ := heartbeatLoop_spec clock b₁.waiting live
    have beat : Act clock b₂.read .quiet
        { b₂.read with heartbeatAt := clock b₂.reads + HEARTBEAT_INTERVAL } := .change .beat rfl
    have whole := ((Run.single (read b)).cons purge).trans run |>.cons (read b₂) |>.cons beat
    refine ⟨_, _, ?_, whole, by simp [quiet]⟩
    simp only [e₁, e₂, Option.bind_some]
  · exact ⟨_, [.quiet], if_neg due, .single (read b), rfl⟩

/-- One step of the broker: it does not fault, and it is a run of actions with the labels of the
event. -/
lemma brokerStep_spec (clock : Nat → Nat) (bk : Book b) {ev : Event} (ok : Accepts b ev)
    (idle : ReplyWhenIdle b ev) :
    ∃ b' tr, brokerStep clock b ev = some b' ∧ Run (Act clock) b tr b' ∧ Handled b ev tr := by
  match ev, ok, idle with
  | .tick, _, _ =>
    obtain ⟨b', tr, e, run, quiet⟩ := tick_spec clock bk
    exact ⟨b', tr, e, run, .tick quiet⟩
  | .recv (sender :: empty :: header :: msg) offer, ok, idle =>
    simp only [Accepts] at ok
    simp only [brokerStep, brokerRecv]
    split
    next isClient =>
      rw [if_pos isClient] at ok
      match msg, ok with
      | serviceFrame :: frame :: msg, _ =>
        obtain ⟨b', tr, e, run, labels⟩ := clientMsg_spec clock bk sender serviceFrame frame msg
        refine ⟨b', tr, e, run, ?_⟩
        cases mmi : isMmi serviceFrame with
        | true => exact .quiet (by simp [clientRequest, mmi]) (.inl (by simpa [mmi] using labels))
        | false =>
          have request : clientRequest (sender :: empty :: header :: serviceFrame :: frame :: msg) =
              some (zframeStrdup serviceFrame, zmsgWrap (frame :: msg) sender) := by
            simp [clientRequest, isClient, mmi]
          exact .submit request (by simpa [mmi] using labels)
    next notClient =>
      rw [if_neg notClient] at ok
      have notRequest : clientRequest (sender :: empty :: header :: msg) = none := by
        match msg with
        | [] => rfl
        | [_] => rfl
        | _ :: _ :: _ => simp [clientRequest, notClient]
      split
      next isWorker =>
        rw [if_pos isWorker] at ok
        obtain ⟨command, rest, rfl, ok⟩ := ok
        have wc : workerCommand (sender :: empty :: header :: command :: rest) =
            some (sender, command) := by simp [workerCommand, isWorker]
        cases reg : b.workers (zframeStrhex sender) with
        | some p =>
          have idle' : command = MDPW_REPLY → p ∉ b.waiting := by
            rintro rfl
            exact idle sender p wc reg
          obtain ⟨b', tr, e, run, labels⟩ := workerMsg_registered clock bk ok reg idle'
          obtain quiet | ⟨isReply, turn⟩ | ⟨rfl, rfl⟩ := labels
          · exact ⟨b', tr, e, run, .quiet notRequest (.inl quiet)⟩
          · exact ⟨b', tr, e, run, .turn wc (.inr isReply) (.inl turn)⟩
          · exact ⟨b', _, e, run, .refresh wc reg⟩
        | none =>
          obtain ⟨b', tr, e, run, labels⟩ := workerMsg_new clock bk ok reg
          refine ⟨b', tr, e, run, ?_⟩
          obtain quiet | ⟨isReady, turn⟩ := labels
          · exact .quiet notRequest (.inr quiet)
          · exact .turn wc (.inl isReady) (.inr turn)
      next => exact ⟨b, [], rfl, .nil, .quiet notRequest (.inl rfl)⟩

end SweetClib.Majordomo
