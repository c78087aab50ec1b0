import SweetClib.Majordomo.Handlers

/-!
# Requests and turns

Three accounts of what the broker does, kept by every change of its state or restored by every
action:
* `Ledger`: the requests sent for a service, followed by the requests in its queue, are the
  requests accepted for it, in order; requests are sent to registered workers of the service, and
  the REQUEST messages on the socket are those of the log.
* `IdleAt`: a service does not have both requests and waiting workers; accepting and enlisting
  break this and dispatching restores it.
* `due`: the turns of an identity that the broker still owes or has already given, that is the
  times it is on the waiting list plus the requests sent to it. Only a turn adds to it.
-/

namespace SweetClib.Majordomo
open SweetClib.Lib

/-- The requests in the queue of a service. -/
def Broker.requestsOf (b : Broker) (name : Str) : List Request :=
  match b.services name with
  | some s => s.requests
  | none => []

/-- The requests sent to workers for a service, in order. -/
def Broker.sentFor (b : Broker) (name : Str) : List Request :=
  (b.sent.filter (·.service = name)).map Sent.request

/-- The requests accepted for a service, in order. -/
def Broker.acceptedFor (b : Broker) (name : Str) : List Request :=
  (b.accepted.filter (·.1 = name)).map Prod.snd

/-- The account of the requests. -/
structure Ledger (b : Broker) : Prop where
  order : ∀ name, b.sentFor name ++ b.requestsOf name = b.acceptedFor name
  seqs : b.accepted.map (·.2.seq) = List.range b.accepted.length
  registered : ∀ e ∈ b.sent, e.registered = true ∧ e.worker.service = some e.service
  wire : b.out.filter isRequest = b.sent.map fun e => requestMsg e.worker e.request

variable {clock : Nat → Nat} {b b' : Broker} {p : Addr} {w : Worker} {name : Str} {s : Service}

/-- The ledger depends on these parts of the state only. -/
lemma Ledger.congr (lg : Ledger b) (requests : b'.requestsOf = b.requestsOf)
    (sent : b'.sent = b.sent) (accepted : b'.accepted = b.accepted)
    (out : b'.out.filter isRequest = b.out.filter isRequest) : Ledger b' := by
  constructor
  · intro n
    have order := lg.order n
    rw [← requests] at order
    simp only [Broker.sentFor, Broker.acceptedFor, sent, accepted] at order ⊢
    exact order
  · rw [accepted]
    exact lg.seqs
  · rw [sent]
    exact lg.registered
  · rw [out, sent]
    exact lg.wire

/-- Storing a service changes its queue only. -/
lemma requestsOf_setService (b : Broker) (name : Str) (s : Service) :
    (b.setService name s).requestsOf = Function.update b.requestsOf name s.requests := by
  funext n
  by_cases h : n = name
  · subst h
    simp [Broker.requestsOf, Broker.setService]
  · simp [Broker.requestsOf, Broker.setService, h]

/-- Storing a service with the queue it has changes no queue. -/
lemma requestsOf_setService_same (s : Service) (same : s.requests = b.requestsOf name) :
    (b.setService name s).requestsOf = b.requestsOf := by
  rw [requestsOf_setService, same, Function.update_eq_self]

/-- The queue of a service that is there. -/
lemma requestsOf_some (hs : b.services name = some s) : b.requestsOf name = s.requests := by
  simp [Broker.requestsOf, hs]

lemma requestsOf_delete (b : Broker) (p : Addr) (w : Worker) :
    (b.delete p w).requestsOf = b.requestsOf := by
  funext n
  simp only [Broker.requestsOf, Broker.delete, Broker.unlist]
  split
  next e =>
    split at e
    · obtain ⟨s, hs, rfl⟩ := Option.map_eq_some_iff.mp e
      simp [hs]
    · simp [e]
  next e =>
    split at e
    · simp [Option.map_eq_none_iff.mp e]
    · simp [e]

lemma Ledger.accept (lg : Ledger b) (hs : b.services name = some s) (msg : Zmsg) :
    Ledger (b.accept name s msg) := by
  have queues : (b.accept name s msg).requestsOf = _ := requestsOf_setService b name _
  refine ⟨fun n => ?_, ?_, lg.registered, lg.wire⟩
  · have order := lg.order n
    rw [queues]
    have sent : (b.accept name s msg).sentFor n = b.sentFor n := rfl
    rw [sent]
    by_cases h : n = name
    · subst h
      rw [requestsOf_some hs] at order
      rw [Function.update_self, ← List.append_assoc, order]
      simp [Broker.acceptedFor, Broker.accept]
    · have ne : ¬ name = n := fun e => h e.symm
      rw [Function.update_of_ne h, order]
      simp [Broker.acceptedFor, Broker.accept, ne]
  · simp [Broker.accept, List.range_succ, lg.seqs]

/-- Giving a request to a worker keeps the ledger. -/
lemma Ledger.give (lg : Ledger b) (bk : Book b) {ws : List Addr} {r : Request} {rs : List Request}
    (hs : b.services name = some s) (hws : s.waiting = p :: ws) (hrs : s.requests = r :: rs)
    (hw : b.heap p = some w) : Ledger (b.give clock name s p w ws r rs) := by
  have queues : (b.give clock name s p w ws r rs).requestsOf = _ := requestsOf_setService b name _
  have reg : b.workers w.idString = some p := (bk.reg _ _).mpr (by simp [Broker.idOf, hw])
  refine ⟨fun n => ?_, lg.seqs, ?_, ?_⟩
  · have order := lg.order n
    have accepted : (b.give clock name s p w ws r rs).acceptedFor n = b.acceptedFor n := rfl
    rw [queues, accepted, ← order]
    by_cases h : n = name
    · subst h
      -- the first request moves from the queue to the end of the requests sent
      rw [Function.update_self, requestsOf_some hs, hrs]
      simp [Broker.sentFor, Broker.give]
    · have ne : ¬ name = n := fun e => h e.symm
      rw [Function.update_of_ne h]
      simp [Broker.sentFor, Broker.give, ne]
  · intro e mem
    obtain mem | mem := List.mem_append.mp mem
    · exact lg.registered e mem
    · rw [List.mem_singleton.mp mem]
      refine ⟨by simp [reg], ?_⟩
      have queue : b.queue name = some s.waiting := by simp [Broker.queue, hs]
      have svc := ((bk.queueMem name _ queue p).mp (by simp [hws])).2
      simpa [Broker.svcOf, hw] using svc
  · have isReq : isRequest (requestMsg w r) = true := by simp [isRequest, requestMsg, zmsgWrap]
    simp [Broker.give, isReq, lg.wire]

lemma Ledger.change (lg : Ledger b) (bk : Book b) {k : Kind} (ch : Change clock b k b') :
    Ledger b' := by
  cases ch with
  | read => exact lg.congr rfl rfl rfl rfl
  | beat => exact lg.congr rfl rfl rfl rfl
  | send notReq => exact lg.congr rfl rfl rfl (by simp [zmsgSend, notReq])
  | @service name hs =>
    refine lg.congr (requestsOf_setService_same _ ?_) rfl rfl rfl
    simp [Broker.requestsOf, hs]
  | register _ _ => exact lg.congr rfl rfl rfl rfl
  | @assign _ _ name s _ _ hs =>
    exact lg.congr (requestsOf_setService_same { s with workers := s.workers + 1 }
      (requestsOf_some hs).symm) rfl rfl rfl
  | @delete p w _ => exact lg.congr (requestsOf_delete b p w) rfl rfl rfl
  | accept hs => exact lg.accept hs _
  | @enlist p _ name s _ _ hs _ =>
    exact lg.congr (requestsOf_setService_same { s with waiting := s.waiting ++ [p] }
      (requestsOf_some hs).symm) rfl rfl rfl
  | refresh _ => exact lg.congr rfl rfl rfl rfl
  | give hs hws hrs hw => exact lg.give bk hs hws hrs hw

/-- Every run of actions keeps the ledger. -/
lemma Ledger.acts (lg : Ledger b) (bk : Book b) {tr} (run : Run (Act clock) b tr b') :
    Ledger b' := by
  obtain ⟨ks, run, _⟩ := acts_changes bk run
  exact run.invariant_under Book Ledger bk (fun _ _ _ bk ch => bk.change ch) lg
    fun _ _ _ bk lg ch => lg.change bk ch

lemma Ledger.new (clock : Nat → Nat) : Ledger (sBrokerNew clock) :=
  ⟨fun _ => rfl, rfl, nofun, rfl⟩

/-- Storing a service does not concern the others. -/
lemma IdleAt.setService {n : Str} (idle : IdleAt b n) (ne : n ≠ name) :
    IdleAt (b.setService name s) n := by
  intro s' e
  have old : (b.setService name s).services n = b.services n := Function.update_of_ne ne ..
  rw [old] at e
  exact idle s' e

lemma IdleAt.setService_self (h : s.requests = [] ∨ s.waiting = []) :
    IdleAt (b.setService name s) name := by
  intro s' e
  have new : (b.setService name s).services name = some s := Function.update_self ..
  rw [new] at e
  cases e
  exact h

lemma IdleAt.change {n : Str} (idle : IdleAt b n) {k : Kind} (ch : Change clock b k b')
    (calm : k.calm = true) : IdleAt b' n := by
  cases ch with
  | read => exact idle
  | beat => exact idle
  | send _ => exact idle
  | @service name _ =>
    by_cases h : n = name
    · subst h
      exact .setService_self (.inl rfl)
    · exact idle.setService h
  | register _ _ => exact idle
  | @assign p w name s _ _ hs =>
    by_cases h : n = name
    · subst h
      exact IdleAt.setService_self (s := { s with workers := s.workers + 1 }) (idle s hs)
    · exact idle.setService (s := { s with workers := s.workers + 1 }) h
  | delete _ =>
    intro s' e
    simp only [Broker.delete, Broker.unlist] at e
    split at e
    · obtain ⟨s, hs, rfl⟩ := Option.map_eq_some_iff.mp e
      obtain none | none := idle s hs
      · exact .inl none
      · exact .inr (by simp [none])
    · exact idle s' e
  | accept _ => cases calm
  | enlist _ _ _ _ => cases calm
  | refresh _ => exact idle
  | @give name s _ _ ws _ rs hs hws hrs _ =>
    by_cases h : n = name
    · -- a service that gives is not idle
      subst h
      obtain none | none := idle s hs
      · simp [none] at hrs
      · simp [none] at hws
    · exact idle.setService (s := { s with waiting := ws, requests := rs }) h

/-- Runs of calm changes leave idle services idle. -/
lemma IdleAt.changes {n : Str} (idle : IdleAt b n) {tr} (run : Run (Change clock) b tr b')
    (calm : ∀ k ∈ tr, k.calm = true) : IdleAt b' n :=
  run.invariant_on (fun b => IdleAt b n) (fun k => k.calm = true) calm idle
    fun _ _ _ calm idle ch => idle.change ch calm

/-- Dispatching for a service leaves it idle, and the others as idle as they were. -/
lemma dispatch_idle (bk : Book b) (ex : (b.services name).isSome)
    (e : sServiceDispatch clock b name none = some b') (others : ∀ n, n ≠ name → IdleAt b n)
    (n : Str) : IdleAt b' n := by
  obtain ⟨b₁, b₂, tr₁, tr, _, run₁, kinds₁, e₂, run, kinds, idle⟩ := dispatch_spec clock bk ex
  rw [e₂] at e
  cases e
  by_cases h : n = name
  · subst h
    exact idle
  · refine ((others n h).changes run₁ fun k mem => ?_).changes run fun k mem => ?_
    · obtain h | h := kinds₁ k mem <;> rw [h] <;> rfl
    · rw [kinds k mem]
      rfl

lemma idle_act (bk : Book b) {l : Label} (act : Act clock b l b') (idle : ∀ n, IdleAt b n)
    (n : Str) : IdleAt b' n := by
  obtain ⟨ks, run, calm, _⟩ | ⟨k, b₁, name, ch, _, _, same, ex, e⟩ := act.cases bk
  · exact (idle n).changes run fun k mem => (calm k mem).1
  · refine dispatch_idle (bk.change ch) ex e (fun m h s hs => ?_) n
    rw [same m h] at hs
    exact idle m s hs

/-- Every run of actions leaves idle services idle. -/
lemma idle_acts (bk : Book b) {tr} (run : Run (Act clock) b tr b') (idle : ∀ n, IdleAt b n)
    (n : Str) : IdleAt b' n := by
  have all : ∀ n, IdleAt b' n := run.invariant_under Book (fun b => ∀ n, IdleAt b n) bk
    (fun _ _ _ bk act => bk.act act) idle fun _ _ _ bk idle act => idle_act bk act idle
  exact all n

/-- Messages are sent behind the ones sent before. -/
lemma out_acts (bk : Book b) {tr} (run : Run (Act clock) b tr b') : b.out <+: b'.out := by
  have change : ∀ {b₁ k b₂}, Change clock b₁ k b₂ → b₁.out <+: b₂.out := by
    intro b₁ k b₂ ch
    cases ch with
    | send _ => exact List.prefix_append _ _
    | give _ _ _ _ => exact List.prefix_append _ _
    | _ => exact List.prefix_rfl
  obtain ⟨ks, run, _⟩ := acts_changes bk run
  exact run.invariant (fun b₁ => b.out <+: b₁.out) List.prefix_rfl fun _ _ _ pre ch =>
    pre.trans (change ch)

/-- The identity of the worker at an address. -/
def Broker.identOf (b : Broker) (p : Addr) : Option Frame :=
  (b.heap p).map Worker.identity

/-- The times an identity is on the waiting list. -/
def waits (b : Broker) (id : Frame) : Nat :=
  b.waiting.countP fun p => b.identOf p = some id

/-- Messages that carry a request to an identity. -/
def isRequestTo (id : Frame) (m : Zmsg) : Bool :=
  isRequest m ∧ m.head? = some id

/-- The turns of an identity that the broker owes or has given. -/
def due (b : Broker) (id : Frame) : Nat :=
  waits b id + b.out.countP (isRequestTo id)

/-- What is due depends on the list, the identities on it and the requests sent. -/
lemma due_congr (b b' : Broker) (id : Frame) (waiting : b'.waiting = b.waiting)
    (ids : ∀ p ∈ b.waiting, b'.identOf p = b.identOf p)
    (out : b'.out.countP (isRequestTo id) = b.out.countP (isRequestTo id)) :
    due b' id = due b id := by
  rw [due, due, out, waits, waits, waiting]
  congr 1
  exact List.countP_congr fun p mem => by rw [ids p mem]

/-- Rewriting a worker without touching its identity changes none. -/
lemma identOf_set {b b' : Broker} {p : Addr} {w w' : Worker} (hw : b.heap p = some w)
    (hh : b'.heap = b.heap.set p w') (same : w'.identity = w.identity) (q : Addr) :
    b'.identOf q = b.identOf q := by
  by_cases h : q = p
  · subst h
    simp [Broker.identOf, hh, hw, same]
  · simp [Broker.identOf, hh, h]

lemma waits_delete (bk : Book b) (p : Addr) (w : Worker) (id : Frame) :
    waits (b.delete p w) id ≤ waits b id := by
  have waiting : (b.delete p w).waiting = b.waiting.erase p := rfl
  have same : (b.waiting.erase p).countP (fun q => (b.delete p w).identOf q = some id) =
      (b.waiting.erase p).countP fun q => b.identOf q = some id := by
    refine List.countP_congr fun q mem => ?_
    have ne : q ≠ p := (bk.nodup.mem_erase_iff.mp mem).1
    simp [Broker.identOf, Broker.delete, ne]
  rw [waits, waiting, same]
  exact List.erase_sublist.countP_le

/-- What is due after a worker is enlisted. -/
lemma due_enlist (hw : b.heap p = some w) (id : Frame) :
    due (b.enlist clock p w name s) id = due b id + if w.identity = id then 1 else 0 := by
  have waiting : (b.enlist clock p w name s).waiting = b.waiting ++ [p] := rfl
  have out : (b.enlist clock p w name s).out = b.out := rfl
  have ids : ∀ q, (b.enlist clock p w name s).identOf q = b.identOf q := identOf_set hw rfl rfl
  have idp : b.identOf p = some w.identity := by simp [Broker.identOf, hw]
  simp only [due, waits, waiting, out, ids, List.countP_append, List.countP_singleton, idp,
    Option.some.injEq, decide_eq_true_eq]
  omega

/-- Only turns add to what is due. -/
lemma due_change (bk : Book b) {k : Kind} (ch : Change clock b k b') (id : Frame) :
    due b' id ≤ due b id + (loud [k.label]).count (.turn id) := by
  cases ch with
  | read => exact Nat.le_refl _
  | beat => exact Nat.le_refl _
  | @send m notReq =>
    have same := due_congr b (zmsgSend b m) id rfl (fun _ _ => rfl)
      (by simp [zmsgSend, isRequestTo, notReq])
    omega
  | service _ => exact Nat.le_refl _
  | @register p identity fresh _ =>
    have ids : ∀ q ∈ b.waiting, (b.register p identity).identOf q = b.identOf q := by
      intro q mem
      have ne : q ≠ p := by
        rintro rfl
        obtain ⟨w, _, _, hw, _⟩ := bk.live mem
        simp [fresh] at hw
      simp [Broker.identOf, Broker.register, ne]
    have same := due_congr b (b.register p identity) id rfl ids rfl
    omega
  | @assign p w name s hw _ _ =>
    have ids : ∀ q, (b.assign p w name s).identOf q = b.identOf q := identOf_set hw rfl rfl
    have same := due_congr b (b.assign p w name s) id rfl (fun q _ => ids q) rfl
    omega
  | @delete p w _ =>
    have le := waits_delete bk p w id
    have : due (b.delete p w) id ≤ due b id := Nat.add_le_add_right le _
    omega
  | accept _ => exact Nat.le_refl _
  | @enlist p w name s hw _ _ out =>
    rw [due_enlist hw]
    simp [Kind.label, List.count_cons]
  | @refresh p w hw =>
    have ids : ∀ q, (b.refresh clock p w).identOf q = b.identOf q := identOf_set hw rfl rfl
    have same := due_congr b (b.refresh clock p w) id rfl (fun q _ => ids q) rfl
    omega
  | @give name s p w ws r rs hs hws _ hw =>
    -- the worker leaves the list, and a request goes to its identity
    have queue : b.queue name = some s.waiting := by simp [Broker.queue, hs]
    have mem := ((bk.queueMem name _ queue p).mp (by simp [hws])).1
    have left : waits (b.give clock name s p w ws r rs) id =
        waits b id - if w.identity = id then 1 else 0 := by
      have : waits (b.give clock name s p w ws r rs) id =
          (b.waiting.erase p).countP fun q => b.identOf q = some id := rfl
      rw [this, List.countP_erase]
      simp [waits, mem, Broker.identOf, hw]
    have sent : (b.give clock name s p w ws r rs).out.countP (isRequestTo id) =
        b.out.countP (isRequestTo id) + if w.identity = id then 1 else 0 := by
      simp [Broker.give, List.countP_append, List.countP_cons, isRequestTo, isRequest, requestMsg,
        zmsgWrap]
    have pos : w.identity = id → 0 < waits b id := by
      intro h
      exact List.countP_pos_iff.mpr ⟨p, mem, by simp [Broker.identOf, hw, h]⟩
    have : due (b.give clock name s p w ws r rs) id = due b id := by
      rw [due, left, sent, due]
      split
      next h =>
        have := pos h
        omega
      next => omega
    omega

/-- What is due after a run of actions. -/
lemma due_acts (bk : Book b) {tr} (run : Run (Act clock) b tr b') (id : Frame) :
    due b' id ≤ due b id + (loud tr).count (.turn id) := by
  obtain ⟨ks, run, labels⟩ := acts_changes bk run
  rw [← labels]
  suffices main :
    Book b' ∧ due b' id ≤ due b id + (loud (ks.map Kind.label)).count (.turn id) from main.2
  refine run.history (fun ks b₁ => Book b₁ ∧
    due b₁ id ≤ due b id + (loud (ks.map Kind.label)).count (.turn id)) ⟨bk, by simp⟩ ?_
  rintro ks b₁ k b₂ ⟨bk₁, le⟩ ch
  refine ⟨bk₁.change ch, ?_⟩
  have step := due_change bk₁ ch id
  have split : loud ((k :: ks).map Kind.label) = loud [k.label] ++ loud (ks.map Kind.label) := by
    rw [← loud_append]
    rfl
  rw [split, List.count_append]
  omega

/-- The requests accepted so far: the service and the message. -/
def Broker.contents (b : Broker) : List (Str × Zmsg) :=
  b.accepted.map fun x => (x.1, x.2.msg)

/-- The requests submitted by the actions of a trace, newest first. -/
def submits (tr : List Label) : List (Str × Zmsg) :=
  tr.filterMap fun
    | .submit name msg => some (name, msg)
    | _ => none

lemma submits_loud (tr : List Label) : submits (loud tr) = submits tr := by
  induction tr with
  | nil => rfl
  | cons l tr ih =>
    cases l <;> simp only [loud_quiet, loud_register, loud_submit, loud_refresh, loud_turn]
    · exact ih
    · exact ih
    · exact congrArg (List.cons _) ih
    · exact ih
    · exact ih

/-- Only submissions add to the requests accepted. -/
lemma contents_change {k : Kind} (ch : Change clock b k b') :
    b'.contents = b.contents ++ submits [k.label] := by
  cases ch with
  | accept _ => simp [Broker.contents, Broker.accept, submits, Kind.label]
  | _ => exact (List.append_nil _).symm

/-- The requests accepted after a run of actions. -/
lemma contents_acts (bk : Book b) {tr} (run : Run (Act clock) b tr b') :
    b'.contents = b.contents ++ (submits (loud tr)).reverse := by
  obtain ⟨ks, run, labels⟩ := acts_changes bk run
  rw [← labels, submits_loud]
  refine run.history
    (fun ks b₁ => b₁.contents = b.contents ++ (submits (ks.map Kind.label)).reverse)
    (by simp [submits]) ?_
  rintro ks b₁ k b₂ ih ch
  have split :
      submits ((k :: ks).map Kind.label) = submits [k.label] ++ submits (ks.map Kind.label) := by
    rw [List.map_cons, submits, submits, ← List.singleton_append, List.filterMap_append]
    rfl
  have single : (submits [k.label]).reverse = submits [k.label] := by cases k <;> rfl
  rw [contents_change ch, ih, split, List.reverse_append, single, List.append_assoc]

end SweetClib.Majordomo
