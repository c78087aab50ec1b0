import SweetClib.Majordomo.Change

/-!
# The functions of the broker as runs of changes

Under the bookkeeping, no function of the broker faults on what it is called with: each of them
ends and is a run of changes. `purge_spec` and `dispatch_spec` also say what the loops leave
behind: the first worker on the list has not expired, and the service has no requests left or no
workers left.
-/

namespace SweetClib.Majordomo
open SweetClib.Lib

variable {clock : Nat → Nat} {b b' : Broker} {p : Addr} {w : Worker} {name : Str} {s : Service}

/-- The service has no requests or no waiting workers. -/
def IdleAt (b : Broker) (name : Str) : Prop :=
  ∀ s, b.services name = some s → s.requests = [] ∨ s.waiting = []

/-- Changes keep the book. -/
lemma Book.changes (bk : Book b) {tr} (run : Run (Change clock) b tr b') : Book b' :=
  run.invariant Book bk fun _ _ _ bk ch => bk.change ch

/-- A change removes no service. -/
lemma Change.services {k : Kind} (ch : Change clock b k b') (ex : (b.services name).isSome) :
    (b'.services name).isSome := by
  have set : ∀ n s, ((b.setService n s).services name).isSome := by
    intro n s
    by_cases h : name = n
    · subst h
      simp [Broker.setService]
    · simpa [Broker.setService, h] using ex
  cases ch with
  | read => exact ex
  | beat => exact ex
  | send _ => exact ex
  | service _ => exact set _ _
  | register _ _ => exact ex
  | assign _ _ _ => exact set _ _
  | delete _ =>
    simp only [Broker.delete, Broker.unlist]
    split
    · simpa using ex
    · exact ex
  | accept _ => exact set _ _
  | enlist _ _ _ _ => exact set _ _
  | refresh _ => exact ex
  | give _ _ _ _ => exact set _ _

/-- Nor do several. -/
lemma services_changes {tr} (run : Run (Change clock) b tr b') (ex : (b.services name).isSome) :
    (b'.services name).isSome :=
  run.invariant (fun b => (b.services name).isSome) ex fun _ _ _ ex ch => ch.services ex

/-- Another command to a worker is not a request. -/
lemma isRequest_sWorkerSend {command : Str} (ne : command ≠ MDPW_REQUEST) (identity : Frame)
    (msg : Zmsg) : isRequest (zmsgWrap (MDPW_WORKER :: command :: msg) identity) = false := by
  simp [isRequest, zmsgWrap, ne]

/-- A message to a client is not a request. -/
lemma isRequest_client (client : Frame) (msg : Zmsg) :
    isRequest (zmsgWrap (MDPC_CLIENT :: msg) client) = false := by
  cases msg <;> simp [isRequest, zmsgWrap, MDPC_CLIENT, MDPW_WORKER]

/-- Deleting with a message is sending it and deleting. -/
lemma sWorkerDelete_disconnect (hw : b.heap p = some w) : sWorkerDelete b p true =
    sWorkerDelete (sWorkerSend b w MDPW_DISCONNECT none none) p false := by
  simp [sWorkerDelete, hw, sWorkerSend, zmsgSend]

/-- A worker that is deleted without a disconnect. -/
lemma sWorkerDelete_eq (ro : Roster b) (hw : b.heap p = some w) :
    sWorkerDelete b p false = some (b.delete p w) := by
  have reg : b.workers w.idString = some p := (ro.reg _ _).mpr (by simp [Broker.idOf, hw])
  cases hn : w.service with
  | none =>
    have same : b.unlist p w = b.services := by
      funext n
      simp [Broker.unlist, hn]
    simp [sWorkerDelete, hw, hn, reg, Broker.delete, same]
  | some name =>
    obtain ⟨s, hs, _⟩ := ro.served (show b.svcOf p = some name by simp [Broker.svcOf, hw, hn])
    have same : b.unlist p w = Function.update b.services name
        (some { s with waiting := s.waiting.erase p, workers := s.workers - 1 }) := by
      funext n
      by_cases h : n = name
      · subst h
        simp [Broker.unlist, hn, hs]
      · have ne : ¬ name = n := fun e => h e.symm
        simp [Broker.unlist, hn, h, ne]
    simp [sWorkerDelete, hw, hn, hs, reg, Broker.delete, Broker.setService, same]

/-- C `s_worker_delete` sends its message, if it is to, and deletes. -/
lemma sWorkerDelete_changes (clock : Nat → Nat) (ro : Roster b) (hw : b.heap p = some w)
    (disconnect : Bool) :
    ∃ b' ks, sWorkerDelete b p disconnect = some b' ∧ Run (Change clock) b ks b' ∧
      (∀ k ∈ ks, k = .send ∨ k = .delete) ∧ b'.heap = b.heap.free p := by
  cases disconnect with
  | false => exact ⟨_, [.delete], sWorkerDelete_eq ro hw, .single (.delete hw), by simp, rfl⟩
  | true =>
    have send : Change clock b .send (sWorkerSend b w MDPW_DISCONNECT none none) :=
      .send (isRequest_sWorkerSend (by decide) _ _)
    have ro₁ : Roster (sWorkerSend b w MDPW_DISCONNECT none none) := ⟨ro.reg, ro.svc⟩
    have del := sWorkerDelete_eq ro₁ (p := p) (w := w) hw
    have both : Run (Change clock) b [.delete, .send] _ := .cons (.single send) (.delete hw)
    exact ⟨_, _, (sWorkerDelete_disconnect hw).trans del, both, by simp, rfl⟩

/-- C `s_service_require` adds the service at most. -/
lemma sServiceRequire_changes (clock : Nat → Nat) (b : Broker) (frame : Frame) :
    ∃ services ks, sServiceRequire b frame = (zframeStrdup frame, { b with services := services }) ∧
      Run (Change clock) b ks { b with services := services } ∧ (∀ k ∈ ks, k = .service) ∧
      (services (zframeStrdup frame)).isSome := by
  cases hs : b.services (zframeStrdup frame) with
  | none =>
    refine ⟨_, [.service], ?_, .single (.service hs), by simp, by simp⟩
    simp only [sServiceRequire, hs]
    rfl
  | some s =>
    refine ⟨b.services, [], ?_, .nil, by simp, by simp [hs]⟩
    simp only [sServiceRequire, hs]

/-- One round of the loop of `s_broker_purge`. -/
lemma purgeLoop_cons (n : Nat) {ws : List Addr} (hws : b.waiting = p :: ws)
    (hw : b.heap p = some w) :
    purgeLoop clock (n + 1) b =
      if clock b.reads < w.expiry then some b.read
      else (sWorkerDelete b.read p false).bind (purgeLoop clock n) := by
  rw [purgeLoop]
  split
  next h => simp [hws] at h
  next q qs h =>
    rw [hws] at h
    cases h
    simp only [hw, zclockTime, Broker.read, Option.bind_eq_bind, Option.bind_some]
    rfl

/-- A purge ends, reads the clock and deletes workers, and leaves a live worker at the head of the
list. -/
lemma purgeLoop_spec (n : Nat) (bk : Book b) (len : b.waiting.length ≤ n) :
    ∃ b' tr, purgeLoop clock n b = some b' ∧ Run (Change clock) b tr b' ∧
      (∀ k ∈ tr, k = .read ∨ k = .delete) ∧
      ∀ p ws, b'.waiting = p :: ws →
        ∃ w, b'.heap p = some w ∧ b.reads < b'.reads ∧ clock (b'.reads - 1) < w.expiry := by
  induction n generalizing b with
  | zero =>
    have none : b.waiting = [] := List.eq_nil_of_length_eq_zero (by omega)
    exact ⟨b, [], rfl, .nil, nofun, by simp [none]⟩
  | succ n ih =>
    cases hws : b.waiting with
    | nil => exact ⟨b, [], by simp [purgeLoop, hws], .nil, nofun, by simp [hws]⟩
    | cons p ws =>
      obtain ⟨w, _, _, hw, _⟩ := bk.live (p := p) (by simp [hws])
      have hread : Change clock b .read b.read := .read
      rw [purgeLoop_cons n hws hw]
      by_cases live : clock b.reads < w.expiry
      · refine ⟨b.read, [.read], if_pos live, .single hread, by simp, fun q qs e => ?_⟩
        have same : b.waiting = q :: qs := e
        rw [hws] at same
        cases same
        exact ⟨w, hw, Nat.lt_succ_self _, live⟩
      · -- the expired worker is deleted, and the loop goes on with one worker less
        have bk₁ := bk.change hread
        have delete : Change clock b.read .delete (b.read.delete p w) := .delete hw
        have shorter : (b.read.delete p w).waiting.length ≤ n := by
          have : (b.read.delete p w).waiting = ws := by simp [Broker.delete, Broker.read, hws]
          rw [hws, List.length_cons] at len
          rw [this]
          omega
        obtain ⟨b', tr, e, run, kinds, exit⟩ := ih (bk₁.change delete) shorter
        refine ⟨b', tr ++ [.delete, .read], ?_, .trans (.cons (.single hread) delete) run, ?_, ?_⟩
        · rw [if_neg live, sWorkerDelete_eq bk₁.toRoster hw, Option.bind_some, e]
        · simp only [List.mem_append, List.mem_cons, List.not_mem_nil, or_false]
          rintro k (mem | rfl | rfl)
          · exact kinds k mem
          · exact .inr rfl
          · exact .inl rfl
        · intro q qs e
          obtain ⟨w', hw', lt, live'⟩ := exit q qs e
          exact ⟨w', hw', Nat.lt_of_succ_lt lt, live'⟩

/-- C `s_broker_purge` ends and leaves a live worker at the head of the list. -/
lemma purge_spec (clock : Nat → Nat) (bk : Book b) :
    ∃ b' tr, sBrokerPurge clock b = some b' ∧ Run (Change clock) b tr b' ∧
      (∀ k ∈ tr, k = .read ∨ k = .delete) ∧
      ∀ p ws, b'.waiting = p :: ws →
        ∃ w, b'.heap p = some w ∧ b.reads < b'.reads ∧ clock (b'.reads - 1) < w.expiry :=
  purgeLoop_spec _ bk le_rfl

/-- One round of the loop of `s_service_dispatch`. -/
lemma dispatchLoop_cons (n : Nat) {ws : List Addr} {r : Request} {rs : List Request}
    (hs : b.services name = some s) (hws : s.waiting = p :: ws) (hrs : s.requests = r :: rs)
    (hw : b.heap p = some w) : dispatchLoop clock name (n + 1) b =
      dispatchLoop clock name n (b.give clock name s p w ws r rs) := by
  have hw' : (b.setService name { s with waiting := ws, requests := rs }).heap p = some w := hw
  simp only [dispatchLoop, hs, hws, hrs, hw', Option.bind_eq_bind, Option.bind_some]
  rfl

/-- The dispatch loop ends, gives requests to workers and leaves the service idle. -/
lemma dispatchLoop_spec (n : Nat) (bk : Book b) (hs : b.services name = some s)
    (len : s.requests.length ≤ n) :
    ∃ b' tr, dispatchLoop clock name n b = some b' ∧ Run (Change clock) b tr b' ∧
      (∀ k ∈ tr, k = .give) ∧ IdleAt b' name := by
  induction n generalizing b s with
  | zero =>
    have none : s.requests = [] := List.eq_nil_of_length_eq_zero (by omega)
    refine ⟨b, [], rfl, .nil, nofun, fun s' e => .inl ?_⟩
    rw [hs] at e
    cases e
    exact none
  | succ n ih =>
    cases hws : s.waiting with
    | nil =>
      refine ⟨b, [], by simp [dispatchLoop, hs, hws], .nil, nofun, fun s' e => .inr ?_⟩
      rw [hs] at e
      cases e
      exact hws
    | cons p ws =>
      cases hrs : s.requests with
      | nil =>
        refine ⟨b, [], by simp [dispatchLoop, hs, hws, hrs], .nil, nofun, fun s' e => .inl ?_⟩
        rw [hs] at e
        cases e
        exact hrs
      | cons r rs =>
        have queue : b.queue name = some s.waiting := by simp [Broker.queue, hs]
        have mem := ((bk.queueMem name _ queue p).mp (by simp [hws])).1
        obtain ⟨w, _, _, hw, _⟩ := bk.live mem
        have give : Change clock b .give _ := .give hs hws hrs hw
        have hs' : (b.give clock name s p w ws r rs).services name =
            some { s with waiting := ws, requests := rs } := by
          simp [Broker.give, Broker.setService]
        have shorter : rs.length ≤ n := by
          simp only [hrs, List.length_cons] at len
          omega
        obtain ⟨b', tr, e, run, kinds, idle⟩ := ih (bk.change give) hs' shorter
        refine ⟨b', tr ++ [.give], ?_, .trans (.single give) run, ?_, idle⟩
        · rw [dispatchLoop_cons n hs hws hrs hw, e]
        · simp only [List.mem_append, List.mem_cons, List.not_mem_nil, or_false]
          rintro k (mem | rfl)
          · exact kinds k mem
          · rfl

/-- Dispatching without a new request purges, gives requests to workers and leaves the service
idle. -/
lemma dispatch_spec (clock : Nat → Nat) (bk : Book b) (ex : (b.services name).isSome) :
    ∃ b₁ b' tr₁ tr, sBrokerPurge clock b = some b₁ ∧ Run (Change clock) b tr₁ b₁ ∧
      (∀ k ∈ tr₁, k = .read ∨ k = .delete) ∧
      sServiceDispatch clock b name none = some b' ∧ Run (Change clock) b₁ tr b' ∧
      (∀ k ∈ tr, k = .give) ∧ IdleAt b' name := by
  obtain ⟨b₁, tr₁, e₁, run₁, kinds₁, _⟩ := purge_spec clock bk
  obtain ⟨s₁, hs₁⟩ := Option.isSome_iff_exists.mp (services_changes run₁ ex)
  obtain ⟨s, hs⟩ := Option.isSome_iff_exists.mp ex
  obtain ⟨b', tr, e, run, kinds, idle⟩ := dispatchLoop_spec _ (bk.changes run₁) hs₁ le_rfl
  refine ⟨b₁, b', tr₁, tr, e₁, run₁, kinds₁, ?_, run, kinds, idle⟩
  simp [sServiceDispatch, hs, e₁, hs₁, e]

/-- Dispatching a request is accepting it and dispatching. -/
lemma dispatch_accept (hs : b.services name = some s) (msg : Zmsg) :
    sServiceDispatch clock b name (some msg) =
      sServiceDispatch clock (b.accept name s msg) name none := by
  simp [sServiceDispatch, hs, Broker.accept, Broker.setService]

/-- C `s_worker_waiting` is enlisting the worker and dispatching. -/
lemma sWorkerWaiting_eq (hw : b.heap p = some w) (hn : w.service = some name)
    (hs : b.services name = some s) :
    sWorkerWaiting clock b p = sServiceDispatch clock (b.enlist clock p w name s) name none := by
  simp [sWorkerWaiting, hw, hn, hs, zclockTime, Broker.enlist, Broker.setService]

/-- A worker with a service that is not waiting can be enlisted, which is what C `s_worker_waiting`
does before it dispatches. -/
lemma waiting_enlist (clock : Nat → Nat) (bk : Book b) (hw : b.heap p = some w)
    (sv : w.service.isSome) (out : p ∉ b.waiting) :
    ∃ name s, Change clock b (.enlist w.identity) (b.enlist clock p w name s) ∧
      ((b.enlist clock p w name s).services name).isSome ∧
      sWorkerWaiting clock b p = sServiceDispatch clock (b.enlist clock p w name s) name none := by
  obtain ⟨name, hn⟩ := Option.isSome_iff_exists.mp sv
  obtain ⟨s, hs, _⟩ :=
    bk.toRoster.served (show b.svcOf p = some name by simp [Broker.svcOf, hw, hn])
  refine ⟨name, s, .enlist hw hn hs out, ?_, sWorkerWaiting_eq hw hn hs⟩
  simp [Broker.enlist, Broker.setService]

end SweetClib.Majordomo
