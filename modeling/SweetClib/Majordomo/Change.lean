import SweetClib.Lib.Run
import SweetClib.Majordomo.Broker

/-!
# The changes the broker makes

Every function of the broker is a sequence of a few changes of its state (`Change`): reading the
clock, sending a message, adding a service, registering, assigning, enlisting, refreshing or
deleting a worker, accepting a request and giving one to a worker. `Book` is the bookkeeping of the
broker: what its three containers of workers say fits together. Every change keeps it
(`Book.change`), so that it is enough to show of a function that it is a run of changes. `Roster`
is the part of it that does not speak of the waiting lists.
-/

namespace SweetClib.Majordomo
open SweetClib.Lib

/-- The service of the worker at an address. -/
def Broker.svcOf (b : Broker) (p : Addr) : Option Str :=
  (b.heap p).bind Worker.service

/-- The `id_string` of the worker at an address. -/
def Broker.idOf (b : Broker) (p : Addr) : Option Str :=
  (b.heap p).map Worker.idString

/-- The waiting list of a service. -/
def Broker.queue (b : Broker) (name : Str) : Option (List Addr) :=
  (b.services name).map Service.waiting

/-- The registered workers are the live ones, and services of workers exist. -/
structure Roster (b : Broker) : Prop where
  reg : ∀ id p, b.workers id = some p ↔ b.idOf p = some id
  svc : ∀ p name, b.svcOf p = some name → (b.queue name).isSome

/-- The bookkeeping of the broker: besides the roster, no list names a worker twice, and a service
lists the waiting workers assigned to it. -/
structure Book (b : Broker) : Prop extends Roster b where
  nodup : b.waiting.Nodup
  queueNodup : ∀ name ws, b.queue name = some ws → ws.Nodup
  queueMem : ∀ name ws, b.queue name = some ws → ∀ p, p ∈ ws ↔ p ∈ b.waiting ∧ b.svcOf p = some name
  placed : ∀ p ∈ b.waiting, (b.svcOf p).isSome

/-- The clock is read. -/
def Broker.read (b : Broker) : Broker :=
  { b with reads := b.reads + 1 }

/-- A worker is registered. -/
def Broker.register (b : Broker) (p : Addr) (identity : Frame) : Broker :=
  { b with
    heap := b.heap.set p
      { idString := zframeStrhex identity, identity := identity, service := none, expiry := 0,
        hex := rfl }
    workers := Function.update b.workers (zframeStrhex identity) (some p) }

/-- A registered worker is assigned to a service. -/
def Broker.assign (b : Broker) (p : Addr) (w : Worker) (name : Str) (s : Service) : Broker :=
  { b.setService name { s with workers := s.workers + 1 } with
    heap := b.heap.set p { w with service := some name } }

/-- The services after a worker is taken off the list of its own. -/
def Broker.unlist (b : Broker) (p : Addr) (w : Worker) (name : Str) : Option Service :=
  if w.service = some name then
    (b.services name).map fun s => { s with waiting := s.waiting.erase p, workers := s.workers - 1 }
  else
    b.services name

/-- A worker is deleted. -/
def Broker.delete (b : Broker) (p : Addr) (w : Worker) : Broker :=
  { b with
    services := b.unlist p w
    waiting := b.waiting.erase p
    workers := Function.update b.workers w.idString none
    heap := b.heap.free p }

/-- A request is accepted. -/
def Broker.accept (b : Broker) (name : Str) (s : Service) (msg : Zmsg) : Broker :=
  let request : Request := { seq := b.accepted.length, msg := msg }
  { b.setService name { s with requests := s.requests ++ [request] } with
    accepted := b.accepted ++ [(name, request)] }

/-- A worker is put at the end of both lists, with a new expiry. -/
def Broker.enlist (clock : Nat → Nat) (b : Broker) (p : Addr) (w : Worker) (name : Str)
    (s : Service) : Broker :=
  { b.setService name { s with waiting := s.waiting ++ [p] } with
    waiting := b.waiting ++ [p]
    heap := b.heap.set p { w with expiry := clock b.reads + HEARTBEAT_EXPIRY }
    reads := b.reads + 1 }

/-- A worker gets a new expiry. -/
def Broker.refresh (clock : Nat → Nat) (b : Broker) (p : Addr) (w : Worker) : Broker :=
  { b with
    heap := b.heap.set p { w with expiry := clock b.reads + HEARTBEAT_EXPIRY }
    reads := b.reads + 1 }

/-- The message a request is sent in. -/
def requestMsg (w : Worker) (r : Request) : Zmsg :=
  zmsgWrap (MDPW_WORKER :: MDPW_REQUEST :: r.msg) w.identity

/-- The first request of a service is given to its first waiting worker. -/
def Broker.give (clock : Nat → Nat) (b : Broker) (name : Str) (s : Service) (p : Addr) (w : Worker)
    (waiting : List Addr) (r : Request) (requests : List Request) : Broker :=
  let entry : Sent :=
    { service := name, worker := w, registered := b.workers w.idString = some p, request := r,
      now := clock (b.reads - 1) }
  { b.setService name { s with waiting := waiting, requests := requests } with
    waiting := b.waiting.erase p
    out := b.out ++ [requestMsg w r]
    sent := b.sent ++ [entry] }

/-- Messages that carry a request to a worker. -/
def isRequest : Zmsg → Bool
  | _ :: [] :: header :: command :: _ => header = MDPW_WORKER ∧ command = MDPW_REQUEST
  | _ => false

/-- The kinds of changes. -/
inductive Kind where
  | read
  | beat
  | send
  | service
  | register
  | assign
  | delete
  | accept (name : Str) (msg : Zmsg)
  | enlist (identity : Frame)
  | refresh (p : Addr)
  | give

/-- The changes of the broker's state. -/
inductive Change (clock : Nat → Nat) : Broker → Kind → Broker → Prop where
  | read {b} :
    Change clock b .read b.read
  | beat {b t} :
    Change clock b .beat { b with heartbeatAt := t }
  | send {b m} :
    isRequest m = false →
    Change clock b .send (zmsgSend b m)
  | service {b name} :
    b.services name = none →
    Change clock b .service (b.setService name { requests := [], waiting := [], workers := 0 })
  | register {b p identity} :
    b.heap p = none →
    b.workers (zframeStrhex identity) = none →
    Change clock b .register (b.register p identity)
  | assign {b p w name s} :
    b.heap p = some w →
    w.service = none →
    b.services name = some s →
    Change clock b .assign (b.assign p w name s)
  | delete {b p w} :
    b.heap p = some w →
    Change clock b .delete (b.delete p w)
  | accept {b name s msg} :
    b.services name = some s →
    Change clock b (.accept name msg) (b.accept name s msg)
  | enlist {b p w name s} :
    b.heap p = some w →
    w.service = some name →
    b.services name = some s →
    p ∉ b.waiting →
    Change clock b (.enlist w.identity) (b.enlist clock p w name s)
  | refresh {b p w} :
    b.heap p = some w →
    Change clock b (.refresh p) (b.refresh clock p w)
  | give {b name s p w waiting r requests} :
    b.services name = some s →
    s.waiting = p :: waiting →
    s.requests = r :: requests →
    b.heap p = some w →
    Change clock b .give (b.give clock name s p w waiting r requests)

/-- The bookkeeping depends on these views of the state only. -/
lemma Book.congr {b b' : Broker} (bk : Book b) (workers : b'.workers = b.workers)
    (ids : b'.idOf = b.idOf) (svcs : b'.svcOf = b.svcOf) (waiting : b'.waiting = b.waiting)
    (queues : b'.queue = b.queue) : Book b' := by
  refine ⟨⟨?_, ?_⟩, ?_, ?_, ?_, ?_⟩
  · rw [workers, ids]
    exact bk.reg
  · rw [svcs, queues]
    exact bk.svc
  · rw [waiting]
    exact bk.nodup
  · rw [queues]
    exact bk.queueNodup
  · rw [queues, waiting, svcs]
    exact bk.queueMem
  · rw [waiting, svcs]
    exact bk.placed

/-- Storing a service changes its list only. -/
lemma queue_setService (b : Broker) (name : Str) (s : Service) :
    (b.setService name s).queue = Function.update b.queue name (some s.waiting) := by
  funext n
  by_cases h : n = name
  · subst h
    simp [Broker.queue, Broker.setService]
  · simp [Broker.queue, Broker.setService, h]

/-- Storing a service with the list it has changes no list. -/
lemma queue_setService_same {b : Broker} {name : Str} {s : Service} (hs : b.services name = some s)
    (s' : Service) (same : s'.waiting = s.waiting) : (b.setService name s').queue = b.queue := by
  rw [queue_setService, same]
  refine Function.update_eq_self_iff.mpr ?_
  simp [Broker.queue, hs]

/-- Rewriting a worker changes the services of workers at its address only. -/
lemma svcOf_set {b b' : Broker} {p : Addr} {w : Worker} (hh : b'.heap = b.heap.set p w) :
    b'.svcOf = Function.update b.svcOf p w.service := by
  funext q
  by_cases h : q = p
  · subst h
    simp [Broker.svcOf, hh]
  · simp [Broker.svcOf, hh, h]

/-- Rewriting a worker changes the id strings at its address only. -/
lemma idOf_set {b b' : Broker} {p : Addr} {w : Worker} (hh : b'.heap = b.heap.set p w) :
    b'.idOf = Function.update b.idOf p (some w.idString) := by
  funext q
  by_cases h : q = p
  · subst h
    simp [Broker.idOf, hh]
  · simp [Broker.idOf, hh, h]

/-- Rewriting a worker without touching its service changes no service. -/
lemma svcOf_set_same {b b' : Broker} {p : Addr} {w w' : Worker} (hw : b.heap p = some w)
    (hh : b'.heap = b.heap.set p w') (same : w'.service = w.service) : b'.svcOf = b.svcOf := by
  rw [svcOf_set hh, same]
  refine Function.update_eq_self_iff.mpr ?_
  simp [Broker.svcOf, hw]

/-- Rewriting a worker without touching its id string changes none. -/
lemma idOf_set_same {b b' : Broker} {p : Addr} {w w' : Worker} (hw : b.heap p = some w)
    (hh : b'.heap = b.heap.set p w') (same : w'.idString = w.idString) : b'.idOf = b.idOf := by
  rw [idOf_set hh, same]
  refine Function.update_eq_self_iff.mpr ?_
  simp [Broker.idOf, hw]

/-- Deleting a worker takes its id string away. -/
lemma idOf_delete (b : Broker) (p : Addr) (w : Worker) :
    (b.delete p w).idOf = Function.update b.idOf p none := by
  funext q
  by_cases h : q = p
  · subst h
    simp [Broker.idOf, Broker.delete]
  · simp [Broker.idOf, Broker.delete, h]

/-- Deleting a worker takes its service away. -/
lemma svcOf_delete (b : Broker) (p : Addr) (w : Worker) :
    (b.delete p w).svcOf = Function.update b.svcOf p none := by
  funext q
  by_cases h : q = p
  · subst h
    simp [Broker.svcOf, Broker.delete]
  · simp [Broker.svcOf, Broker.delete, h]

/-- Storing a service keeps the services there. -/
lemma queue_setService_isSome {b : Broker} {name : Str} {s : Service} (n : Str)
    (ex : (b.queue n).isSome) : ((b.setService name s).queue n).isSome := by
  rw [queue_setService]
  by_cases h : n = name
  · subst h
    simp
  · rwa [Function.update_of_ne h]

section Roster

variable {clock : Nat → Nat} {b : Broker} (ro : Roster b)
include ro

/-- The roster depends on these views of the state only. -/
lemma Roster.congr {b' : Broker} (workers : b'.workers = b.workers) (ids : b'.idOf = b.idOf)
    (svcs : b'.svcOf = b.svcOf) (queues : ∀ name, (b.queue name).isSome → (b'.queue name).isSome) :
    Roster b' := by
  constructor
  · rw [workers, ids]
    exact ro.reg
  · rw [svcs]
    exact fun p name e => queues name (ro.svc p name e)

lemma Roster.served {p : Addr} {name : Str} (e : b.svcOf p = some name) :
    ∃ s, b.services name = some s ∧ b.queue name = some s.waiting := by
  obtain ⟨_, hq⟩ := Option.isSome_iff_exists.mp (ro.svc p name e)
  obtain ⟨s, hs, rfl⟩ := Option.map_eq_some_iff.mp hq
  exact ⟨s, hs, hq⟩

lemma Roster.registered {p : Addr} {id : Str} (e : b.workers id = some p) :
    ∃ w, b.heap p = some w ∧ w.idString = id := by
  have := (ro.reg id p).mp e
  simpa [Broker.idOf] using this

lemma Roster.register {p : Addr} {identity : Frame} (fresh : b.heap p = none)
    (new : b.workers (zframeStrhex identity) = none) : Roster (b.register p identity) := by
  have svcs : (b.register p identity).svcOf = b.svcOf := by
    rw [svcOf_set (b := b) rfl]
    refine Function.update_eq_self_iff.mpr ?_
    simp [Broker.svcOf, fresh]
  refine ⟨?_, by rw [svcs]; exact ro.svc⟩
  intro id q
  rw [idOf_set (b := b) rfl]
  simp only [Broker.register]
  by_cases hq : q = p
  · subst hq
    by_cases hid : id = zframeStrhex identity
    · subst hid
      simp
    · have ne : zframeStrhex identity ≠ id := fun h => hid h.symm
      have := ro.reg id q
      simp only [Broker.idOf, fresh] at this
      simp [hid, ne, this]
  · by_cases hid : id = zframeStrhex identity
    · subst hid
      have old := ro.reg (zframeStrhex identity) q
      rw [new] at old
      have ne : p ≠ q := fun h => hq h.symm
      simp only [Function.update_self, Option.some.injEq, ne, Function.update_of_ne hq, false_iff]
      intro e
      cases old.mpr e
    · rw [Function.update_of_ne hid, Function.update_of_ne hq]
      exact ro.reg id q

lemma Roster.assign {p : Addr} {w : Worker} {name : Str} {s : Service} (hw : b.heap p = some w)
    (hs : b.services name = some s) : Roster (b.assign p w name s) := by
  have ids : (b.assign p w name s).idOf = b.idOf := idOf_set_same hw rfl rfl
  have heap : (b.assign p w name s).heap = b.heap.set p { w with service := some name } := rfl
  have queues : (b.assign p w name s).queue = b.queue :=
    queue_setService_same hs { s with workers := s.workers + 1 } rfl
  refine ⟨by rw [ids]; exact ro.reg, fun q n e => ?_⟩
  rw [queues]
  rw [svcOf_set heap] at e
  by_cases hq : q = p
  · subst hq
    rw [Function.update_self] at e
    cases e
    simp [Broker.queue, hs]
  · rw [Function.update_of_ne hq] at e
    exact ro.svc q n e

/-- A worker is put at the end of both lists. -/
lemma Roster.enlist {p : Addr} {w : Worker} {name : Str} {s : Service} (hw : b.heap p = some w) :
    Roster (b.enlist clock p w name s) :=
  ro.congr rfl (idOf_set_same hw rfl rfl) (svcOf_set_same hw rfl rfl) queue_setService_isSome

lemma Roster.delete {p : Addr} {w : Worker} (hw : b.heap p = some w) : Roster (b.delete p w) := by
  have idp : b.idOf p = some w.idString := by simp [Broker.idOf, hw]
  refine ⟨fun id q => ?_, fun q name e => ?_⟩
  · rw [idOf_delete]
    simp only [Broker.delete]
    have regp := (ro.reg w.idString p).mpr idp
    by_cases hq : q = p
    · subst hq
      by_cases hid : id = w.idString
      · subst hid
        simp
      · rw [Function.update_of_ne hid, Function.update_self]
        simp only [reduceCtorEq, iff_false]
        intro e
        rw [ro.reg id q, idp] at e
        cases e
        exact hid rfl
    · rw [Function.update_of_ne hq]
      by_cases hid : id = w.idString
      · subst hid
        rw [Function.update_self, ← ro.reg, regp]
        simpa using fun h => hq h.symm
      · rw [Function.update_of_ne hid]
        exact ro.reg id q
  · rw [svcOf_delete] at e
    by_cases hq : q = p
    · subst hq
      rw [Function.update_self] at e
      cases e
    · rw [Function.update_of_ne hq] at e
      have ex := ro.svc q name e
      simp only [Broker.queue, Broker.delete, Broker.unlist, Option.isSome_map] at ex ⊢
      split
      · simpa using ex
      · exact ex

end Roster

section Book

variable {clock : Nat → Nat} {b : Broker} (bk : Book b)
include bk

/-- The addresses on the waiting list are in use. -/
lemma Book.live {p : Addr} (mem : p ∈ b.waiting) :
    ∃ w name s, b.heap p = some w ∧ w.service = some name ∧ b.services name = some s ∧
      p ∈ s.waiting := by
  obtain ⟨name, e⟩ := Option.isSome_iff_exists.mp (bk.placed p mem)
  obtain ⟨w, hw, hn⟩ := Option.bind_eq_some_iff.mp e
  obtain ⟨s, hs, hq⟩ := bk.toRoster.served e
  exact ⟨w, name, s, hw, hn, hs, (bk.queueMem name _ hq p).mpr ⟨mem, e⟩⟩

lemma Book.service {name : Str} (hs : b.services name = none) :
    Book (b.setService name { requests := [], waiting := [], workers := 0 }) := by
  have new : b.queue name = none := by simp [Broker.queue, hs]
  have queues := queue_setService b name { requests := [], waiting := [], workers := 0 }
  refine ⟨⟨bk.reg, fun p n e => queue_setService_isSome n (bk.svc p n e)⟩, bk.nodup, ?_, ?_,
    bk.placed⟩
  · intro n ws e
    rw [queues] at e
    by_cases h : n = name
    · subst h
      rw [Function.update_self] at e
      cases e
      exact List.nodup_nil
    · rw [Function.update_of_ne h] at e
      exact bk.queueNodup n ws e
  · intro n ws e p
    rw [queues] at e
    by_cases h : n = name
    · subst h
      rw [Function.update_self] at e
      cases e
      -- a worker assigned to the service would make it exist
      simp only [List.not_mem_nil, false_iff]
      rintro ⟨_, e⟩
      have ex := bk.svc p n e
      simp [new] at ex
    · rw [Function.update_of_ne h] at e
      exact bk.queueMem n ws e p

lemma Book.register {p : Addr} {identity : Frame} (fresh : b.heap p = none)
    (new : b.workers (zframeStrhex identity) = none) : Book (b.register p identity) := by
  have svcs : (b.register p identity).svcOf = b.svcOf := by
    rw [svcOf_set (b := b) rfl]
    refine Function.update_eq_self_iff.mpr ?_
    simp [Broker.svcOf, fresh]
  have ro := bk.toRoster.register fresh new
  refine ⟨ro, bk.nodup, bk.queueNodup, ?_, ?_⟩
  · rw [svcs]
    exact bk.queueMem
  · rw [svcs]
    exact bk.placed

/-- A worker without a service is not waiting. -/
lemma Book.not_waiting {p : Addr} (e : b.svcOf p = none) : p ∉ b.waiting := by
  intro mem
  have := bk.placed p mem
  simp [e] at this

/-- A worker without a service gets one. -/
lemma Book.assign {p : Addr} {w : Worker} {name : Str} {s : Service} (hw : b.heap p = some w)
    (hn : w.service = none) (hs : b.services name = some s) : Book (b.assign p w name s) := by
  have out : p ∉ b.waiting := bk.not_waiting (by simp [Broker.svcOf, hw, hn])
  have heap : (b.assign p w name s).heap = b.heap.set p { w with service := some name } := rfl
  have svcs := svcOf_set heap
  have queues : (b.assign p w name s).queue = b.queue :=
    queue_setService_same hs { s with workers := s.workers + 1 } rfl
  have ro := bk.toRoster.assign hw hs
  refine ⟨ro, bk.nodup, ?_, ?_, ?_⟩
  · rw [queues]
    exact bk.queueNodup
  · intro n ws e q
    rw [queues] at e
    rw [bk.queueMem n ws e q, svcs]
    refine and_congr_right fun mem => ?_
    have hq : q ≠ p := fun h => out (h ▸ mem)
    rw [Function.update_of_ne hq]
  · intro q mem
    have hq : q ≠ p := fun h => out (h ▸ mem)
    rw [svcs, Function.update_of_ne hq]
    exact bk.placed q mem

/-- A worker is put at the end of both lists. -/
lemma Book.enlist {p : Addr} {w : Worker} {name : Str} {s : Service} (hw : b.heap p = some w)
    (hn : w.service = some name) (hs : b.services name = some s) (out : p ∉ b.waiting) :
    Book (b.enlist clock p w name s) := by
  have svc : b.svcOf p = some name := by simp [Broker.svcOf, hw, hn]
  have queue : b.queue name = some s.waiting := by simp [Broker.queue, hs]
  have svcs : (b.enlist clock p w name s).svcOf = b.svcOf := svcOf_set_same hw rfl rfl
  have queues : (b.enlist clock p w name s).queue =
      Function.update b.queue name (some (s.waiting ++ [p])) := queue_setService b name _
  have ro : Roster (b.enlist clock p w name s) := bk.toRoster.enlist hw
  refine ⟨ro, ?_, ?_, ?_, ?_⟩
  · refine List.nodup_append.mpr ⟨bk.nodup, List.nodup_singleton p, ?_⟩
    intro q mem r mem'
    rw [List.mem_singleton.mp mem']
    exact fun h => out (h ▸ mem)
  · intro n ws e
    rw [queues] at e
    by_cases h : n = name
    · subst h
      rw [Function.update_self] at e
      cases e
      refine List.nodup_append.mpr ⟨bk.queueNodup n _ queue, List.nodup_singleton p, ?_⟩
      intro q mem r mem'
      rw [List.mem_singleton.mp mem']
      exact fun h => out (h ▸ ((bk.queueMem n _ queue q).mp mem).1)
    · rw [Function.update_of_ne h] at e
      exact bk.queueNodup n ws e
  · intro n ws e q
    rw [queues] at e
    rw [svcs]
    have waiting : (b.enlist clock p w name s).waiting = b.waiting ++ [p] := rfl
    rw [waiting, List.mem_append, List.mem_singleton]
    by_cases h : n = name
    · subst h
      rw [Function.update_self] at e
      cases e
      rw [List.mem_append, List.mem_singleton, bk.queueMem n _ queue q]
      constructor
      · rintro (⟨mem, e⟩ | rfl)
        · exact ⟨.inl mem, e⟩
        · exact ⟨.inr rfl, svc⟩
      · rintro ⟨mem | rfl, e⟩
        · exact .inl ⟨mem, e⟩
        · exact .inr rfl
    · rw [Function.update_of_ne h] at e
      rw [bk.queueMem n ws e q]
      constructor
      · exact fun ⟨mem, e⟩ => ⟨.inl mem, e⟩
      · rintro ⟨mem | rfl, e⟩
        · exact ⟨mem, e⟩
        · rw [svc] at e
          cases e
          exact absurd rfl h
  · intro q mem
    rw [svcs]
    obtain mem | mem := List.mem_append.mp mem
    · exact bk.placed q mem
    · rw [List.mem_singleton.mp mem, svc]
      rfl

/-- The list of a service after a deletion. -/
lemma Book.queue_delete {p : Addr} {w : Worker} (hw : b.heap p = some w) (name : Str) :
    (b.delete p w).queue name = (b.queue name).map fun ws => ws.erase p := by
  simp only [Broker.queue, Broker.delete, Broker.unlist]
  split
  · simp [Function.comp_def]
  next h =>
    cases hs : b.services name with
    | none => rfl
    | some s =>
      -- the worker is on the list of its own service only
      have queue : b.queue name = some s.waiting := by simp [Broker.queue, hs]
      have out : p ∉ s.waiting := by
        intro mem
        have := ((bk.queueMem name _ queue p).mp mem).2
        simp only [Broker.svcOf, hw, Option.bind_some] at this
        exact h this
      simp [List.erase_of_not_mem out]

lemma Book.delete {p : Addr} {w : Worker} (hw : b.heap p = some w) : Book (b.delete p w) := by
  have svcs := svcOf_delete b p w
  have waiting : (b.delete p w).waiting = b.waiting.erase p := rfl
  have ro := bk.toRoster.delete hw
  refine ⟨ro, ?_, ?_, ?_, ?_⟩
  · exact bk.nodup.erase p
  · intro name ws e
    rw [bk.queue_delete hw] at e
    obtain ⟨ws, hq, rfl⟩ := Option.map_eq_some_iff.mp e
    exact (bk.queueNodup name ws hq).erase p
  · intro name ws e q
    rw [bk.queue_delete hw] at e
    obtain ⟨ws, hq, rfl⟩ := Option.map_eq_some_iff.mp e
    rw [waiting, (bk.queueNodup name ws hq).mem_erase_iff, bk.nodup.mem_erase_iff,
      bk.queueMem name ws hq q, svcs, and_assoc]
    refine and_congr_right fun hq => ?_
    rw [Function.update_of_ne hq]
  · intro q mem
    rw [waiting, bk.nodup.mem_erase_iff] at mem
    rw [svcs, Function.update_of_ne mem.1]
    exact bk.placed q mem.2

/-- A request is given to the first waiting worker of a service. -/
lemma Book.give {name : Str} {s : Service} {p : Addr} {w : Worker} {waiting : List Addr}
    {r : Request} {requests : List Request} (hs : b.services name = some s)
    (hws : s.waiting = p :: waiting) : Book (b.give clock name s p w waiting r requests) := by
  have queue : b.queue name = some (p :: waiting) := by simp [Broker.queue, hs, hws]
  have nd := bk.queueNodup name _ queue
  obtain ⟨_, svc⟩ := (bk.queueMem name _ queue p).mp (by simp)
  have queues : (b.give clock name s p w waiting r requests).queue =
      Function.update b.queue name (some waiting) := queue_setService b name _
  have hwait : (b.give clock name s p w waiting r requests).waiting = b.waiting.erase p := rfl
  have svcs : (b.give clock name s p w waiting r requests).svcOf = b.svcOf := rfl
  refine ⟨⟨bk.reg, fun q n e => queue_setService_isSome n (bk.svc q n e)⟩, bk.nodup.erase p, ?_,
    ?_, ?_⟩
  · intro n ws e
    rw [queues] at e
    by_cases h : n = name
    · subst h
      rw [Function.update_self] at e
      cases e
      exact (List.nodup_cons.mp nd).2
    · rw [Function.update_of_ne h] at e
      exact bk.queueNodup n ws e
  · intro n ws e q
    rw [queues] at e
    rw [hwait, svcs, bk.nodup.mem_erase_iff]
    by_cases h : n = name
    · subst h
      rw [Function.update_self] at e
      cases e
      have mem := bk.queueMem n _ queue q
      rw [List.mem_cons] at mem
      constructor
      · intro hq
        have ne : q ≠ p := fun h => (List.nodup_cons.mp nd).1 (h ▸ hq)
        exact ⟨⟨ne, (mem.mp (.inr hq)).1⟩, (mem.mp (.inr hq)).2⟩
      · rintro ⟨⟨ne, hq⟩, e⟩
        exact (mem.mpr ⟨hq, e⟩).resolve_left ne
    · rw [Function.update_of_ne h] at e
      rw [bk.queueMem n ws e q]
      constructor
      · rintro ⟨mem, e⟩
        refine ⟨⟨?_, mem⟩, e⟩
        rintro rfl
        rw [svc] at e
        cases e
        exact h rfl
      · exact fun ⟨⟨_, mem⟩, e⟩ => ⟨mem, e⟩
  · intro q mem
    exact bk.placed q (List.mem_of_mem_erase mem)

lemma Book.change {k : Kind} {b' : Broker} (ch : Change clock b k b') : Book b' := by
  cases ch with
  | read => exact bk.congr rfl rfl rfl rfl rfl
  | beat => exact bk.congr rfl rfl rfl rfl rfl
  | send _ => exact bk.congr rfl rfl rfl rfl rfl
  | service hs => exact bk.service hs
  | register fresh new => exact bk.register fresh new
  | assign hw hn hs => exact bk.assign hw hn hs
  | delete hw => exact bk.delete hw
  | accept hs => exact bk.congr rfl rfl rfl rfl (queue_setService_same hs _ rfl)
  | enlist hw hn hs out => exact bk.enlist hw hn hs out
  | refresh hw =>
    exact bk.congr rfl (idOf_set_same hw rfl rfl) (svcOf_set_same hw rfl rfl) rfl rfl
  | give hs hws _ _ => exact bk.give hs hws

end Book

end SweetClib.Majordomo
