import SweetClib.Lib.Run
import SweetClib.Majordomo.Zmsg

/-!
# The simple pirate queue

`lib/zeromq/reliable/spqueue.c` with the workers of `spworker.c`. A worker says that it is ready,
takes a request and sends it back as its reply, over and over, and may crash at any time (`reply`
allows any frames after the address of the client, a worker of `spworker.c` returns those of the
request). The queue keeps a list of the workers it heard from, sends each request to the first one
and each reply to the frontend.

The sockets: that of a worker (`ZMQ_REQ`) puts an empty frame before what it sends and takes it off
what it receives; those of the queue (`ZMQ_ROUTER`) put the identity of the peer before a message
and take it off to find the peer, and drop what is for a peer that is not there. Identities are not
empty. The loop of `main` is a machine with one step for the poll and one for each socket; the poll
looks at the frontend only if there are workers at that time. There is no result where a frame is
read that is not there, or the first byte of an empty frame.

A message that was unwrapped is taken for a `WORKER_READY` if the first byte of its first frame is
that of `WORKER_READY`. In a reply this frame is the identity of the client, so that the replies to
clients whose identity starts with this byte are lost (`reply_taken_for_ready`). Without such
clients no reply is (`simple_pirate_queue`).
-/

namespace SweetClib.Pirate.Simple
open SweetClib.Lib SweetClib.Majordomo

/-- The message `"\001"`. -/
def WORKER_READY : Str := [1]

/-- A worker of `spworker.c`: not there, waiting for a request, or with one. -/
inductive Spworker where
  | away
  | waiting
  | busy (msg : Zmsg)
deriving DecidableEq

/-- Where the loop of the queue is. From the poll on it is known whether the frontend was looked
at. -/
inductive Point where
  | poll
  | backend (polled : Bool)
  | frontend (polled : Bool)
deriving DecidableEq

/-- The queue and the workers, the messages between them, and on the side: the replies workers
sent, whom the queue heard from, what it sent to the frontend and what it discarded, each with the
worker it came from, and the requests it sent, each with the worker it went to. -/
structure Spqueue where
  workers : List Frame
  point : Point
  worker : Frame → Spworker
  up : Frame → List Zmsg
  down : Frame → List Zmsg
  replies : List (Frame × Zmsg)
  received : List Frame
  passed : List (Frame × Zmsg)
  discarded : List (Frame × Zmsg)
  forwarded : List (Frame × Zmsg)

/-- The queue before its loop, without workers. -/
def spqueueNew : Spqueue :=
  { workers := [], point := .poll, worker := fun _ => .away, up := fun _ => [], down := fun _ => [],
    replies := [], received := [], passed := [], discarded := [], forwarded := [] }

/-- The steps of the workers and of the loop, the latter with the worker or the client a message is
from. -/
inductive Action where
  | ready (id : Frame)
  | take (id : Frame)
  | reply (id : Frame) (frames : Zmsg)
  | crash (id : Frame)
  | poll
  | backend (sender : Option Frame)
  | frontend (msg : Option (Frame × Zmsg))

/-- The `main` of `spqueue.c` from the message of a worker on. -/
def spqueueBackend (s : Spqueue) (sender : Frame) (frames : Zmsg) : Option Spqueue := do
  let (identity, msg) ← zmsgUnwrap (sender :: frames)
  let s := { s with workers := s.workers ++ [identity], received := s.received ++ [identity] }
  let frame ← msg.head?
  let byte ← frame.head?
  if byte = 1 then some { s with discarded := s.discarded ++ [(identity, msg)] }
  else some { s with passed := s.passed ++ [(identity, msg)] }

/-- The `main` of `spqueue.c` from the request of a client on. -/
def spqueueFrontend (s : Spqueue) (client : Frame) (frames : Zmsg) : Option Spqueue :=
  match s.workers with
  | [] => none
  | identity :: workers =>
    -- `zmsg_wrap`, without the address that the socket takes off
    let msg := (zmsgWrap (client :: frames) identity).tail
    some { s with
      workers
      down :=
        if s.worker identity = .away then s.down
        else Function.update s.down identity (s.down identity ++ [msg])
      forwarded := s.forwarded ++ [(identity, client :: frames)] }

/-- A step. -/
def spqueueStep (s : Spqueue) : Action → Option Spqueue
  | .ready id =>
    if s.worker id = .away then
      some { s with worker := Function.update s.worker id .waiting
                    up := Function.update s.up id (s.up id ++ [[[], WORKER_READY]]) }
    else none
  | .take id =>
    match s.worker id, s.down id with
    | .waiting, ([] :: msg) :: rest =>
      some { s with
        worker := Function.update s.worker id (.busy msg), down := Function.update s.down id rest }
    | _, _ => none
  | .reply id frames =>
    match s.worker id with
    | .busy (client :: _) =>
      some { s with worker := Function.update s.worker id .waiting
                    up := Function.update s.up id (s.up id ++ [[] :: client :: frames])
                    replies := s.replies ++ [(id, client :: frames)] }
    | _ => none
  | .crash id =>
    some { s with
      worker := Function.update s.worker id .away, down := Function.update s.down id [] }
  | .poll =>
    if s.point = .poll then some { s with point := .backend (!s.workers.isEmpty) } else none
  | .backend sender =>
    match s.point, sender with
    | .backend polled, none => some { s with point := .frontend polled }
    | .backend polled, some id =>
      match s.up id with
      | [] => none
      | msg :: rest =>
        spqueueBackend { s with point := .frontend polled, up := Function.update s.up id rest }
          id msg
    | _, _ => none
  | .frontend msg =>
    match s.point, msg with
    | .frontend _, none => some { s with point := .poll }
    | .frontend true, some (client, frames) =>
      if client = [] then none else spqueueFrontend { s with point := .poll } client frames
    | _, _ => none

/-- The transitions. -/
def SpTrans (s : Spqueue) (a : Action) (s' : Spqueue) : Prop :=
  spqueueStep s a = some s'

/-- A request is not from a client whose identity starts with the byte of `WORKER_READY`. -/
def PlainClient : Action → Prop
  | .frontend (some (client, _)) => client.head? ≠ some 1
  | _ => True

/-- The steps the loop comes to: those of its point, with a request only if the frontend was
polled. -/
def Due (s : Spqueue) : Action → Prop
  | .poll => s.point = .poll
  | .backend none => ∃ polled, s.point = .backend polled
  | .backend (some id) => (∃ polled, s.point = .backend polled) ∧ s.up id ≠ []
  | .frontend none => ∃ polled, s.point = .frontend polled
  | .frontend (some (client, _)) => s.point = .frontend true ∧ client ≠ []
  | _ => False

/-- The reply in a message of a worker. -/
def replyIn : Zmsg → Option Zmsg
  | [] :: msg => if msg = [WORKER_READY] then none else some msg
  | _ => none

/-- What is from or for one worker. -/
def of (id : Frame) (log : List (Frame × Zmsg)) : List Zmsg :=
  (log.filter (·.1 = id)).map Prod.snd

/-- A message that starts with an identity that is not empty and does not start with the byte of
`WORKER_READY`. -/
def Addressed (msg : Zmsg) : Prop :=
  ∃ byte client frames, msg = (byte :: client) :: frames ∧ byte ≠ 1

/-- What a worker sends. -/
def FromWorker (m : Zmsg) : Prop :=
  m = [[], WORKER_READY] ∨ ∃ msg, m = [] :: msg ∧ Addressed msg

/-- The invariant. -/
structure SpInv (s : Spqueue) : Prop where
  polled : s.point = .backend true ∨ s.point = .frontend true → s.workers ≠ []
  addressed : ∀ e ∈ s.forwarded, Addressed e.2
  busy : ∀ id msg, s.worker id = .busy msg → (id, msg) ∈ s.forwarded
  down : ∀ id, ∀ m ∈ s.down id, ∃ msg, m = [] :: msg ∧ (id, msg) ∈ s.forwarded
  up : ∀ id, ∀ m ∈ s.up id, FromWorker m
  answers : ∀ e ∈ s.replies, ∃ client frames request, e.2 = client :: frames ∧
    (e.1, client :: request) ∈ s.forwarded
  replies : ∀ id, of id s.replies = of id s.passed ++ (s.up id).filterMap replyIn
  discarded : ∀ e ∈ s.discarded, e.2 = [WORKER_READY]
  received :
    (s.passed.map Prod.fst : Multiset Frame) + (s.discarded.map Prod.fst : Multiset Frame) =
      s.received
  credit : (s.forwarded.map Prod.fst : Multiset Frame) + s.workers = s.received

section Steps

variable {s s' : Spqueue} {a : Action} {id : Frame} {msg : Zmsg}

@[simp] lemma of_append (id : Frame) (log : List (Frame × Zmsg)) (e : Frame × Zmsg) :
    of id (log ++ [e]) = of id log ++ if e.1 = id then [e.2] else [] := by
  by_cases h : e.1 = id <;> simp [of, h]

/-- What is addressed is not taken for a `WORKER_READY`. -/
lemma Addressed.replyIn (addressed : Addressed msg) : replyIn ([] :: msg) = some msg := by
  obtain ⟨byte, client, frames, rfl, ne⟩ := addressed
  refine if_neg fun e => ne ?_
  simp only [WORKER_READY, List.cons.injEq] at e
  exact e.1.1

/-- A new message from a worker is a reply or none. -/
lemma filterMap_up (up : Frame → List Zmsg) (id id' : Frame) (m : Zmsg) :
    (Function.update up id (up id ++ [m]) id').filterMap replyIn =
      (up id').filterMap replyIn ++ if id = id' then (replyIn m).toList else [] := by
  by_cases h : id = id'
  · subst h
    rw [Function.update_self, List.filterMap_append, if_pos rfl]
    cases h : replyIn m <;> simp [h]
  · rw [Function.update_of_ne (Ne.symm h), if_neg h, List.append_nil]

/-- Reading the first message of a socket takes its reply, if it is one, from those under way. -/
lemma filterMap_rest {up : Frame → List Zmsg} {m : Zmsg} {rest : List Zmsg}
    (head : up id = m :: rest) (id' : Frame) :
    (up id').filterMap replyIn = (if id = id' then (replyIn m).toList else []) ++
      (Function.update up id rest id').filterMap replyIn := by
  by_cases h : id = id'
  · subst h
    rw [Function.update_self, head, if_pos rfl]
    cases h : replyIn m <;> simp [h]
  · rw [Function.update_of_ne (Ne.symm h), if_neg h, List.nil_append]

lemma SpInv.up_update (inv : SpInv s) {ms : List Zmsg} (all : ∀ m ∈ ms, FromWorker m) :
    ∀ id', ∀ m ∈ Function.update s.up id ms id', FromWorker m :=
  (Function.forall_update_iff s.up fun _ ms => ∀ m ∈ ms, FromWorker m).mpr
    ⟨all, fun id' _ => inv.up id'⟩

/-- What is left to read is as it was. -/
lemma SpInv.up_rest (inv : SpInv s) {m : Zmsg} {rest : List Zmsg} (head : s.up id = m :: rest) :
    ∀ id', ∀ m' ∈ Function.update s.up id rest id', FromWorker m' :=
  inv.up_update fun m' mem => inv.up id m' (head ▸ List.mem_cons_of_mem _ mem)

/-- The message of a worker is told apart: its reply is passed on, and only `WORKER_READY` is
discarded. -/
lemma SpInv.backend (inv : SpInv s) {m : Zmsg} {rest : List Zmsg} (head : s.up id = m :: rest)
    (polled : Bool) :
    ∃ s', spqueueBackend { s with point := .frontend polled, up := Function.update s.up id rest } id
      m = some s' ∧
      SpInv s' := by
  have credit :
    (s.forwarded.map Prod.fst : Multiset Frame) +
    ((s.workers ++ [id] : List Frame) : Multiset Frame) =
      (s.received ++ [id] : List Frame) := by
    rw [← Multiset.coe_add, ← Multiset.coe_add, ← add_assoc, inv.credit]
  obtain rfl | ⟨msg, rfl, addressed⟩ := inv.up id m (head ▸ List.mem_cons_self)
  · refine ⟨_, rfl,
      ⟨fun _ => by simp, inv.addressed, inv.busy, inv.down, inv.up_rest head, inv.answers, ?_, ?_,
          ?_, credit⟩⟩
    · intro id'
      rw [inv.replies id', filterMap_rest head id']
      simp [replyIn]
    · intro e mem
      obtain mem | mem := List.mem_append.mp mem
      · exact inv.discarded e mem
      · rw [List.mem_singleton.mp mem]
    · rw [List.map_append, ← Multiset.coe_add, ← Multiset.coe_add, ← add_assoc, inv.received]
      rfl
  · obtain ⟨byte, client, frames, rfl, ne⟩ := addressed
    have pass :
      spqueueBackend { s with point := .frontend polled, up := Function.update s.up id rest } id
        ([] :: (byte :: client) :: frames) = some _ := if_neg ne
    refine ⟨_, pass,
      ⟨fun _ => by simp, inv.addressed, inv.busy, inv.down, inv.up_rest head, inv.answers, ?_,
          inv.discarded, ?_, credit⟩⟩
    · intro id'
      have reply := Addressed.replyIn ⟨byte, client, frames, rfl, ne⟩
      rw [inv.replies id', filterMap_rest head id', of_append, reply]
      simp
    · rw [List.map_append, ← Multiset.coe_add, ← Multiset.coe_add, add_right_comm, inv.received]
      rfl

/-- A request goes to the first worker on the list. -/
lemma SpInv.frontend (inv : SpInv s) (some_worker : s.workers ≠ []) {client : Frame} {frames : Zmsg}
    (addressed : Addressed (client :: frames)) :
    ∃ s', spqueueFrontend { s with point := .poll } client frames = some s' ∧ SpInv s' := by
  cases first : s.workers with
  | nil => exact absurd first some_worker
  | cons identity workers =>
    have old : ∀ {e}, e ∈ s.forwarded → e ∈ s.forwarded ++ [(identity, client :: frames)] :=
      fun mem =>
      List.mem_append_left _ mem
    simp only [spqueueFrontend]
    refine ⟨_, rfl, ?_⟩
    refine ⟨by simp, ?_, fun id msg h => old (inv.busy id msg h), ?_, inv.up, ?_, inv.replies,
      inv.discarded, inv.received, ?_⟩
    · intro e mem
      obtain mem | mem := List.mem_append.mp mem
      · exact inv.addressed e mem
      · rw [List.mem_singleton.mp mem]
        exact addressed
    · intro id m mem
      have before : ∀ m ∈ s.down id, ∃ msg, m = [] :: msg ∧
          (id, msg) ∈ s.forwarded ++ [(identity, client :: frames)] := by
        intro m mem
        obtain ⟨msg, e, sent⟩ := inv.down id m mem
        exact ⟨msg, e, old sent⟩
      simp only at mem
      split at mem
      · exact before m mem
      · rcases eq_or_ne id identity with rfl | ne
        · rw [Function.update_self] at mem
          obtain mem | mem := List.mem_append.mp mem
          · exact before m mem
          · exact ⟨client :: frames, List.mem_singleton.mp mem, by simp⟩
        · rw [Function.update_of_ne ne] at mem
          exact before m mem
    · intro e mem
      obtain ⟨client', frames', request, eq, sent⟩ := inv.answers e mem
      exact ⟨client', frames', request, eq, old sent⟩
    · rw [← inv.credit, first, List.map_append, ← Multiset.coe_add, add_assoc]
      rfl

lemma SpInv.up_new (inv : SpInv s) {m : Zmsg} (new : FromWorker m) :
    ∀ id', ∀ m' ∈ Function.update s.up id (s.up id ++ [m]) id', FromWorker m' := by
  refine inv.up_update fun m' mem => ?_
  obtain mem | mem := List.mem_append.mp mem
  · exact inv.up id m' mem
  · exact List.mem_singleton.mp mem ▸ new

lemma SpInv.busy_update (inv : SpInv s) {w : Spworker}
    (new : ∀ msg, w = .busy msg → (id, msg) ∈ s.forwarded) :
    ∀ id' msg, Function.update s.worker id w id' = .busy msg → (id', msg) ∈ s.forwarded :=
  (Function.forall_update_iff s.worker fun id' w => ∀ msg, w = .busy msg →
    (id', msg) ∈ s.forwarded).mpr
    ⟨new, fun id' _ => inv.busy id'⟩

/-- Less is under way to a worker. -/
lemma SpInv.down_update (inv : SpInv s) {rest : List Zmsg} (less : ∀ m ∈ rest, m ∈ s.down id) :
    ∀ id', ∀ m ∈ Function.update s.down id rest id', ∃ msg, m = [] :: msg ∧
      (id', msg) ∈ s.forwarded :=
  (Function.forall_update_iff s.down fun id' ms => ∀ m ∈ ms, ∃ msg, m = [] :: msg ∧
    (id', msg) ∈ s.forwarded).mpr
    ⟨fun m mem => inv.down id m (less m mem), fun id' _ => inv.down id'⟩

/-- A worker reports that it is ready. -/
lemma SpInv.ready (inv : SpInv s) (id : Frame) :
    SpInv { s with worker := Function.update s.worker id .waiting
                   up := Function.update s.up id (s.up id ++ [[[], WORKER_READY]]) } where
  polled := inv.polled
  addressed := inv.addressed
  busy := inv.busy_update nofun
  down := inv.down
  up := inv.up_new (.inl rfl)
  answers := inv.answers
  replies id' := by
    rw [inv.replies id', filterMap_up]
    simp [replyIn]
  discarded := inv.discarded
  received := inv.received
  credit := inv.credit

lemma SpInv.take (inv : SpInv s) {rest : List Zmsg} (head : s.down id = ([] :: msg) :: rest) :
    SpInv { s with
      worker := Function.update s.worker id (.busy msg),
      down := Function.update s.down id rest } where
  polled := inv.polled
  addressed := inv.addressed
  busy := by
    refine inv.busy_update fun msg' e => ?_
    cases e
    obtain ⟨msg', e, sent⟩ := inv.down id ([] :: msg) (head ▸ List.mem_cons_self)
    cases e
    exact sent
  down := inv.down_update fun m mem => head ▸ List.mem_cons_of_mem _ mem
  up := inv.up
  answers := inv.answers
  replies := inv.replies
  discarded := inv.discarded
  received := inv.received
  credit := inv.credit

lemma SpInv.reply (inv : SpInv s) {client : Frame} {request : Zmsg}
    (busy : s.worker id = .busy (client :: request)) (frames : Zmsg) :
    SpInv { s with worker := Function.update s.worker id .waiting
                   up := Function.update s.up id (s.up id ++ [[] :: client :: frames])
                   replies := s.replies ++ [(id, client :: frames)] } := by
  have sent := inv.busy id _ busy
  have addressed : Addressed (client :: frames) := by
    obtain ⟨byte, client, _, e, ne⟩ := inv.addressed _ sent
    cases e
    exact ⟨byte, client, frames, rfl, ne⟩
  refine ⟨inv.polled, inv.addressed, inv.busy_update nofun, inv.down,
    inv.up_new (.inr ⟨_, rfl, addressed⟩), ?_, ?_, inv.discarded, inv.received, inv.credit⟩
  · intro e mem
    obtain mem | mem := List.mem_append.mp mem
    · exact inv.answers e mem
    · rw [List.mem_singleton.mp mem]
      exact ⟨client, frames, request, rfl, sent⟩
  · intro id'
    rw [of_append, inv.replies id', filterMap_up, addressed.replyIn]
    simp

/-- A worker is gone, with what was under way to it. -/
lemma SpInv.crash (inv : SpInv s) (id : Frame) :
    SpInv { s with
      worker := Function.update s.worker id .away, down := Function.update s.down id [] } where
  polled := inv.polled
  addressed := inv.addressed
  busy := inv.busy_update nofun
  down := inv.down_update nofun
  up := inv.up
  answers := inv.answers
  replies := inv.replies
  discarded := inv.discarded
  received := inv.received
  credit := inv.credit

/-- The loop goes on to a point where it is known that there are workers, or it does not matter. -/
lemma SpInv.goto (inv : SpInv s) {point : Point}
    (polled : point = .backend true ∨ point = .frontend true → s.workers ≠ []) :
    SpInv { s with point } :=
  ⟨polled, inv.addressed, inv.busy, inv.down, inv.up, inv.answers, inv.replies, inv.discarded,
    inv.received, inv.credit⟩

/-- A client whose identity is not empty and does not start with the byte. -/
lemma addressed_of_plain {client : Frame} {frames : Zmsg} (some_byte : client ≠ [])
    (plain : client.head? ≠ some 1) : Addressed (client :: frames) := by
  cases client with
  | nil => exact absurd rfl some_byte
  | cons byte client => exact ⟨byte, client, frames, rfl, by simpa using plain⟩

lemma SpInv.step (inv : SpInv s) (plain : PlainClient a) (st : SpTrans s a s') : SpInv s' := by
  cases a with
  | ready id =>
    obtain ⟨_, st⟩ := Option.ite_none_right_eq_some.mp st
    cases st
    exact inv.ready id
  | take id =>
    simp only [SpTrans, spqueueStep] at st
    split at st
    next waiting head =>
      cases st
      exact inv.take head
    next => cases st
  | reply id frames =>
    simp only [SpTrans, spqueueStep] at st
    split at st
    next busy =>
      cases st
      exact inv.reply busy frames
    next => cases st
  | crash id =>
    cases st
    exact inv.crash id
  | poll =>
    obtain ⟨_, st⟩ := Option.ite_none_right_eq_some.mp st
    cases st
    exact inv.goto (by simp)
  | backend sender =>
    simp only [SpTrans, spqueueStep] at st
    split at st
    next polled point =>
      cases st
      refine inv.goto ?_
      simpa using fun h => inv.polled (.inl (by rw [point, h]))
    next polled id point =>
      split at st
      next => cases st
      next msg rest head =>
        obtain ⟨s₁, e, inv'⟩ := inv.backend head polled
        rw [e] at st
        cases st
        exact inv'
    next => cases st
  | frontend msg =>
    simp only [SpTrans, spqueueStep] at st
    split at st
    next =>
      cases st
      exact inv.goto (by simp)
    next client frames point =>
      obtain ⟨some_byte, st⟩ := Option.ite_none_left_eq_some.mp st
      obtain ⟨s₁, e, inv'⟩ :=
        inv.frontend (inv.polled (.inr point)) (addressed_of_plain some_byte plain)
      rw [e] at st
      cases st
      exact inv'
    next => cases st

lemma SpInv.new : SpInv spqueueNew where
  polled := by simp [spqueueNew]
  addressed := nofun
  busy := nofun
  down := nofun
  up := nofun
  answers := nofun
  replies _ := rfl
  discarded := nofun
  received := rfl
  credit := rfl

/-- The loop takes every step it comes to. -/
lemma SpInv.due (inv : SpInv s) (plain : PlainClient a) (due : Due s a) :
    ∃ s', spqueueStep s a = some s' := by
  cases a with
  | poll =>
    have point : s.point = .poll := due
    exact ⟨_, if_pos point⟩
  | backend sender =>
    cases sender with
    | none =>
      obtain ⟨polled, point⟩ := due
      simp only [spqueueStep, point]
      exact ⟨_, rfl⟩
    | some id =>
      obtain ⟨⟨polled, point⟩, some_msg⟩ := due
      obtain ⟨m, rest, head⟩ := List.exists_cons_of_ne_nil some_msg
      obtain ⟨s', e, _⟩ := inv.backend head polled
      refine ⟨s', ?_⟩
      simp only [spqueueStep, point, head]
      exact e
  | frontend msg =>
    cases msg with
    | none =>
      obtain ⟨polled, point⟩ := due
      simp only [spqueueStep, point]
      exact ⟨_, rfl⟩
    | some msg =>
      obtain ⟨point, some_byte⟩ := due
      obtain ⟨s', e, _⟩ :=
        inv.frontend (inv.polled (.inr point)) (addressed_of_plain some_byte plain)
      refine ⟨s', ?_⟩
      simp only [spqueueStep, point]
      rw [if_neg some_byte]
      exact e
  | _ => exact due.elim

end Steps

/-- What is asked of a state: each worker's replies are those the queue sent to the frontend and
those it has not read, in their order; a reply is addressed to the client of a request sent to that
worker; what the queue read was sent to the frontend or discarded, and the latter are
`WORKER_READY`; no worker was sent more requests than messages came from it; and the loop takes
every step it comes to. -/
structure Relayed (s : Spqueue) : Prop where
  replies : ∀ id, of id s.replies = of id s.passed ++ (s.up id).filterMap replyIn
  answers : ∀ e ∈ s.replies, ∃ client frames request, e.2 = client :: frames ∧
    (e.1, client :: request) ∈ s.forwarded
  received :
    (s.passed.map Prod.fst : Multiset Frame) + (s.discarded.map Prod.fst : Multiset Frame) =
      s.received
  discarded : ∀ e ∈ s.discarded, e.2 = [WORKER_READY]
  credit : ∀ id, (s.forwarded.map Prod.fst).count id ≤ s.received.count id
  served : ∀ a, PlainClient a → Due s a → ∃ s', spqueueStep s a = some s'

/-- In every run without a client whose identity starts with the byte of `WORKER_READY`, no reply
is lost. -/
theorem simple_pirate_queue : ∀ tr s,
    Run (fun s a s' => PlainClient a ∧ SpTrans s a s') spqueueNew tr s → Relayed s := by
  intro tr s run
  have inv : SpInv s := run.invariant SpInv .new fun _ _ _ inv st => inv.step st.1 st.2
  refine ⟨inv.replies, inv.answers, inv.received, inv.discarded, fun id => ?_,
    fun a plain due => inv.due plain due⟩
  have credit : (s.forwarded.map Prod.fst : Multiset Frame) ≤ s.received :=
    inv.credit ▸ Multiset.le_add_right _ _
  exact (Multiset.coe_le.mp credit).count_le id

/-- A worker serves the request of a client with identity `"C"`. -/
theorem simple_pirate_queue_one : ∃ s,
    Run (fun s a s' => PlainClient a ∧ SpTrans s a s') spqueueNew
      [.backend (some [65]), .poll, .reply [65] [[], [120]], .take [65],
        .frontend (some ([67], [[], [120]])),
        .backend none, .poll, .frontend none, .backend (some [65]), .poll, .ready [65]] s ∧
    s.passed = [([65], [[67], [], [120]])] ∧ Relayed s := by
  have run : Run (fun s a s' => PlainClient a ∧ SpTrans s a s') spqueueNew
      [.backend (some [65]), .poll, .reply [65] [[], [120]], .take [65],
        .frontend (some ([67], [[], [120]])),
        .backend none, .poll, .frontend none, .backend (some [65]), .poll, .ready [65]] _ :=
    .cons (.cons (.cons (.cons (.cons (.cons (.cons (.cons (.cons (.cons (.cons .nil
      ⟨trivial, rfl⟩) ⟨trivial, rfl⟩) ⟨trivial, rfl⟩) ⟨trivial, rfl⟩) ⟨trivial, rfl⟩)
        ⟨trivial, rfl⟩)
      ⟨by simp [PlainClient], rfl⟩) ⟨trivial, rfl⟩) ⟨trivial, rfl⟩) ⟨trivial, rfl⟩) ⟨trivial, rfl⟩
  exact ⟨_, run, rfl, simple_pirate_queue _ _ run⟩

/-- The same for a client whose identity is the byte 1 and `"C"`: the queue reads the reply and
discards it. -/
theorem reply_taken_for_ready : ∃ s,
    Run SpTrans spqueueNew
      [.backend (some [65]), .poll, .reply [65] [[], [120]], .take [65],
        .frontend (some ([1, 67], [[], [120]])),
        .backend none, .poll, .frontend none, .backend (some [65]), .poll, .ready [65]] s ∧
    s.replies = [([65], [[1, 67], [], [120]])] ∧ s.up [65] = [] ∧ s.passed = [] ∧
    ([65], [[1, 67], [], [120]]) ∈ s.discarded :=
  ⟨_, .cons (.cons (.cons (.cons (.cons (.cons (.cons (.cons (.cons (.cons (.cons .nil
    rfl) rfl) rfl) rfl) rfl) rfl) rfl) rfl) rfl) rfl) rfl, rfl, rfl, rfl, .tail _ (.head _)⟩

end SweetClib.Pirate.Simple
