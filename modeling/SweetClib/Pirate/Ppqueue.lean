import SweetClib.Lib.Run
import SweetClib.Majordomo.Zmsg

/-!
# The paranoid pirate queue

`lib/zeromq/reliable/ppqueue.c`: a queue between clients and workers that keeps a list of the
workers it heard from, the least recent first, drops those whose time is up and sends each request
to the first one. The list of pointers is a list of workers here, and `s_worker_destroy` releases
the worker it is given (it is written without the dereference). `zlist_size(worker)` in the call of
`zmq_poll` is read as `zlist_size(workers)`; the timeout that is missing there can be anything.

The loop of `main` is a machine with one step for the poll, one for each socket, one for the
heartbeats and one for the purge, so that its states are those between these. The poll looks at the
frontend only if there are workers at that time. The `n`-th call of `zclock_time` returns `clock
n`, and `reads` counts the calls. Where the assert fails, the model has no result. Of what is read
from a worker, the first byte of a message of one frame only decides what is printed.

C → Lean naming:
* `s_worker_new` → `sWorkerNew`, `s_worker_ready` → `sWorkerReady`
* `s_workers_next` → `sWorkersNext`, `s_workers_purge` → `sWorkersPurge`
* the loop of `main` → `ppqueueStep`
-/

namespace SweetClib.Pirate
open SweetClib.Lib SweetClib.Majordomo

def HEARTBEAT_LIVENESS : Nat := 3
def HEARTBEAT_INTERVAL : Nat := 1000

/-- A worker on the list (C `worker_t`). -/
structure Worker where
  identity : Frame
  idString : Str
  expiry : Nat
deriving DecidableEq

/-- A worker that was just heard from (C `s_worker_new`). -/
def sWorkerNew (now : Nat) (identity : Frame) : Worker :=
  { identity, idString := zframeStrhex identity,
    expiry := now + HEARTBEAT_INTERVAL * HEARTBEAT_LIVENESS }

/-- Put a worker last, in the place of an entry with its name (C `s_worker_ready`). -/
def sWorkerReady (self : Worker) (workers : List Worker) : List Worker :=
  workers.eraseP (fun worker => self.idString = worker.idString) ++ [self]

/-- Take the first worker (C `s_workers_next`). -/
def sWorkersNext : List Worker → Option (Frame × List Worker)
  | [] => none
  | worker :: workers => some (worker.identity, workers)

/-- Drop workers from the front until one has not expired (C `s_workers_purge`). -/
def sWorkersPurge (clock : Nat → Nat) : List Worker → Nat → List Worker × Nat
  | [], reads => ([], reads)
  | worker :: workers, reads =>
    if clock reads < worker.expiry then (worker :: workers, reads + 1)
    else sWorkersPurge clock workers (reads + 1)

/-- Where the loop is. From the poll on it is known whether the frontend was looked at. -/
inductive Point where
  | poll
  | backend (polled : Bool)
  | frontend (polled : Bool)
  | heartbeat
  | purge
deriving DecidableEq

/-- A message sent to a worker through the backend. -/
inductive Sent where
  | request (identity : Frame) (msg : Zmsg)
  | heartbeat (identity : Frame)
deriving DecidableEq

/-- The request in a message to a worker. -/
def Sent.request? : Sent → Option (Frame × Zmsg)
  | .request identity msg => some (identity, msg)
  | .heartbeat _ => none

/-- The program: its variables, where it is, and on the side whom it heard from, which requests it
read and what it sent. -/
structure Ppqueue where
  workers : List Worker
  heartbeatAt : Nat
  reads : Nat
  point : Point
  received : List Frame
  requests : List Zmsg
  frontend : List Zmsg
  backend : List Sent

/-- The program before the loop. -/
def ppqueueNew (clock : Nat → Nat) : Ppqueue :=
  { workers := [], heartbeatAt := clock 0 + HEARTBEAT_INTERVAL, reads := 1, point := .poll,
    received := [], requests := [], frontend := [], backend := [] }

/-- The steps of the loop, with the messages found: from a worker of some identity, from a
client. -/
inductive Action where
  | poll
  | backend (msg : Option (Frame × Zmsg))
  | frontend (msg : Option Zmsg)
  | heartbeat
  | purge

/-- A step of the loop. -/
def ppqueueStep (clock : Nat → Nat) (s : Ppqueue) (a : Action) : Option Ppqueue :=
  match a, s.point with
  | .poll, .poll => some { s with point := .backend (!s.workers.isEmpty) }
  | .backend none, .backend polled => some { s with point := .frontend polled }
  | .backend (some (sender, frames)), .backend polled => do
    let (identity, msg) ← zmsgUnwrap (sender :: frames)
    let worker := sWorkerNew (clock s.reads) identity
    some { s with
      workers := sWorkerReady worker s.workers
      reads := s.reads + 1
      point := .frontend polled
      received := s.received ++ [identity]
      -- a message without frames is not sent
      frontend := if msg.length ≤ 1 then s.frontend else s.frontend ++ [msg] }
  | .frontend none, .frontend _ => some { s with point := .heartbeat }
  | .frontend (some msg), .frontend true => do
    let (identity, workers) ← sWorkersNext s.workers
    some { s with
      workers
      point := .heartbeat
      requests := s.requests ++ [msg]
      backend := s.backend ++ [.request identity msg] }
  | .heartbeat, .heartbeat =>
    if s.heartbeatAt ≤ clock s.reads then
      some { s with
        heartbeatAt := clock (s.reads + 1) + HEARTBEAT_INTERVAL
        reads := s.reads + 2
        point := .purge
        backend := s.backend ++ s.workers.map fun worker => .heartbeat worker.identity }
    else some { s with reads := s.reads + 1, point := .purge }
  | .purge, .purge =>
    let (workers, reads) := sWorkersPurge clock s.workers s.reads
    some { s with workers, reads, point := .poll }
  | _, _ => none

/-- The transitions of the program. -/
def PpTrans (clock : Nat → Nat) (s : Ppqueue) (a : Action) (s' : Ppqueue) : Prop :=
  ppqueueStep clock s a = some s'

/-- The steps the loop comes to: those of its point, with a request only if the frontend was
polled. -/
def Due (s : Ppqueue) : Action → Prop
  | .poll => s.point = .poll
  | .backend _ => ∃ polled, s.point = .backend polled
  | .frontend none => ∃ polled, s.point = .frontend polled
  | .frontend (some _) => s.point = .frontend true
  | .heartbeat => s.point = .heartbeat
  | .purge => s.point = .purge

/-- The requests sent, each with the worker it went to. -/
def forwarded (s : Ppqueue) : List (Frame × Zmsg) :=
  s.backend.filterMap Sent.request?

section Workers

variable {clock : Nat → Nat} {self w : Worker} {workers : List Worker}

/-- Different names on the list. -/
def Distinct (workers : List Worker) : Prop :=
  workers.Pairwise fun w w' => w.idString ≠ w'.idString

/-- The list is in the order of expiry. -/
def InOrder (workers : List Worker) : Prop :=
  workers.Pairwise fun w w' => w.expiry ≤ w'.expiry

/-- Without the first entry of a name there is none of that name. -/
lemma Distinct.eraseP (distinct : Distinct workers)
    (mem : w ∈ workers.eraseP (self.idString = ·.idString)) : w.idString ≠ self.idString := by
  induction workers with
  | nil => cases mem
  | cons head workers ih =>
    obtain ⟨others, distinct⟩ := List.pairwise_cons.mp distinct
    by_cases same : self.idString = head.idString
    · rw [List.eraseP_cons_of_pos (by simpa using same)] at mem
      rw [same]
      exact (others w mem).symm
    · rw [List.eraseP_cons_of_neg (by simpa using same)] at mem
      obtain rfl | mem := List.mem_cons.mp mem
      · exact fun e => same e.symm
      · exact ih distinct mem

/-- A worker that reports is on the list once. -/
lemma sWorkerReady_distinct (distinct : Distinct workers) :
    Distinct (sWorkerReady self workers) := by
  refine List.pairwise_append.mpr
    ⟨distinct.sublist List.eraseP_sublist, List.pairwise_singleton _ _, ?_⟩
  intro w mem w' mem'
  rw [List.mem_singleton.mp mem']
  exact distinct.eraseP mem

/-- A worker whose expiry is the latest goes to the end. -/
lemma sWorkerReady_inOrder (order : InOrder workers)
    (latest : ∀ w ∈ workers, w.expiry ≤ self.expiry) : InOrder (sWorkerReady self workers) := by
  refine List.pairwise_append.mpr
    ⟨order.sublist List.eraseP_sublist, List.pairwise_singleton _ _, ?_⟩
  intro w mem w' mem'
  rw [List.mem_singleton.mp mem']
  exact latest w (List.eraseP_subset mem)

/-- What is left of the list is its end, and the last reading of the clock was before its times. -/
lemma sWorkersPurge_spec (clock : Nat → Nat) (order : InOrder workers) (reads : Nat) :
    (sWorkersPurge clock workers reads).1 <:+ workers ∧
      reads ≤ (sWorkersPurge clock workers reads).2 ∧
      ∀ w ∈ (sWorkersPurge clock workers reads).1,
        clock ((sWorkersPurge clock workers reads).2 - 1) < w.expiry := by
  induction workers generalizing reads with
  | nil => exact ⟨List.suffix_rfl, le_rfl, nofun⟩
  | cons head workers ih =>
    obtain ⟨later, order⟩ := List.pairwise_cons.mp order
    unfold sWorkersPurge
    split
    next alive =>
      refine ⟨List.suffix_rfl, Nat.le_succ reads, fun w mem => ?_⟩
      obtain rfl | mem := List.mem_cons.mp mem
      · exact alive
      · exact alive.trans_le (later w mem)
    next expired =>
      obtain ⟨suffix, more, past⟩ := ih order (reads + 1)
      exact ⟨suffix.trans (List.suffix_cons head workers), (Nat.le_succ reads).trans more, past⟩

end Workers

/-- The invariant of the loop. -/
structure PpInv (clock : Nat → Nat) (s : Ppqueue) : Prop where
  distinct : Distinct s.workers
  order : InOrder s.workers
  recent : ∀ w ∈ s.workers, ∀ i, s.reads ≤ i →
    w.expiry ≤ clock i + HEARTBEAT_INTERVAL * HEARTBEAT_LIVENESS
  polled : s.point = .backend true ∨ s.point = .frontend true → s.workers ≠ []
  once : (forwarded s).map Prod.snd = s.requests
  credit :
    ((forwarded s).map Prod.fst : Multiset Frame) +
    (s.workers.map Worker.identity : Multiset Frame) ≤ s.received

section Steps

variable {clock : Nat → Nat} {s s' : Ppqueue} {a : Action}

/-- A step that drops workers or none, reads no message and sends no request. -/
lemma PpInv.quiet (inv : PpInv clock s) (less : s'.workers.Sublist s.workers)
    (reads : s.reads ≤ s'.reads)
    (polled : s'.point = .backend true ∨ s'.point = .frontend true → s'.workers ≠ [])
    (sent : forwarded s' = forwarded s) (requests : s'.requests = s.requests)
    (received : s'.received = s.received) : PpInv clock s' where
  distinct := inv.distinct.sublist less
  order := inv.order.sublist less
  recent w mem i later := inv.recent w (less.subset mem) i (reads.trans later)
  polled := polled
  once := by rw [sent, requests, inv.once]
  credit := by
    rw [sent, received]
    refine le_trans ?_ inv.credit
    gcongr
    exact Multiset.coe_le.mpr (less.map _).subperm

/-- A message from a worker moves it to the end of the list. -/
lemma PpInv.ready (inv : PpInv clock s) (mono : Monotone clock) {identity : Frame} {polled : Bool}
    {frontend : List Zmsg} :
    PpInv clock { s with workers := sWorkerReady (sWorkerNew (clock s.reads) identity) s.workers,
                         reads := s.reads + 1, point := .frontend polled,
                         received := s.received ++ [identity], frontend } where
  distinct := sWorkerReady_distinct inv.distinct
  order := sWorkerReady_inOrder inv.order fun w mem => inv.recent w mem s.reads le_rfl
  recent := by
    intro w mem i later
    have later : s.reads + 1 ≤ i := later
    obtain mem | mem := List.mem_append.mp mem
    · exact inv.recent w (List.eraseP_subset mem) i (by omega)
    · rw [List.mem_singleton.mp mem]
      have le : clock s.reads ≤ clock i := mono (by omega)
      exact Nat.add_le_add_right le _
  polled _ := by simp [sWorkerReady]
  once := inv.once
  credit := by
    simp only [sWorkerReady, List.map_append, ← Multiset.coe_add, ← add_assoc]
    refine add_le_add (le_trans ?_ inv.credit) le_rfl
    apply add_le_add (le_refl ((forwarded s).map Prod.fst : Multiset Frame))
    exact Multiset.coe_le.mpr (List.eraseP_sublist.map Worker.identity).subperm

/-- A request goes to the first worker, which leaves the list. -/
lemma PpInv.request (inv : PpInv clock s) {head : Worker} {workers : List Worker}
    (first : s.workers = head :: workers) (msg : Zmsg) :
    PpInv clock { s with workers, point := .heartbeat, requests := s.requests ++ [msg],
                         backend := s.backend ++ [.request head.identity msg] } where
  distinct := (List.pairwise_cons.mp (first ▸ inv.distinct)).2
  order := (List.pairwise_cons.mp (first ▸ inv.order)).2
  recent w mem i later := inv.recent w (first ▸ List.mem_cons_of_mem _ mem) i later
  polled := by simp
  once := by
    have once := inv.once
    simp only [forwarded, List.filterMap_append, List.map_append] at once ⊢
    rw [once]
    rfl
  credit := by
    have credit := inv.credit
    rw [first, List.map_cons] at credit
    simp only [forwarded, List.filterMap_append, List.map_append, ← Multiset.coe_add] at credit ⊢
    refine le_of_eq_of_le ?_ credit
    rw [add_assoc]
    rfl

lemma forwarded_heartbeat (backend : List Sent) (workers : List Worker) :
    (backend ++ workers.map fun w => Sent.heartbeat w.identity).filterMap Sent.request? =
      backend.filterMap Sent.request? := by
  rw [List.filterMap_append, List.filterMap_map]
  simp [Function.comp_def, Sent.request?]

lemma PpInv.step (inv : PpInv clock s) (mono : Monotone clock) (st : PpTrans clock s a s') :
    PpInv clock s' := by
  unfold PpTrans ppqueueStep at st
  split at st
  next => -- poll
    cases st
    refine inv.quiet (.refl _) le_rfl ?_ rfl rfl rfl
    simp
  next polled point => -- no message from a worker
    cases st
    refine inv.quiet (.refl _) le_rfl ?_ rfl rfl rfl
    simpa using fun h => inv.polled (.inl (by rw [point, h]))
  next sender frames polled point =>
    obtain ⟨⟨identity, msg⟩, _, st⟩ := Option.bind_eq_some_iff.mp st
    cases st
    exact inv.ready mono
  next => -- no request
    cases st
    exact inv.quiet (.refl _) le_rfl (by simp) rfl rfl rfl
  next msg point =>
    obtain ⟨⟨identity, workers⟩, next, st⟩ := Option.bind_eq_some_iff.mp st
    cases st
    cases first : s.workers with
    | nil => simp [first, sWorkersNext] at next
    | cons head tail =>
      rw [first] at next
      cases next
      exact inv.request first msg
  next =>
    split at st
    · cases st
      exact inv.quiet (.refl _) (by simp) (by simp) (forwarded_heartbeat _ _) rfl rfl
    · cases st
      exact inv.quiet (.refl _) (by simp) (by simp) rfl rfl rfl
  next =>
    cases st
    obtain ⟨suffix, reads, _⟩ := sWorkersPurge_spec clock inv.order s.reads
    exact inv.quiet suffix.sublist reads (by simp) rfl rfl rfl
  next => cases st

lemma PpInv.new (clock : Nat → Nat) : PpInv clock (ppqueueNew clock) where
  distinct := .nil
  order := .nil
  recent := nofun
  polled := by simp [ppqueueNew]
  once := rfl
  credit := le_rfl

/-- After a purge the workers left are beyond all its readings of the clock. -/
lemma PpInv.purged (inv : PpInv clock s) (mono : Monotone clock)
    (st : ppqueueStep clock s .purge = some s') {w : Worker} (mem : w ∈ s'.workers) {i : Nat}
    (before : i < s'.reads) : clock i < w.expiry := by
  cases point : s.point with
  | purge =>
    simp only [ppqueueStep, point, Option.some.injEq] at st
    subst st
    obtain ⟨_, _, past⟩ := sWorkersPurge_spec clock inv.order s.reads
    exact (mono (Nat.le_sub_one_of_lt before)).trans_lt (past w mem)
  | _ => simp [ppqueueStep, point] at st

/-- The loop takes every step it comes to. -/
lemma PpInv.due (inv : PpInv clock s) (due : Due s a) : ∃ s', ppqueueStep clock s a = some s' := by
  cases a with
  | poll =>
    have point : s.point = .poll := due
    simp only [ppqueueStep, point]
    exact ⟨_, rfl⟩
  | backend msg =>
    obtain ⟨polled, point⟩ := due
    cases msg with
    | none =>
      simp only [ppqueueStep, point]
      exact ⟨_, rfl⟩
    | some msg =>
      obtain ⟨r, unwrap⟩ := zmsgUnwrap_cons msg.1 msg.2
      simp only [ppqueueStep, point, unwrap]
      exact ⟨_, rfl⟩
  | frontend msg =>
    cases msg with
    | none =>
      obtain ⟨polled, point⟩ := due
      simp only [ppqueueStep, point]
      exact ⟨_, rfl⟩
    | some msg =>
      have point : s.point = .frontend true := due
      cases first : s.workers with
      | nil => exact absurd first (inv.polled (.inr point))
      | cons head workers =>
        simp only [ppqueueStep, point, first, sWorkersNext]
        exact ⟨_, rfl⟩
  | heartbeat =>
    have point : s.point = .heartbeat := due
    simp only [ppqueueStep, point]
    split
    · exact ⟨_, rfl⟩
    · exact ⟨_, rfl⟩
  | purge =>
    have point : s.point = .purge := due
    simp only [ppqueueStep, point]
    exact ⟨_, rfl⟩

end Steps

/-- What is asked of a state of the queue. -/
structure Sound (clock : Nat → Nat) (s : Ppqueue) : Prop where
  distinct : Distinct s.workers
  order : InOrder s.workers
  purged : ∀ s', ppqueueStep clock s .purge = some s' →
    ∀ w ∈ s'.workers, ∀ i < s'.reads, clock i < w.expiry
  served : ∀ a, Due s a → ∃ s', ppqueueStep clock s a = some s'
  once : (forwarded s).map Prod.snd = s.requests
  credit : ∀ identity, ((forwarded s).map Prod.fst).count identity ≤ s.received.count identity

/-- In every state of the loop, whatever arrives and as long as the clock does not go back: no name
is on the list twice and the list is in the order of expiry; no worker left by a purge has expired
by then; the assert does not fail, as every step the loop comes to is taken; every request read
went to exactly one worker, and to no worker more requests than messages came from it. -/
theorem paranoid_pirate_queue (clock : Nat → Nat) (mono : Monotone clock) :
    ∀ tr s, Run (PpTrans clock) (ppqueueNew clock) tr s → Sound clock s := by
  intro tr s run
  have inv : PpInv clock s :=
    run.invariant (PpInv clock) (.new clock) fun _ _ _ inv st => inv.step mono st
  refine ⟨inv.distinct, inv.order, fun s' st w mem i before => inv.purged mono st mem before,
    fun a due => inv.due due, inv.once, fun identity => ?_⟩
  have credit := le_trans (Multiset.le_add_right _ _) inv.credit
  exact (Multiset.coe_le.mp credit).count_le identity

/-- Two workers report, a request goes to the first, the other one expires. -/
theorem paranoid_pirate_queue_two : ∃ s : Ppqueue,
    Run (PpTrans fun n => 500 * n) (ppqueueNew fun n => 500 * n)
      [.purge, .heartbeat, .frontend none, .backend none, .poll,
        .purge, .heartbeat, .frontend none, .backend none, .poll,
        .purge, .heartbeat, .frontend (some [[67], [], [1]]), .backend (some ([66], [[1]])), .poll,
        .purge, .heartbeat, .frontend none, .backend (some ([65], [[1]])), .poll] s ∧
    s.workers = [] ∧ forwarded s = [([65], [[67], [], [1]])] ∧ Sound (fun n => 500 * n) s := by
  have mono : Monotone fun n => 500 * n := fun i j le => Nat.mul_le_mul_left 500 le
  have all : (exec (ppqueueStep fun n => 500 * n) (ppqueueNew fun n => 500 * n)
      [.purge, .heartbeat, .frontend none, .backend none, .poll,
        .purge, .heartbeat, .frontend none, .backend none, .poll,
        .purge, .heartbeat, .frontend (some [[67], [], [1]]), .backend (some ([66], [[1]])), .poll,
        .purge, .heartbeat, .frontend none, .backend (some ([65], [[1]])), .poll]).any
      (fun s => s.workers = [] ∧ forwarded s = [([65], [[67], [], [1]])]) = true := by
    decide +kernel
  obtain ⟨s, e, facts⟩ := (Option.any_eq_true _ _).mp all
  obtain ⟨gone, sent⟩ := of_decide_eq_true facts
  exact ⟨s, exec_run e, gone, sent, paranoid_pirate_queue _ mono _ _ (exec_run e)⟩

end SweetClib.Pirate
