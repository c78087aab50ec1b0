import SweetClib.Majordomo.Handlers

/-!
# The bookkeeping over whole runs

The broker among arbitrary peers: its runs take any messages, any ticks and any clock. A REPLY of a
worker that is already waiting puts it on the lists a second time, and a deletion then leaves a
freed worker behind (`reply_while_waiting`). As long as every REPLY comes from a worker that is not
waiting, the bookkeeping holds in every state, and the broker does not fault on events it accepts
(`broker_bookkeeping`).
-/

namespace SweetClib.Majordomo
open SweetClib.Lib

/-- The transitions of the broker. -/
def BrokerTrans (clock : Nat → Nat) (b : Broker) (ev : Event) (b' : Broker) : Prop :=
  brokerStep clock b ev = some b'

/-- What the lists of workers must be: a worker on a list is registered, it is once on the list of
the broker and once on the list of its own service and on no other, and the two levels of lists
hold the same workers. -/
structure Bookkeeping (b : Broker) : Prop where
  broker : ∀ p ∈ b.waiting, b.waiting.count p = 1 ∧
    ∃ w name s, b.heap p = some w ∧ b.workers w.idString = some p ∧ w.service = some name ∧
      b.services name = some s ∧ s.waiting.count p = 1
  service : ∀ name s, b.services name = some s → ∀ p ∈ s.waiting, p ∈ b.waiting ∧
    ∃ w, b.heap p = some w ∧ b.workers w.idString = some p ∧ w.service = some name
  deleted : ∀ p, (∀ id, b.workers id ≠ some p) → p ∉ b.waiting ∧
    ∀ name s, b.services name = some s → p ∉ s.waiting

variable {clock : Nat → Nat} {b b' : Broker}

/-- The bookkeeping gives what the lists must be. -/
lemma Book.bookkeeping (bk : Book b) : Bookkeeping b := by
  have queue : ∀ name s, b.services name = some s → b.queue name = some s.waiting := by
    intro name s hs
    simp [Broker.queue, hs]
  have reg : ∀ p w, b.heap p = some w → b.workers w.idString = some p := by
    intro p w hw
    exact (bk.reg _ _).mpr (by simp [Broker.idOf, hw])
  have broker : ∀ p ∈ b.waiting, b.waiting.count p = 1 ∧
      ∃ w name s, b.heap p = some w ∧ b.workers w.idString = some p ∧ w.service = some name ∧
        b.services name = some s ∧ s.waiting.count p = 1 := by
    intro p mem
    obtain ⟨w, name, s, hw, hn, hs, mem'⟩ := bk.live mem
    refine ⟨List.count_eq_one_of_mem bk.nodup mem, w, name, s, hw, reg p w hw, hn, hs, ?_⟩
    exact List.count_eq_one_of_mem (bk.queueNodup name _ (queue name s hs)) mem'
  have service : ∀ name s, b.services name = some s → ∀ p ∈ s.waiting, p ∈ b.waiting ∧
      ∃ w, b.heap p = some w ∧ b.workers w.idString = some p ∧ w.service = some name := by
    intro name s hs p mem
    obtain ⟨mem, svc⟩ := (bk.queueMem name _ (queue name s hs) p).mp mem
    obtain ⟨w, hw, hn⟩ := Option.bind_eq_some_iff.mp svc
    exact ⟨mem, w, hw, reg p w hw, hn⟩
  refine ⟨broker, service, fun p gone => ⟨fun mem => ?_, fun name s hs mem => ?_⟩⟩
  · obtain ⟨_, w, _, _, _, registered, _⟩ := broker p mem
    exact gone _ registered
  · obtain ⟨_, w, _, registered, _⟩ := service name s hs p mem
    exact gone _ registered

lemma Book.new (clock : Nat → Nat) : Book (sBrokerNew clock) :=
  ⟨⟨fun _ _ => by simp [sBrokerNew, Broker.idOf, Heap.empty], nofun⟩, List.nodup_nil, nofun, nofun,
    nofun⟩

/-- A worker message that is handled was acceptable. -/
lemma workerMsg_accepts {sender : Frame} {msg : Zmsg} {offer : Addr}
    (e : sBrokerWorkerMsg clock b sender msg offer = some b') :
    ∃ command rest, msg = command :: rest ∧ WorkerAccepts b sender command rest offer := by
  cases msg with
  | nil => cases e
  | cons command rest =>
    refine ⟨command, rest, rfl, ?_, ?_, ?_⟩
    · intro new
      cases fresh : b.heap offer with
      | none => rfl
      | some _ => simp [sBrokerWorkerMsg, sWorkerRequire, new, Heap.malloc, fresh] at e
    · rintro rfl new notMmi rfl
      simp only [sBrokerWorkerMsg, new, notMmi, Option.isSome_none, if_true, Bool.false_eq_true,
        if_false] at e
      cases req : sWorkerRequire b sender offer <;> rw [req] at e <;> cases e
    · rintro rfl p reg
      simp only [sBrokerWorkerMsg, reg, sWorkerRequire_registered reg, Option.isSome_some,
        Option.bind_eq_bind, Option.bind_some, if_true,
        if_neg (by decide : MDPW_REPLY ≠ MDPW_READY), Option.bind_eq_some_iff] at e
      obtain ⟨_, hu, w, hw, name, hn, _⟩ := e
      refine ⟨?_, by simp [Broker.svcOf, hw, hn]⟩
      rintro rfl
      cases hu

/-- An event that is handled was acceptable. -/
lemma brokerStep_accepts {ev : Event} (e : brokerStep clock b ev = some b') : Accepts b ev := by
  cases ev with
  | tick => trivial
  | recv msg offer =>
    obtain _ | ⟨sender, _ | ⟨empty, _ | ⟨header, msg⟩⟩⟩ := msg
    · cases e
    · cases e
    · cases e
    simp only [brokerStep, brokerRecv] at e
    simp only [Accepts]
    split
    next isClient =>
      rw [if_pos isClient] at e
      obtain _ | ⟨_, _ | ⟨_, _⟩⟩ := msg
      · cases e
      · cases e
      · simp
    next notClient =>
      rw [if_neg notClient] at e
      split
      next isWorker =>
        rw [if_pos isWorker] at e
        exact workerMsg_accepts e
      next => trivial

/-- Every step in which a REPLY comes from a worker that is not waiting keeps the bookkeeping. -/
lemma Book.step (bk : Book b) {ev : Event} (idle : ReplyWhenIdle b ev)
    (e : brokerStep clock b ev = some b') : Book b' := by
  obtain ⟨b₁, tr, e₁, run, _⟩ := brokerStep_spec clock bk (brokerStep_accepts e) idle
  rw [e₁] at e
  cases e
  exact bk.acts run

/-- In every run in which every REPLY comes from a worker that is not waiting, the bookkeeping
holds and every acceptable event is handled. -/
theorem broker_bookkeeping (clock : Nat → Nat) : ∀ tr b,
    Run (fun b ev b' => ReplyWhenIdle b ev ∧ BrokerTrans clock b ev b') (sBrokerNew clock) tr b →
    Bookkeeping b ∧
      ∀ ev, ReplyWhenIdle b ev → Accepts b ev → ∃ b', BrokerTrans clock b ev b' := by
  intro tr b run
  have bk : Book b := run.invariant Book (.new clock) fun _ _ _ bk st => bk.step st.1 st.2
  refine ⟨bk.bookkeeping, fun ev idle ok => ?_⟩
  obtain ⟨b', _, e, _⟩ := brokerStep_spec clock bk ok idle
  exact ⟨b', e⟩

/-- A worker becomes ready and waits. -/
theorem broker_bookkeeping_ready : ∃ b,
    Run (fun b ev b' => ReplyWhenIdle b ev ∧ BrokerTrans (fun n => n) b ev b')
      (sBrokerNew fun n => n)
      [.recv [[65], [], MDPW_WORKER, MDPW_READY, [115]] 0] b ∧
    b.waiting = [0] ∧ Bookkeeping b := by
  have run : Run (fun b ev b' => ReplyWhenIdle b ev ∧ BrokerTrans (fun n => n) b ev b')
      (sBrokerNew fun n => n) [.recv [[65], [], MDPW_WORKER, MDPW_READY, [115]] 0] _ :=
    .cons .nil ⟨nofun, rfl⟩
  exact ⟨_, run, rfl, (broker_bookkeeping _ _ _ run).1⟩

/-- A worker becomes ready, replies without having a request, and disconnects: the freed worker
stays on the list of the broker. -/
theorem reply_while_waiting : ∃ b, Run (BrokerTrans fun n => n) (sBrokerNew fun n => n)
    [.recv [[65], [], MDPW_WORKER, MDPW_DISCONNECT] 1,
      .recv [[65], [], MDPW_WORKER, MDPW_REPLY, [67], [], [120]] 1,
      .recv [[65], [], MDPW_WORKER, MDPW_READY, [115]] 0] b ∧
    (b.waiting = [0] ∧ b.heap 0 = none) ∧ ¬ Bookkeeping b := by
  refine ⟨_, .cons (.cons (.cons .nil rfl) rfl) rfl, ⟨rfl, rfl⟩, fun bk => ?_⟩
  obtain ⟨_, w, _, _, hw, _⟩ := bk.broker 0 List.mem_cons_self
  cases hw

end SweetClib.Majordomo
