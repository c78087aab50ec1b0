import SweetClib.Pool.Dispatch

/-!
# The counter when an enqueue fails

`threadpool_add_worker` does not look at the return value of `queue_enqueue`: it counts a task
whether or not the task is in the queue. So the counter is the length of the queue plus the number
of enqueues that failed so far (`Counted`), in every interleaving before the queue is drained.
Without a failure the assert of a thread holds (`threadpool_counter`); after the first one it fails
for the thread that finds the queue empty (`failed_enqueue_counted`).
-/

namespace SweetClib.Pool
open SweetClib.Lib SweetClib.Linked

variable {P A : Type*} {pool pool' : Threadpool P A}

/-- What `queue_enqueue` returns in a step, where there is one. -/
def enqueueRet (pool : Threadpool P A) : Action P A → Option Int
  | .addWorker _ _ _ offer => some (if pool.heap.malloc offer = none then -1 else 0)
  | _ => none

/-- A step before the queue is drained, with the return value of its enqueue. The record of a task
is allocated, since there is no step otherwise; its list element may not be. -/
def CounterTrans (pool : Threadpool P A) (a : Action P A × Option Int) (pool' : Threadpool P A) :
    Prop :=
  a.1 ≠ .drain ∧ a.2 = enqueueRet pool a.1 ∧ PoolTrans pool a.1 pool'

/-- The number of enqueues that failed in a history. -/
def failures (tr : List (Action P A × Option Int)) : Nat :=
  tr.countP fun a => a.2 = some (-1)

/-- The counter is ahead of the queue by the failures. -/
structure Counted (lost : Nat) (pool : Threadpool P A) : Prop where
  alive : pool.destroyed = false
  queue : ∃ l, Rep pool.heap pool.workQueue l ∧ pool.curQueueSize = l.length + lost

/-- A call that adds a task counts it, in the queue or among the failures. -/
lemma Counted.addWorker {lost : Nat} (cnt : Counted lost pool) {process : P} {arg : A}
    {record offer : Option Addr} (st : PoolTrans pool (.addWorker process arg record offer) pool') :
    Counted (lost + if enqueueRet pool (.addWorker process arg record offer) = some (-1) then 1
      else 0) pool' := by
  obtain ⟨alive, l, rep, size⟩ := cnt
  simp only [PoolTrans, poolStep, alive, Bool.false_eq_true, if_false, threadpoolAddWorker] at st
  cases hw : pool.records.malloc record with
  | none => simp [hw] at st
  | some worker =>
    obtain ⟨fail, enq⟩ | ⟨a, heap', queue', ok, enq, rep'⟩ := queueEnqueue_spec rep worker offer
    · simp only [hw, enq, Option.map_some, Option.some.injEq] at st
      subst st
      simp only [enqueueRet, fail, if_true]
      exact ⟨rfl, l, rep, by simp [size, add_assoc]⟩
    · simp only [hw, enq, Option.map_some, Option.some.injEq] at st
      subst st
      simp only [enqueueRet, ok, reduceCtorEq, if_false]
      refine ⟨rfl, l ++ [(a, worker)], rep', ?_⟩
      simp [size]
      omega

/-- A thread that goes through its critical section takes a task off the queue and off the counter,
or neither. -/
lemma Counted.handle {lost : Nat} (cnt : Counted lost pool) {i : Nat}
    (st : PoolTrans pool (.handle i) pool') : Counted lost pool' := by
  obtain ⟨alive, l, rep, size⟩ := cnt
  simp only [PoolTrans, poolStep, alive, Bool.false_eq_true, if_false, threadpoolHandle,
    threadpoolLeave] at st
  split_ifs at st
  · cases st
    exact ⟨alive, l, rep, size⟩
  · cases st
    exact ⟨alive, l, rep, size⟩
  · rw [queuePeek_spec rep] at st
    cases l with
    | nil => cases st
    | cons x l =>
      obtain ⟨heap', list', deq, rep', _⟩ := listRemNext_front rep x.2
      have deq : queueDequeue pool.heap pool.workQueue x.2 = some (0, heap', list', x.2) := deq
      simp only [List.head?_cons, Option.map_some, deq, Option.some.injEq] at st
      subst st
      refine ⟨alive, l, rep', ?_⟩
      simp [size]
      omega

lemma Counted.step {lost : Nat} (cnt : Counted lost pool) {a : Action P A × Option Int}
    (st : CounterTrans pool a pool') : Counted (lost + if a.2 = some (-1) then 1 else 0) pool' := by
  obtain ⟨a, ret⟩ := a
  obtain ⟨live, eq, st⟩ := st
  have eq : ret = enqueueRet pool a := eq
  subst eq
  cases a with
  | addWorker process arg record offer => exact cnt.addWorker st
  | handle i => exact cnt.handle st
  | work i =>
    obtain ⟨worker, busy⟩ := st.enabled.2
    simp only [PoolTrans, poolStep, cnt.alive, Bool.false_eq_true, if_false, threadpoolWork,
      busy] at st
    obtain ⟨task, _, rfl⟩ := Option.map_eq_some_iff.mp st
    exact ⟨cnt.alive, cnt.queue⟩
  | destroy =>
    simp only [PoolTrans, poolStep, cnt.alive, Bool.false_eq_true, if_false, threadpoolDestroy,
      Option.some.injEq] at st
    split at st
    · subst st
      exact ⟨cnt.alive, cnt.queue⟩
    · subst st
      exact ⟨rfl, cnt.queue⟩
  | drain => exact absurd rfl live

lemma Counted.run {n : Nat} {tr : List (Action P A × Option Int)}
    (run : Run CounterTrans (threadpoolInit n) tr pool) : Counted (failures tr) pool := by
  refine run.history (fun tr pool => Counted (failures tr) pool) ⟨rfl, [], .init _ _, rfl⟩ ?_
  intro tr pool a pool' cnt st
  have counted := cnt.step st
  simpa only [failures, List.countP_cons, decide_eq_true_eq] using counted

/-- A counted pool without failures: the assert of a thread holds, so that its critical section has
a result. -/
lemma Counted.exact (cnt : Counted 0 pool) :
    pool.curQueueSize = pool.workQueue.size ∧
    (pool.curQueueSize ≠ 0 → ∃ worker, queuePeek pool.heap pool.workQueue = some (some worker)) ∧
    ∀ i, Enabled pool (.handle i) → ∃ pool', PoolTrans pool (.handle i) pool' := by
  obtain ⟨alive, l, rep, size⟩ := cnt
  have size : pool.curQueueSize = l.length := size
  have peek : pool.curQueueSize ≠ 0 →
      ∃ worker, queuePeek pool.heap pool.workQueue = some (some worker) := by
    intro more
    rw [queuePeek_spec rep]
    cases l with
    | nil => exact absurd size more
    | cons x l => exact ⟨x.2, rfl⟩
  refine ⟨size.trans rep.size.symm, peek, fun i free => ?_⟩
  have free : pool.threads i = .ready ∨ pool.threads i = .waiting := free
  simp only [PoolTrans, poolStep, alive, Bool.false_eq_true, if_false, threadpoolHandle,
    threadpoolLeave, if_pos free]
  by_cases wait : pool.curQueueSize = 0 ∧ pool.shutdown = false
  · exact ⟨_, if_pos wait⟩
  rw [if_neg wait]
  by_cases stop : pool.shutdown = true
  · exact ⟨_, if_pos stop⟩
  rw [if_neg stop]
  have more : pool.curQueueSize ≠ 0 := fun h => wait ⟨h, by simpa using stop⟩
  rw [if_neg more]
  obtain ⟨worker, pk⟩ := peek more
  cases l with
  | nil => exact absurd size more
  | cons x l =>
    obtain ⟨heap', list', deq, _⟩ := listRemNext_front rep worker
    have deq : queueDequeue pool.heap pool.workQueue worker = some (0, heap', list', x.2) := deq
    simp only [pk, deq, Option.map_some]
    exact ⟨_, rfl⟩

/-- In every interleaving before the queue is drained, in which the allocation of any list element
may fail: the counter is the length of the queue plus the number of enqueues that failed. While
none has failed it is the length of the queue, a thread that finds it other than zero finds a task,
and its asserts hold. -/
theorem threadpool_counter (n : Nat) {tr : List (Action P A × Option Int)} {pool : Threadpool P A}
    (run : Run CounterTrans (threadpoolInit n) tr pool) :
    pool.curQueueSize = pool.workQueue.size + failures tr ∧
    (failures tr = 0 →
      pool.curQueueSize = pool.workQueue.size ∧
      (pool.curQueueSize ≠ 0 → ∃ worker, queuePeek pool.heap pool.workQueue = some (some worker)) ∧
      ∀ i, Enabled pool (.handle i) → ∃ pool', PoolTrans pool (.handle i) pool') := by
  have cnt := Counted.run run
  obtain ⟨l, rep, size⟩ := cnt.queue
  refine ⟨by rw [size, rep.size], fun none => ?_⟩
  rw [none] at cnt
  exact cnt.exact

/-- A task that is queued, and the thread that takes it. -/
theorem threadpool_counter_one : ∃ pool : Threadpool Nat Nat,
    Run CounterTrans (threadpoolInit 1) [(.addWorker 7 1 (some 0) (some 0), some 0)] pool ∧
    pool.curQueueSize = 1 ∧ pool.workQueue.size = 1 ∧ ∃ pool',
      PoolTrans pool (.handle 0) pool' := by
  have run : Run CounterTrans (threadpoolInit 1 : Threadpool Nat Nat)
      [(.addWorker 7 1 (some 0) (some 0), some 0)] _ :=
    .cons .nil ⟨nofun, rfl, rfl⟩
  obtain ⟨same, _, handle⟩ := (threadpool_counter 1 run).2 rfl
  exact ⟨_, run, rfl, rfl, handle 0 (.inl rfl)⟩

/-- A call whose enqueue fails returns 0 and counts a task that is not queued, and the assert of
the next thread fails. -/
theorem failed_enqueue_counted : ∃ pool : Threadpool Nat Nat,
    threadpoolAddWorker (threadpoolInit 1) 7 1 (some 0) none = some (0, pool) ∧
    Run CounterTrans (threadpoolInit 1) [(.addWorker 7 1 (some 0) none, some (-1))] pool ∧
    pool.curQueueSize = 1 ∧ pool.workQueue.size = 0 ∧
      queuePeek pool.heap pool.workQueue = some none ∧
    pool.threads 0 = .ready ∧ poolStep pool (.handle 0) = none :=
  ⟨_, rfl, .cons .nil ⟨nofun, rfl, rfl⟩, rfl, rfl, rfl, rfl, rfl⟩

end SweetClib.Pool
