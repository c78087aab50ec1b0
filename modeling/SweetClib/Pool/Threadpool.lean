import SweetClib.Linked.List

/-!
# The thread pool

Model of `lib/threadpool/threadpool.c` over the lists of `lib/threadpool/list.c` and `queue.c`.
Every critical section is one step, as are the setting of `shutdown` and, once all threads are
joined, the loop that empties the queue. A thread that waits for `queue_ready` may wake up at any
time, so signals and broadcasts need no step of their own. A task record lives in a heap of its own
and is known by its address; for the record, a task carries the number of the call that added it,
and the pool keeps the tasks that were added, taken, run and discarded, in order.

A step has no result where an assert of the source fails or a null or freed pointer is read.

C → Lean naming: `threadpool_init` → `threadpoolInit`; `threadpool_add_worker` →
`threadpoolAddWorker`; `threadpool_handle` → `threadpoolHandle` (up to the unlocking) and
`threadpoolWork` (the call of the task); `threadpool_destroy` → `threadpoolDestroy` (up to the
broadcast) and `threadpoolDrain`.
-/

namespace SweetClib.Pool
open SweetClib.Lib SweetClib.Linked

variable {P A : Type*}

/-- A task record (C `threadworker`), with the number of the call that added it. -/
structure Threadworker (P A : Type*) where
  process : P
  arg : A
  number : Nat

/-- Where a thread is: before its critical section, waiting in it, past it with a task, or gone. -/
inductive Thread where
  | ready
  | waiting
  | working (worker : Addr)
  | exited
deriving DecidableEq

/-- The pool (C `threadpool`), its heaps, its threads, and what happened to its tasks; `destroyed`
is set when the pool is freed. -/
structure Threadpool (P A : Type*) where
  heap : Heap (ListElmt Addr)
  records : Heap (Threadworker P A)
  workQueue : List_
  shutdown : Bool
  maxThreadNum : Nat
  curQueueSize : Int
  threads : Nat → Thread
  destroyed : Bool
  added : List (Threadworker P A)
  taken : List (Threadworker P A)
  ran : List (Threadworker P A)
  discarded : List (Threadworker P A)

/-- A new pool (C `threadpool_init`). -/
def threadpoolInit (maxThreadNum : Nat) : Threadpool P A :=
  { heap := Heap.empty, records := Heap.empty, workQueue := listInit true, shutdown := false,
    maxThreadNum, curQueueSize :=
    0, threads := fun i => if i < maxThreadNum then .ready else .exited,
    destroyed := false, added := [], taken := [], ran := [], discarded := [] }

/-- Add a task (C `threadpool_add_worker`); the return value of the enqueue is not looked at. -/
def threadpoolAddWorker (pool : Threadpool P A) (process : P) (arg : A)
    (record offer : Option Addr) : Option (Int × Threadpool P A) :=
  match pool.records.malloc record with
  | none => none
  | some worker =>
    let task : Threadworker P A := { process, arg, number := pool.added.length }
    (queueEnqueue pool.heap pool.workQueue worker offer).map fun r =>
      (0, { pool with
        heap := r.2.1
        records := pool.records.set worker task
        workQueue := r.2.2
        curQueueSize := pool.curQueueSize + 1
        added := pool.added ++ [task] })

/-- A thread moves on. -/
def Threadpool.goto (pool : Threadpool P A) (i : Nat) (thread : Thread) : Threadpool P A :=
  { pool with threads := Function.update pool.threads i thread }

/-- The critical section of a thread from the end of the loop on (C `threadpool_handle`). -/
def threadpoolLeave (pool : Threadpool P A) (i : Nat) : Option (Threadpool P A) :=
  if pool.shutdown then some (pool.goto i .exited)
  else if pool.curQueueSize = 0 then none
  else
    match queuePeek pool.heap pool.workQueue with
    | some (some worker) =>
      (queueDequeue pool.heap pool.workQueue worker).map fun r =>
        { pool.goto i (.working r.2.2.2) with
          heap := r.2.1
          workQueue := r.2.2.1
          curQueueSize := pool.curQueueSize - 1
          taken := pool.taken ++ (pool.records r.2.2.2).toList }
    | _ => none

/-- The critical section of a thread, from the start or after a wake-up (C `threadpool_handle`). -/
def threadpoolHandle (pool : Threadpool P A) (i : Nat) : Option (Threadpool P A) :=
  if pool.threads i = .ready ∨ pool.threads i = .waiting then
    if pool.curQueueSize = 0 ∧ pool.shutdown = false then some (pool.goto i .waiting)
    else threadpoolLeave pool i
  else none

/-- A thread runs the task it has taken and frees the record (C `threadpool_handle`). -/
def threadpoolWork (pool : Threadpool P A) (i : Nat) : Option (Threadpool P A) :=
  match pool.threads i with
  | .working worker =>
    (pool.records worker).map fun task =>
      { pool.goto i .ready with records := pool.records.free worker, ran := pool.ran ++ [task] }
  | _ => none

/-- Set `shutdown`, unless it is set (C `threadpool_destroy`). -/
def threadpoolDestroy (pool : Threadpool P A) : Int × Threadpool P A :=
  if pool.shutdown then (-1, pool) else (0, { pool with shutdown := true })

/-- The loop that empties the queue (C `threadpool_destroy`); the first argument bounds its rounds,
and running out of it is no result. -/
def drainLoop : Nat → Threadpool P A → Option (Threadpool P A)
  | 0, _ => none
  | n + 1, pool =>
    match queuePeek pool.heap pool.workQueue with
    | none => none
    | some none => some pool
    | some (some worker) =>
      match queueDequeue pool.heap pool.workQueue worker with
      | none => none
      | some r => drainLoop n { pool with
          heap := r.2.1
          workQueue := r.2.2.1
          discarded := pool.discarded ++ (pool.records r.2.2.2).toList }

/-- The end of a pool, when all threads are joined (C `threadpool_destroy`). -/
def threadpoolDrain (pool : Threadpool P A) : Option (Threadpool P A) :=
  if pool.shutdown ∧ ∀ i < pool.maxThreadNum, pool.threads i = .exited then
    (drainLoop (pool.workQueue.size.toNat + 1) pool).map fun pool => { pool with destroyed := true }
  else none

/-- The steps of a pool; a call that adds a task carries the results of its two allocations. -/
inductive Action (P A : Type*) where
  | addWorker (process : P) (arg : A) (record offer : Option Addr)
  | handle (i : Nat)
  | work (i : Nat)
  | destroy
  | drain

/-- One step of a pool that was not freed. -/
def poolStep (pool : Threadpool P A) : Action P A → Option (Threadpool P A)
  | .addWorker process arg record offer =>
    if pool.destroyed then none
    else (threadpoolAddWorker pool process arg record offer).map Prod.snd
  | .handle i => if pool.destroyed then none else threadpoolHandle pool i
  | .work i => if pool.destroyed then none else threadpoolWork pool i
  | .destroy => if pool.destroyed then none else some (threadpoolDestroy pool).2
  | .drain => if pool.destroyed then none else threadpoolDrain pool

/-- The transitions of a pool. -/
def PoolTrans (pool : Threadpool P A) (a : Action P A) (pool' : Threadpool P A) : Prop :=
  poolStep pool a = some pool'

/-- The allocations of a step succeed. -/
def Allocates (pool : Threadpool P A) : Action P A → Prop
  | .addWorker _ _ record offer => pool.records.malloc record ≠ none ∧ pool.heap.malloc offer ≠ none
  | _ => True

end SweetClib.Pool
