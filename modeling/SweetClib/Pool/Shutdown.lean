import SweetClib.Lib.Monitor
import SweetClib.Pool.Dispatch

/-!
# Shutting the pool down

The pool of `lib/threadpool/threadpool.c` with its lock and its condition taken apart: a thread
takes `queue_lock`, tests whether there is something to do, waits or goes on, each in a step of its
own; a signal follows the critical section that adds a task; and `threadpool_destroy` sets
`shutdown`, without the lock, then broadcasts, then joins. A blocked thread may also wake up for no
reason. The critical sections themselves are those of `Pool/Threadpool.lean`, so that this pool
does nothing that one does not do (`fine_refines`).

`shutdown` is set and broadcast without the lock, so that both can fall between the test of a
thread and its wait: the thread then sleeps for good (`lost_wakeup`). If no thread is there when
`threadpool_destroy` broadcasts, none is left asleep (`shutdown_wakes_all`).

C → Lean naming: of `threadpool_handle`, the loop condition is the step `test`, `pthread_cond_wait`
the steps `wait` and `lock`, and what follows the loop up to the unlocking is `threadpoolLeave`.
-/

namespace SweetClib.Pool
open SweetClib.Lib SweetClib.Linked

variable {P A : Type*}

/-- Where a thread is inside its critical section: before the test of the loop, past a test that
found nothing to do, or past the loop. -/
inductive Spot where
  | test
  | sleep
  | leave
  deriving DecidableEq

/-- Where the call of `threadpool_destroy` is: not made, past the setting of `shutdown`, or past
the broadcast. -/
inductive Destroyer where
  | idle
  | set
  | joining
  deriving DecidableEq

/-- The pool with its lock; `signals` counts the calls of `threadpool_add_worker` that have yet to
signal. -/
structure FinePool (P A : Type*) where
  pool : Threadpool P A
  monitor : Monitor Nat
  spot : Nat → Spot
  signals : Nat
  destroyer : Destroyer

/-- A new pool. -/
def fineInit (maxThreadNum : Nat) : FinePool P A :=
  { pool := threadpoolInit maxThreadNum, monitor := .init, spot := fun _ => .test, signals := 0,
    destroyer := .idle }

/-- The steps of the pool. A signal comes with the thread it wakes, if any is blocked. -/
inductive FineAction (P A : Type*) where
  | lock (i : Nat)
  | test (i : Nat)
  | wait (i : Nat)
  | leave (i : Nat)
  | work (i : Nat)
  | spurious (i : Nat)
  | addWorker (process : P) (arg : A) (record offer : Option Addr)
  | signal (woken : Option Nat)
  | shutdown
  | broadcast
  | drain

/-- One step of a pool that was not freed; `none` when it cannot be taken, or faults. -/
def fineStep (s : FinePool P A) (a : FineAction P A) : Option (FinePool P A) :=
  if s.pool.destroyed then none
  else
    match a with
    | .lock i =>
      if s.pool.threads i = .ready ∨ s.pool.threads i = .waiting then
        (s.monitor.acquire i).map fun m =>
          { s with monitor := m, spot := Function.update s.spot i .test }
      else none
    | .test i =>
      if s.monitor.stand i = .inside ∧ s.spot i = .test then
        if s.pool.curQueueSize = 0 ∧ s.pool.shutdown = false then
          some { s with pool := s.pool.goto i .waiting, spot := Function.update s.spot i .sleep }
        else some { s with spot := Function.update s.spot i .leave }
      else none
    | .wait i =>
      if s.spot i = .sleep then (s.monitor.wait i).map fun m => { s with monitor := m } else none
    | .leave i =>
      if s.spot i = .leave then
        (s.monitor.release i).bind fun m => (threadpoolLeave s.pool i).map fun pool =>
          { s with pool, monitor := m }
      else none
    | .work i => (threadpoolWork s.pool i).map fun pool => { s with pool }
    | .spurious i => (s.monitor.wake i).map fun m => { s with monitor := m }
    | .addWorker process arg record offer =>
      if s.monitor.lock = none then
        (threadpoolAddWorker s.pool process arg record offer).map fun r =>
          { s with pool := r.2, signals := s.signals + 1 }
      else none
    | .signal woken =>
      if 0 < s.signals then
        match woken with
        | some i =>
          (s.monitor.wake i).map fun m => { s with monitor := m, signals := s.signals - 1 }
        | none =>
          if ∀ i < s.pool.maxThreadNum, s.monitor.stand i ≠ .blocked then
            some { s with signals := s.signals - 1 }
          else none
      else none
    | .shutdown =>
      let (retval, pool) := threadpoolDestroy s.pool
      some { s with pool, destroyer := if retval = 0 then .set else s.destroyer }
    | .broadcast =>
      if s.destroyer = .set then
        some { s with monitor := s.monitor.broadcast, destroyer := .joining }
      else none
    | .drain =>
      if s.destroyer = .joining then (threadpoolDrain s.pool).map fun pool => { s with pool }
      else none

/-- The transitions of the pool. -/
def FineTrans (s : FinePool P A) (a : FineAction P A) (s' : FinePool P A) : Prop :=
  fineStep s a = some s'

/-- A thread is past a test that found nothing to do, and does not wait yet. -/
def Dozing (s : FinePool P A) (i : Nat) : Prop :=
  s.monitor.stand i = .inside ∧ s.spot i = .sleep

/-- The broadcast of `threadpool_destroy` falls between the test and the wait of no thread. -/
def BroadcastClear (s : FinePool P A) : FineAction P A → Prop
  | .broadcast => ∀ i, ¬ Dozing s i
  | _ => True

/-- The allocations of a step succeed. -/
def FineAllocates (s : FinePool P A) : FineAction P A → Prop
  | .addWorker process arg record offer => Allocates s.pool (.addWorker process arg record offer)
  | _ => True

/-- The threads inside: each is one that handles the queue, and past the loop there is something to
do. And once `threadpool_destroy` has started, `shutdown` is set. -/
structure FineInv (s : FinePool P A) : Prop where
  inside : ∀ i, s.monitor.stand i = .inside → s.pool.threads i = .ready ∨
    s.pool.threads i = .waiting
  leave : ∀ i, s.monitor.stand i = .inside → s.spot i = .leave →
    ¬ (s.pool.curQueueSize = 0 ∧ s.pool.shutdown = false)
  set : s.destroyer ≠ .idle → s.pool.shutdown = true

/-- What a step can do. -/
inductive FineMove : FinePool P A → FineAction P A → FinePool P A → Prop where
  | lock {s i m} :
    s.pool.threads i = .ready ∨ s.pool.threads i = .waiting →
    s.monitor.acquire i = some m →
    FineMove s (.lock i) { s with monitor := m, spot := Function.update s.spot i .test }
  | sleep {s i} :
    s.monitor.stand i = .inside →
    s.pool.curQueueSize = 0 ∧ s.pool.shutdown = false →
    FineMove s (.test i) { s with
      pool := s.pool.goto i .waiting, spot := Function.update s.spot i .sleep }
  | proceed {s i} :
    ¬ (s.pool.curQueueSize = 0 ∧ s.pool.shutdown = false) →
    FineMove s (.test i) { s with spot := Function.update s.spot i .leave }
  | wait {s i m} :
    s.spot i = .sleep →
    s.monitor.wait i = some m →
    FineMove s (.wait i) { s with monitor := m }
  | leave {s i m pool} :
    s.spot i = .leave →
    s.monitor.release i = some m →
    threadpoolLeave s.pool i = some pool →
    FineMove s (.leave i) { s with pool, monitor := m }
  | work {s i pool} :
    threadpoolWork s.pool i = some pool →
    FineMove s (.work i) { s with pool }
  | wake {s a i m signals} :
    s.monitor.wake i = some m →
    FineMove s a { s with monitor := m, signals }
  | addWorker {s process arg record offer r signals} :
    s.monitor.lock = none →
    threadpoolAddWorker s.pool process arg record offer = some r →
    FineMove s (.addWorker process arg record offer) { s with pool := r.2, signals }
  | unheard {s a signals} :
    FineMove s a { s with signals }
  | again {s} :
    s.pool.shutdown = true →
    FineMove s .shutdown s
  | shutdown {s} :
    FineMove s .shutdown { s with pool := { s.pool with shutdown := true }, destroyer := .set }
  | broadcast {s} :
    s.destroyer = .set →
    FineMove s .broadcast { s with monitor := s.monitor.broadcast, destroyer := .joining }
  | drain {s pool} :
    threadpoolDrain s.pool = some pool →
    FineMove s .drain { s with pool }

variable {s s' : FinePool P A} {a : FineAction P A} {pool pool' : Threadpool P A} {i : Nat}

/-- The thread that has moved on. -/
@[simp] lemma goto_threads_self (pool : Threadpool P A) (i : Nat) (thread : Thread) :
    (pool.goto i thread).threads i = thread :=
  Function.update_self ..

/-- The threads that stay where they are. -/
lemma goto_threads_other (pool : Threadpool P A) {i j : Nat} (thread : Thread) (ne : j ≠ i) :
    (pool.goto i thread).threads j = pool.threads j :=
  Function.update_of_ne ne ..

/-- Past the loop, the rest of the critical section is all of it. -/
lemma threadpoolHandle_eq_leave (free : pool.threads i = .ready ∨ pool.threads i = .waiting)
    (more : ¬ (pool.curQueueSize = 0 ∧ pool.shutdown = false)) :
    threadpoolHandle pool i = threadpoolLeave pool i := by
  rw [threadpoolHandle, if_pos free, if_neg more]

/-- What the end of the critical section leaves alone. -/
lemma threadpoolLeave_frame (e : threadpoolLeave pool i = some pool') :
    pool'.shutdown = pool.shutdown := by
  unfold threadpoolLeave at e
  split at e
  · cases e
    rfl
  · split at e
    · cases e
    · split at e
      · obtain ⟨r, _, rfl⟩ := Option.map_eq_some_iff.mp e
        rfl
      · cases e

lemma threadpoolWork_frame (e : threadpoolWork pool i = some pool') :
    (∃ worker, pool.threads i = .working worker) ∧ pool'.shutdown = pool.shutdown ∧
      pool'.curQueueSize = pool.curQueueSize ∧ ∀ j, j ≠ i → pool'.threads j = pool.threads j := by
  unfold threadpoolWork at e
  split at e
  next worker busy =>
    obtain ⟨task, _, rfl⟩ := Option.map_eq_some_iff.mp e
    exact ⟨⟨worker, busy⟩, rfl, rfl, fun j ne => goto_threads_other pool .ready ne⟩
  next => cases e

lemma drainLoop_frame {n : Nat} (e : drainLoop n pool = some pool') :
    pool'.shutdown = pool.shutdown ∧ pool'.curQueueSize = pool.curQueueSize ∧
      pool'.threads = pool.threads := by
  induction n generalizing pool with
  | zero => cases e
  | succ n ih =>
    unfold drainLoop at e
    split at e
    · cases e
    · cases e
      exact ⟨rfl, rfl, rfl⟩
    · split at e
      · cases e
      · obtain ⟨stop, size, threads⟩ := ih e
        exact ⟨stop, size, threads⟩

/-- What the end of the pool leaves alone. -/
lemma threadpoolDrain_frame (e : threadpoolDrain pool = some pool') :
    pool'.shutdown = pool.shutdown ∧ pool'.curQueueSize = pool.curQueueSize ∧
      pool'.threads = pool.threads := by
  unfold threadpoolDrain at e
  split at e
  · obtain ⟨pool₁, loop, rfl⟩ := Option.map_eq_some_iff.mp e
    obtain ⟨stop, size, threads⟩ := drainLoop_frame loop
    exact ⟨stop, size, threads⟩
  · cases e

/-- Every step does one of these things to a pool that was not freed. -/
lemma FineTrans.move (st : FineTrans s a s') : s.pool.destroyed = false ∧ FineMove s a s' := by
  have alive : s.pool.destroyed = false := by
    cases h : s.pool.destroyed with
    | false => rfl
    | true => simp [FineTrans, fineStep, h] at st
  refine ⟨alive, ?_⟩
  simp only [FineTrans, fineStep, alive, Bool.false_eq_true, if_false] at st
  cases a with
  | lock i =>
    obtain ⟨free, st⟩ := Option.ite_none_right_eq_some.mp st
    obtain ⟨m, hm, rfl⟩ := Option.map_eq_some_iff.mp st
    exact .lock free hm
  | test i =>
    obtain ⟨here, st⟩ := Option.ite_none_right_eq_some.mp st
    split at st
    next wait =>
      cases st
      exact .sleep here.1 wait
    next more =>
      cases st
      exact .proceed more
  | wait i =>
    obtain ⟨sleep, st⟩ := Option.ite_none_right_eq_some.mp st
    obtain ⟨m, hm, rfl⟩ := Option.map_eq_some_iff.mp st
    exact .wait sleep hm
  | leave i =>
    obtain ⟨leaving, st⟩ := Option.ite_none_right_eq_some.mp st
    obtain ⟨m, hm, st⟩ := Option.bind_eq_some_iff.mp st
    obtain ⟨pool, hp, rfl⟩ := Option.map_eq_some_iff.mp st
    exact .leave leaving hm hp
  | work i =>
    obtain ⟨pool, hp, rfl⟩ := Option.map_eq_some_iff.mp st
    exact .work hp
  | spurious i =>
    obtain ⟨m, hm, rfl⟩ := Option.map_eq_some_iff.mp st
    exact .wake hm
  | addWorker process arg record offer =>
    obtain ⟨free, st⟩ := Option.ite_none_right_eq_some.mp st
    obtain ⟨r, hr, rfl⟩ := Option.map_eq_some_iff.mp st
    exact .addWorker free hr
  | signal woken =>
    obtain ⟨_, st⟩ := Option.ite_none_right_eq_some.mp st
    cases woken with
    | some i =>
      obtain ⟨m, hm, rfl⟩ := Option.map_eq_some_iff.mp st
      exact .wake hm
    | none =>
      obtain ⟨_, st⟩ := Option.ite_none_right_eq_some.mp st
      cases st
      exact .unheard
  | shutdown =>
    simp only [threadpoolDestroy] at st
    split at st
    next set =>
      cases st
      exact .again set
    next =>
      cases st
      exact .shutdown
  | broadcast =>
    obtain ⟨set, st⟩ := Option.ite_none_right_eq_some.mp st
    cases st
    exact .broadcast set
  | drain =>
    obtain ⟨_, st⟩ := Option.ite_none_right_eq_some.mp st
    obtain ⟨pool, hp, rfl⟩ := Option.map_eq_some_iff.mp st
    exact .drain hp

/-- The invariant only depends on who is inside, as long as the pool stays. -/
lemma FineInv.monitor (inv : FineInv s) {m : Monitor Nat} {spot : Nat → Spot} {signals : Nat}
    (same : ∀ i, m.stand i = .inside → s.monitor.stand i = .inside ∧ spot i = s.spot i) :
    FineInv { s with monitor := m, spot, signals } where
  inside i h := inv.inside i (same i h).1
  leave i h leaving := inv.leave i (same i h).1 ((same i h).2.symm.trans leaving)
  set := inv.set

/-- The invariant after a change of the pool that nobody inside notices. -/
lemma FineInv.unnoticed (inv : FineInv s) {signals : Nat}
    (threads : ∀ i, s.monitor.stand i = .inside → pool.threads i = s.pool.threads i)
    (size : ∀ i, s.monitor.stand i = .inside → pool.curQueueSize = s.pool.curQueueSize)
    (stop : s.pool.shutdown = true → pool.shutdown = true) : FineInv { s with pool, signals } where
  inside i h := by
    rw [threads i h]
    exact inv.inside i h
  leave i h leaving := by
    rintro ⟨empty, running⟩
    have still : s.pool.shutdown = false := by
      by_contra set
      rw [stop (by simpa using set)] at running
      cases running
    rw [size i h] at empty
    exact inv.leave i h leaving ⟨empty, still⟩
  set started := stop (inv.set started)

lemma threadpoolAddWorker_frame {process : P} {arg : A} {record offer : Option Addr}
    {r : Int × Threadpool P A} (e : threadpoolAddWorker pool process arg record offer = some r) :
    r.2.shutdown = pool.shutdown := by
  unfold threadpoolAddWorker at e
  split at e
  · cases e
  · obtain ⟨_, _, rfl⟩ := Option.map_eq_some_iff.mp e
    rfl

lemma FineInv.step (inv : FineInv s) (st : FineTrans s a s') : FineInv s' := by
  cases st.move.2 with
  | @lock i m free hm =>
    obtain ⟨_, _, _, stand⟩ := Monitor.acquire_spec hm
    refine ⟨fun j h => ?_, fun j h leaving => ?_, inv.set⟩ <;> by_cases hj : j = i
    · exact hj ▸ free
    · exact inv.inside j (by simpa [stand, hj] using h)
    · simp [hj] at leaving
    · exact inv.leave j (by simpa [stand, hj] using h) (by simpa [hj] using leaving)
  | @sleep i _ _ =>
    refine ⟨fun j h => ?_, fun j h leaving => ?_, inv.set⟩ <;> by_cases hj : j = i
    · simp [hj]
    · rw [goto_threads_other _ _ hj]
      exact inv.inside j h
    · simp [hj] at leaving
    · exact inv.leave j h (by simpa [hj] using leaving)
  | @proceed i more =>
    refine ⟨inv.inside, fun j h leaving => ?_, inv.set⟩
    by_cases hj : j = i
    · exact more
    · exact inv.leave j h (by simpa [hj] using leaving)
  | wait _ hm =>
    refine inv.monitor fun j h => absurd h ?_
    exact Monitor.not_inside (Monitor.leave_spec hm).2.1 j
  | leave _ hm hp =>
    -- nobody is inside any more
    have out := Monitor.not_inside (Monitor.leave_spec hm).2.1
    refine ⟨fun j h => absurd h (out j), fun j h => absurd h (out j), fun started => ?_⟩
    exact (threadpoolLeave_frame hp).trans (inv.set started)
  | work hp =>
    obtain ⟨⟨worker, busy⟩, stop, size, threads⟩ := threadpoolWork_frame hp
    refine inv.unnoticed (fun j h => threads j ?_) (fun _ _ => size) fun set => stop.trans set
    rintro rfl
    simpa [busy] using inv.inside j h
  | wake hm => exact inv.monitor fun j h => ⟨(Monitor.wake_inside hm j).mp h, rfl⟩
  | addWorker free hr =>
    have out := Monitor.not_inside free
    exact inv.unnoticed (fun j h => absurd h (out j)) (fun j h => absurd h (out j))
      fun set => (threadpoolAddWorker_frame hr).trans set
  | unheard => exact inv.monitor fun j h => ⟨h, rfl⟩
  | again set => exact inv
  | shutdown => exact ⟨inv.inside, fun _ _ _ h => absurd h.2 (by simp), fun _ => rfl⟩
  | broadcast set =>
    refine ⟨fun j h => ?_, fun j h => ?_, fun _ => inv.set (by simp [set])⟩
    · exact inv.inside j ((s.monitor.broadcast_inside j).mp h)
    · exact inv.leave j ((s.monitor.broadcast_inside j).mp h)
  | drain hp =>
    obtain ⟨stop, size, threads⟩ := threadpoolDrain_frame hp
    exact inv.unnoticed (fun j _ => congrFun threads j) (fun _ _ => size) fun set => stop.trans set

lemma FineInv.init (n : Nat) : FineInv (fineInit n : FinePool P A) :=
  ⟨nofun, nofun, fun h => absurd rfl h⟩

/-- A step leaves the pool alone or is a step of the pool whose critical sections are single
steps. -/
lemma FineInv.refines (inv : FineInv s) (st : FineTrans s a s') :
    s'.pool = s.pool ∨ ∃ a', PoolTrans s.pool a' s'.pool ∧
      (FineAllocates s a → Allocates s.pool a') := by
  obtain ⟨alive, mv⟩ := st.move
  have handle : ∀ i, poolStep s.pool (.handle i) = threadpoolHandle s.pool i := by
    simp [poolStep, alive]
  cases mv with
  | lock _ _ => exact .inl rfl
  | @sleep i here wait =>
    refine .inr ⟨.handle i, ?_, fun _ => trivial⟩
    rw [PoolTrans, handle, threadpoolHandle, if_pos (inv.inside i here), if_pos wait]
  | proceed _ => exact .inl rfl
  | wait _ _ => exact .inl rfl
  | @leave i m pool leaving hm hp =>
    have here := (s.monitor.holder i).mpr (Monitor.leave_spec hm).1
    refine .inr ⟨.handle i, ?_, fun _ => trivial⟩
    rw [PoolTrans, handle, threadpoolHandle_eq_leave (inv.inside i here) (inv.leave i here leaving),
      hp]
  | @work i pool hp =>
    exact .inr ⟨.work i, by simp [PoolTrans, poolStep, alive, hp], fun _ => trivial⟩
  | wake _ => exact .inl rfl
  | @addWorker process arg record offer r _ _ hr =>
    exact .inr ⟨.addWorker process arg record offer, by simp [PoolTrans, poolStep, alive, hr], id⟩
  | unheard => exact .inl rfl
  | again _ => exact .inl rfl
  | shutdown =>
    by_cases set : s.pool.shutdown = true
    · refine .inl ?_
      rw [← set]
    · refine .inr ⟨.destroy, ?_, fun _ => trivial⟩
      simp [PoolTrans, poolStep, alive, threadpoolDestroy, set]
  | broadcast _ => exact .inl rfl
  | drain hp => exact .inr ⟨.drain, by simp [PoolTrans, poolStep, alive, hp], fun _ => trivial⟩

/-- With its lock taken apart, the pool does nothing that the pool of single critical sections does
not do. -/
theorem fine_refines {n : Nat} {tr} (run : Run (fun (s : FinePool P A) a s' =>
    FineAllocates s a ∧ FineTrans s a s') (fineInit n) tr s) :
    FineInv s ∧ ∃ tr',
      Run (fun (pool : Threadpool P A) a pool' => Allocates pool a ∧ PoolTrans pool a pool')
      (threadpoolInit n) tr' s.pool := by
  refine run.invariant (fun s => FineInv s ∧ ∃ tr', Run (fun (pool : Threadpool P A) a pool' =>
    Allocates pool a ∧ PoolTrans pool a pool') (threadpoolInit n) tr' s.pool) ⟨.init n, [], .nil⟩ ?_
  rintro s a s' ⟨inv, tr', run'⟩ ⟨ok, st⟩
  refine ⟨inv.step st, ?_⟩
  obtain same | ⟨a', st', ok'⟩ := inv.refines st
  · rw [same]
    exact ⟨tr', run'⟩
  · exact ⟨a' :: tr', .cons run' ⟨ok' ok, st'⟩⟩

/-- A thread past the loop with the lock in its hands finds a task, or leaves because of
`shutdown`: the asserts of the source hold here as well. -/
theorem fine_leave {n : Nat} {tr}
    (run : Run (fun (s : FinePool P A) a s' => FineAllocates s a ∧ FineTrans s a s')
      (fineInit n) tr s)
    (alive : s.pool.destroyed = false) (here : s.monitor.stand i = .inside)
    (leaving : s.spot i = .leave) : ∃ s', FineTrans s (.leave i) s' := by
  obtain ⟨inv, tr', run'⟩ := fine_refines run
  obtain ⟨l, q, order⟩ | drained := PoolInv.run run'
  · obtain ⟨pool', _, _, e, _⟩ := order.handle (inv.inside i here)
    rw [poolStep, alive, if_neg Bool.false_ne_true,
      threadpoolHandle_eq_leave (inv.inside i here) (inv.leave i here leaving)] at e
    have holder := (s.monitor.holder i).mp here
    exact Option.isSome_iff_exists.mp
      (by simp [fineStep, alive, leaving, Monitor.release, Monitor.leave, holder, e])
  · rw [drained.destroyed] at alive
    cases alive

/-- Past the broadcast nobody is asleep or falls asleep. -/
def Roused (s : FinePool P A) : Prop :=
  s.destroyer = .joining → (∀ i, s.monitor.stand i ≠ .blocked) ∧ ∀ i, ¬ Dozing s i

/-- A broadcast that falls between the test and the wait of no thread wakes all, and later tests
find `shutdown` set. -/
lemma Roused.step (roused : Roused s) (inv : FineInv s) (clear : BroadcastClear s a)
    (st : FineTrans s a s') : Roused s' := by
  cases st.move.2 with
  | @lock i m _ hm =>
    intro joining
    obtain ⟨awake, alert⟩ := roused joining
    obtain ⟨_, _, _, stand⟩ := Monitor.acquire_spec hm
    refine ⟨fun j h => ?_, fun j ⟨h, sleep⟩ => ?_⟩ <;> by_cases hj : j = i
    · simp [stand, hj] at h
    · exact awake j (by simpa [stand, hj] using h)
    · simp [hj] at sleep
    · exact alert j ⟨by simpa [stand, hj] using h, by simpa [hj] using sleep⟩
  | sleep _ wait =>
    intro joining
    have joining : s.destroyer = .joining := joining
    have set := inv.set (by simp [joining])
    rw [wait.2] at set
    cases set
  | @proceed i _ =>
    intro joining
    obtain ⟨awake, alert⟩ := roused joining
    refine ⟨awake, fun j ⟨h, sleep⟩ => ?_⟩
    by_cases hj : j = i
    · simp [hj] at sleep
    · exact alert j ⟨h, by simpa [hj] using sleep⟩
  | @wait i m sleep hm =>
    intro joining
    obtain ⟨awake, alert⟩ := roused joining
    exact absurd ⟨(s.monitor.holder i).mpr (Monitor.leave_spec hm).1, sleep⟩ (alert i)
  | @leave i _ _ _ hm _ =>
    intro joining
    obtain ⟨awake, _⟩ := roused joining
    obtain ⟨_, free, stand⟩ := Monitor.leave_spec hm
    refine ⟨fun j h => ?_, fun j h => Monitor.not_inside free j h.1⟩
    by_cases hj : j = i
    · simp [stand, hj] at h
    · exact awake j (by simpa [stand, hj] using h)
  | work _ => exact roused
  | @wake _ i m _ hm =>
    intro joining
    obtain ⟨awake, _⟩ := roused joining
    exact absurd (Monitor.wake_spec hm).1 (awake i)
  | addWorker _ _ => exact roused
  | unheard => exact roused
  | again _ => exact roused
  | shutdown => nofun
  | broadcast _ =>
    refine fun _ => ⟨s.monitor.broadcast_stand, fun j ⟨h, sleep⟩ => clear j ⟨?_, sleep⟩⟩
    exact (s.monitor.broadcast_inside j).mp h
  | drain _ => exact roused

/-- In every run in which the broadcast falls between the test and the wait of no thread: when
`threadpool_destroy` is past its broadcast, no thread is blocked. -/
theorem shutdown_wakes_all (n : Nat) : ∀ tr (s : FinePool P A),
    Run (fun s a s' => BroadcastClear s a ∧ FineTrans s a s') (fineInit n) tr s →
    s.destroyer = .joining → ∀ i, s.monitor.stand i ≠ .blocked := by
  intro tr s run joining
  have roused : Roused s := by
    refine run.invariant_under FineInv Roused (.init n) (fun _ _ _ inv st => inv.step st.2) nofun ?_
    rintro s a s' inv roused ⟨clear, st⟩
    exact roused.step inv clear st
  exact (roused joining).1

/-- One of two threads is asleep and the other outside when `threadpool_destroy` broadcasts. -/
theorem shutdown_wakes_all_two : ∃ s : FinePool Nat Nat,
    Run (fun s a s' => BroadcastClear s a ∧ FineTrans s a s') (fineInit 2)
      [.broadcast, .shutdown, .wait 0, .test 0, .lock 0] s ∧
    s.destroyer = .joining ∧ s.monitor.stand 0 = .woken ∧ ∀ i, s.monitor.stand i ≠ .blocked := by
  have run :
    Run (fun (s : FinePool Nat Nat) a s' => BroadcastClear s a ∧ FineTrans s a s') (fineInit 2)
      [.broadcast, .shutdown, .wait 0, .test 0, .lock 0] _ :=
    .cons (.cons (.cons (.cons (.cons .nil ⟨trivial, rfl⟩) ⟨trivial, rfl⟩) ⟨trivial, rfl⟩)
      ⟨trivial, rfl⟩)
      ⟨fun i h => Monitor.not_inside rfl i h.1, rfl⟩
  exact ⟨_, run, rfl, rfl, shutdown_wakes_all 2 _ _ run rfl⟩

/-- A thread finds nothing to do, `threadpool_destroy` sets `shutdown` and broadcasts, and only then
the thread waits: it is blocked, no signal is on its way, and the join of it does not return. -/
theorem lost_wakeup : ∃ s : FinePool Nat Nat,
    Run FineTrans (fineInit 1) [.wait 0, .broadcast, .shutdown, .test 0, .lock 0] s ∧
    s.destroyer = .joining ∧ s.monitor.stand 0 = .blocked ∧ s.signals = 0 ∧
      fineStep s .drain = none :=
  ⟨_, .cons (.cons (.cons (.cons (.cons .nil rfl) rfl) rfl) rfl) rfl, rfl, rfl, rfl, rfl⟩

end SweetClib.Pool
