import SweetClib.Lib.Run
import SweetClib.Linked.Sequence
import SweetClib.Pool.Threadpool

/-!
# Every task is dispatched once and in order

For any number of threads and any interleaving, while allocations succeed: the counter is the
length of the queue, the asserts of the threads hold, the tasks taken followed by those queued are
those added, and no task is run twice or both run and discarded (`threadpool_dispatch`).

`PoolInv pool l q` is the invariant of a pool that was not freed: the queue represents the elements
`l`, whose records are the tasks `q`, and every thread at work has a task of its own.
-/

namespace SweetClib.Pool
open SweetClib.Lib SweetClib.Linked

variable {P A : Type*}

/-- The invariant of a pool that was not freed, with the elements of its queue and their tasks. -/
structure PoolInv (pool : Threadpool P A) (l : List (Addr × Addr)) (q : List (Threadworker P A)) :
    Prop where
  alive : pool.destroyed = false
  rep : Rep pool.heap pool.workQueue l
  queued : l.map (fun x => pool.records x.2) = q.map some
  distinct : (l.map Prod.snd).Nodup
  size : pool.curQueueSize = l.length
  order : pool.taken ++ q = pool.added
  numbers : ∀ t ∈ pool.added, t.number < pool.added.length
  nodup : pool.added.Nodup
  working : ∀ i p, pool.threads i = .working p → p ∉ l.map Prod.snd ∧
    ∃ t, pool.records p = some t ∧ t ∈ pool.taken ∧ t ∉ pool.ran
  own : ∀ i j p p' t, pool.threads i = .working p → pool.threads j = .working p' →
    pool.records p = some t → pool.records p' = some t → i = j
  ran : ∀ t ∈ pool.ran, t ∈ pool.taken
  once : pool.ran.Nodup
  kept : pool.discarded = []

/-- What holds of a pool that was freed. -/
structure Drained (pool : Threadpool P A) : Prop where
  destroyed : pool.destroyed = true
  order : pool.taken ++ pool.discarded = pool.added
  nodup : pool.added.Nodup
  ran : ∀ t ∈ pool.ran, t ∈ pool.taken
  once : pool.ran.Nodup

variable {pool pool' : Threadpool P A} {l : List (Addr × Addr)} {q : List (Threadworker P A)}

lemma PoolInv.init (n : Nat) : PoolInv (threadpoolInit n : Threadpool P A) [] [] := by
  have none : ∀ i p, (threadpoolInit n : Threadpool P A).threads i ≠ .working p := by
    intro i p h
    simp only [threadpoolInit] at h
    split at h <;> cases h
  exact ⟨rfl, .init _ _, rfl, .nil, rfl, rfl, nofun, .nil, fun i p h => absurd h (none i p),
    fun i _ p _ _ h => absurd h (none i p), nofun, .nil, rfl⟩

/-- A queued record is a task of the queue. -/
lemma PoolInv.record (inv : PoolInv pool l q) {p : Addr} (mem : p ∈ l.map Prod.snd) :
    ∃ t ∈ q, pool.records p = some t := by
  obtain ⟨x, hx, rfl⟩ := List.mem_map.mp mem
  have h : pool.records x.2 ∈ q.map some := by
    rw [← inv.queued]
    exact List.mem_map_of_mem hx
  obtain ⟨t, ht, e⟩ := List.mem_map.mp h
  exact ⟨t, ht, e.symm⟩

lemma PoolInv.addWorker (inv : PoolInv pool l q) (process : P) (arg : A)
    {record offer : Option Addr} (ok : Allocates pool (.addWorker process arg record offer)) :
    ∃ pool' l' q', poolStep pool (.addWorker process arg record offer) = some pool' ∧
      PoolInv pool' l' q' := by
  obtain ⟨hr, ho⟩ := ok
  obtain ⟨worker, hw⟩ := Option.ne_none_iff_exists'.mp hr
  have fresh := Heap.malloc_fresh hw
  obtain ⟨fail, _⟩ | ⟨a, heap', queue', _, enq, rep'⟩ := queueEnqueue_spec inv.rep worker offer
  · exact absurd fail ho
  let task : Threadworker P A := { process, arg, number := pool.added.length }
  -- the new record is nobody else's
  have out : worker ∉ l.map Prod.snd := by
    intro mem
    obtain ⟨t, _, ht⟩ := inv.record mem
    simp [fresh] at ht
  have busy : ∀ i p, pool.threads i = .working p → p ≠ worker := by
    rintro i p h rfl
    obtain ⟨_, t, ht, _⟩ := inv.working i p h
    simp [fresh] at ht
  have new : task ∉ pool.added := fun mem => Nat.lt_irrefl _ (inv.numbers task mem)
  refine ⟨{ pool with
      heap := heap', records := pool.records.set worker task, workQueue := queue',
      curQueueSize := pool.curQueueSize + 1, added := pool.added ++ [task] },
    l ++ [(a, worker)], q ++ [task], ?_,
    ⟨inv.alive, rep', ?_, ?_, ?_, ?_, ?_, ?_, ?_, ?_, inv.ran, inv.once, inv.kept⟩⟩
  · simp [poolStep, inv.alive, threadpoolAddWorker, hw, enq, task]
  · rw [List.map_append, List.map_append, ← inv.queued]
    congr 1
    · refine List.map_congr_left fun x mem => Heap.set_other _ _ fun h => out ?_
      exact h ▸ List.mem_map_of_mem mem
    · simp
  · rw [List.map_append, List.map_singleton]
    exact inv.distinct.append (List.nodup_singleton _) (by simpa using out)
  · simp [inv.size]
  · rw [← List.append_assoc, inv.order]
  · intro t mem
    rw [List.length_append, List.length_singleton]
    obtain mem | mem := List.mem_append.mp mem
    · exact Nat.lt_succ_of_lt (inv.numbers t mem)
    · rw [List.mem_singleton.mp mem]
      exact Nat.lt_succ_self _
  · exact inv.nodup.append (List.nodup_singleton _) (by simpa using new)
  · intro i p h
    obtain ⟨free, t, ht, rest⟩ := inv.working i p h
    refine ⟨?_, t, ?_, rest⟩
    · simpa using ⟨by simpa using free, busy i p h⟩
    · exact (Heap.set_other _ _ (busy i p h)).trans ht
  · intro i j p p' t h h' ht ht'
    have ht : pool.records p = some t := (Heap.set_other _ task (busy i p h)).symm.trans ht
    have ht' : pool.records p' = some t := (Heap.set_other _ task (busy j p' h')).symm.trans ht'
    exact inv.own i j p p' t h h' ht ht'

/-- The threads at work after one has moved on. -/
lemma goto_working {i j : Nat} {p : Addr} {thread : Thread}
    (h : (pool.goto i thread).threads j = .working p) :
    j = i ∧ thread = .working p ∨ j ≠ i ∧ pool.threads j = .working p := by
  by_cases hj : j = i
  · subst hj
    exact .inl ⟨rfl, by simpa [Threadpool.goto] using h⟩
  · exact .inr ⟨hj, by simpa [Threadpool.goto, hj] using h⟩

/-- A thread moves to a place where it has no task. -/
lemma PoolInv.goto (inv : PoolInv pool l q) {i : Nat} {thread : Thread}
    (no : ∀ p, thread ≠ .working p) : PoolInv (pool.goto i thread) l q := by
  have back : ∀ j p, (pool.goto i thread).threads j = .working p → pool.threads j = .working p := by
    intro j p h
    obtain ⟨_, e⟩ | ⟨_, h⟩ := goto_working h
    · exact absurd e (no p)
    · exact h
  exact { inv with
    working := fun j p h => inv.working j p (back j p h)
    own := fun j k p p' t h h' => inv.own j k p p' t (back j p h) (back k p' h') }

/-- A thread goes through its critical section: its asserts hold. -/
lemma PoolInv.handle (inv : PoolInv pool l q) {i : Nat}
    (free : pool.threads i = .ready ∨ pool.threads i = .waiting) :
    ∃ pool' l' q', poolStep pool (.handle i) = some pool' ∧ PoolInv pool' l' q' := by
  simp only [poolStep, inv.alive, Bool.false_eq_true, if_false, threadpoolHandle, threadpoolLeave,
    if_pos free]
  by_cases wait : pool.curQueueSize = 0 ∧ pool.shutdown = false
  · exact ⟨_, l, q, if_pos wait, inv.goto nofun⟩
  rw [if_neg wait]
  by_cases stop : pool.shutdown = true
  · exact ⟨_, l, q, if_pos stop, inv.goto nofun⟩
  rw [if_neg stop]
  have more : pool.curQueueSize ≠ 0 := fun h => wait ⟨h, by simpa using stop⟩
  rw [if_neg more]
  -- the counter is not zero, so there is a first task
  cases l with
  | nil => exact absurd inv.size more
  | cons x l =>
    cases q with
    | nil => simpa using inv.queued
    | cons t q =>
      obtain ⟨a, worker⟩ := x
      obtain ⟨heap', list', deq, rep', _⟩ := listRemNext_front inv.rep worker
      have peek : queuePeek pool.heap pool.workQueue = some (some worker) := queuePeek_spec inv.rep
      have queued := inv.queued
      rw [List.map_cons, List.map_cons, List.cons.injEq] at queued
      obtain ⟨ht, queued⟩ := queued
      have ht : pool.records worker = some t := ht
      have distinct := inv.distinct
      rw [List.map_cons, List.nodup_cons] at distinct
      have nodup := inv.nodup
      rw [← inv.order] at nodup
      obtain ⟨_, _, apart⟩ := List.nodup_append.mp nodup
      have new : t ∉ pool.taken := fun mem => apart t mem t List.mem_cons_self rfl
      have deq : queueDequeue pool.heap pool.workQueue worker = some (0, heap', list', worker) :=
        deq
      simp only [peek, deq, Option.map_some, ht, Option.toList_some]
      refine ⟨_, l, q, rfl,
        ⟨inv.alive, rep', queued, distinct.2, ?_, ?_, inv.numbers, inv.nodup, ?_, ?_, ?_, inv.once,
          inv.kept⟩⟩
      · simp [inv.size]
      · rw [List.append_assoc]
        exact inv.order
      · intro j p h
        obtain ⟨_, e⟩ | ⟨_, h⟩ := goto_working h
        · cases e
          exact ⟨distinct.1, t, ht, by simp, fun mem => new (inv.ran t mem)⟩
        · obtain ⟨out, t', ht', mem, rest⟩ := inv.working j p h
          exact ⟨fun mem => out (List.mem_cons_of_mem _ mem), t', ht',
            List.mem_append_left _ mem, rest⟩
      · -- the task of another thread was taken before
        have other : ∀ j p, pool.threads j = .working p → pool.records p ≠ some t := by
          intro j p h e
          obtain ⟨_, t', ht', mem, _⟩ := inv.working j p h
          rw [ht', Option.some.injEq] at e
          exact new (e ▸ mem)
        intro j k p p' t' h h' (hp : pool.records p = some t') (hp' : pool.records p' = some t')
        obtain ⟨ej, e⟩ | ⟨_, h⟩ := goto_working h <;> obtain ⟨ek, e'⟩ | ⟨_, h'⟩ := goto_working h'
        · rw [ej, ek]
        · cases e
          exact absurd (hp'.trans (hp.symm.trans ht)) (other k p' h')
        · cases e'
          exact absurd (hp.trans (hp'.symm.trans ht)) (other j p h)
        · exact inv.own j k p p' t' h h' hp hp'
      · exact fun t' mem => List.mem_append_left _ (inv.ran t' mem)

/-- A thread runs its task and frees the record, which nobody else has. -/
lemma PoolInv.work (inv : PoolInv pool l q) {i : Nat} {worker : Addr}
    (busy : pool.threads i = .working worker) :
    ∃ pool' l' q', poolStep pool (.work i) = some pool' ∧ PoolInv pool' l' q' := by
  obtain ⟨out, t, ht, mem, fresh⟩ := inv.working i worker busy
  have others : ∀ j p, ((pool.goto i .ready).threads j = .working p) →
      pool.threads j = .working p ∧ j ≠ i ∧ p ≠ worker := by
    intro j p h
    obtain ⟨_, e⟩ | ⟨hj, h⟩ := goto_working h
    · cases e
    · refine ⟨h, hj, fun e => hj ?_⟩
      subst e
      exact inv.own j i _ _ t h busy ht ht
  refine ⟨{ pool.goto i .ready with records := pool.records.free worker, ran := pool.ran ++ [t] },
    l, q, ?_,
    ⟨inv.alive, inv.rep, ?_, inv.distinct, inv.size, inv.order, inv.numbers, inv.nodup, ?_, ?_, ?_,
      ?_, inv.kept⟩⟩
  · simp [poolStep, inv.alive, threadpoolWork, busy, ht]
  · rw [← inv.queued]
    refine List.map_congr_left fun x hx => Heap.free_other _ fun e => out ?_
    exact e ▸ List.mem_map_of_mem hx
  · intro j p h
    obtain ⟨h, hj, ne⟩ := others j p h
    obtain ⟨free, t', ht', taken, rest⟩ := inv.working j p h
    refine ⟨free, t', (Heap.free_other _ ne).trans ht', taken, fun mem => ?_⟩
    obtain mem | mem := List.mem_append.mp mem
    · exact rest mem
    · rw [List.mem_singleton.mp mem] at ht'
      exact hj (inv.own j i p worker t h busy ht' ht)
  · intro j k p p' t' h h' hp hp'
    obtain ⟨h, _, ne⟩ := others j p h
    obtain ⟨h', _, ne'⟩ := others k p' h'
    exact inv.own j k p p' t' h h' ((Heap.free_other _ ne).symm.trans hp)
      ((Heap.free_other _ ne').symm.trans hp')
  · intro t' mem'
    obtain mem' | mem' := List.mem_append.mp mem'
    · exact inv.ran t' mem'
    · rw [List.mem_singleton.mp mem']
      exact mem
  · exact inv.once.append (List.nodup_singleton _) (by simpa using fresh)

lemma PoolInv.destroy (inv : PoolInv pool l q) : PoolInv (threadpoolDestroy pool).2 l q := by
  rw [threadpoolDestroy]
  split
  · exact inv
  · exact { inv with }

/-- The loop discards what is in the queue. -/
lemma drainLoop_spec {n : Nat} (rep : Rep pool.heap pool.workQueue l)
    (queued : l.map (fun x => pool.records x.2) = q.map some) (bound : l.length < n) :
    ∃ heap' queue', drainLoop n pool = some { pool with
      heap := heap', workQueue := queue', discarded := pool.discarded ++ q } := by
  induction l generalizing n pool q with
  | nil =>
    cases n with
    | zero => cases bound
    | succ n =>
      have empty : q = [] := by simpa using queued.symm
      refine ⟨pool.heap, pool.workQueue, ?_⟩
      rw [drainLoop, queuePeek_spec rep, empty, List.append_nil]
      rfl
  | cons x l ih =>
    cases n with
    | zero => cases bound
    | succ n =>
      cases q with
      | nil => simp at queued
      | cons t q =>
        obtain ⟨a, worker⟩ := x
        rw [List.map_cons, List.map_cons, List.cons.injEq] at queued
        obtain ⟨ht, queued⟩ := queued
        obtain ⟨heap', list', deq, rep', _⟩ := listRemNext_front rep worker
        have deq : queueDequeue pool.heap pool.workQueue worker = some (0, heap', list', worker) :=
          deq
        have ht : pool.records worker = some t := ht
        have peek : queuePeek pool.heap pool.workQueue = some (some worker) := queuePeek_spec rep
        let next : Threadpool P A :=
          { pool with heap := heap', workQueue := list', discarded := pool.discarded ++ [t] }
        have repNext : Rep next.heap next.workQueue l := rep'
        obtain ⟨heap₁, queue₁, e⟩ := ih repNext queued (Nat.lt_of_succ_lt_succ bound)
        refine ⟨heap₁, queue₁, ?_⟩
        simp only [drainLoop, peek, deq, ht, Option.toList_some]
        refine e.trans ?_
        simp [next]

/-- The end of a pool: what is left is discarded. -/
lemma PoolInv.drain (inv : PoolInv pool l q) (stop : pool.shutdown = true)
    (joined : ∀ i < pool.maxThreadNum, pool.threads i = .exited) :
    ∃ pool', poolStep pool .drain = some pool' ∧ Drained pool' := by
  have bound : l.length < pool.workQueue.size.toNat + 1 := by
    rw [inv.rep.size]
    exact Nat.lt_succ_self _
  obtain ⟨heap', queue', e⟩ := drainLoop_spec inv.rep inv.queued bound
  refine ⟨{ pool with
      heap := heap', workQueue := queue', destroyed := true, discarded := pool.discarded ++ q }, ?_,
    ⟨rfl, ?_, inv.nodup, inv.ran, inv.once⟩⟩
  · simp only [poolStep, inv.alive, Bool.false_eq_true, if_false, threadpoolDrain,
      if_pos (And.intro stop joined), e, Option.map_some]
  · rw [inv.kept]
    exact inv.order

/-- The thread or the caller that takes a step is where the step starts. -/
def Enabled (pool : Threadpool P A) : Action P A → Prop
  | .addWorker _ _ _ _ => True
  | .handle i => pool.threads i = .ready ∨ pool.threads i = .waiting
  | .work i => ∃ worker, pool.threads i = .working worker
  | .destroy => True
  | .drain => pool.shutdown = true ∧ ∀ i < pool.maxThreadNum, pool.threads i = .exited

/-- A step that was taken could be taken. -/
lemma PoolTrans.enabled {a : Action P A} (st : PoolTrans pool a pool') :
    pool.destroyed = false ∧ Enabled pool a := by
  have alive : pool.destroyed = false := by
    cases h : pool.destroyed with
    | false => rfl
    | true => cases a <;> simp [PoolTrans, poolStep, h] at st
  refine ⟨alive, ?_⟩
  cases a with
  | addWorker process arg record offer => trivial
  | handle i =>
    simp only [PoolTrans, poolStep, alive, Bool.false_eq_true, if_false, threadpoolHandle] at st
    split at st
    · assumption
    · cases st
  | work i =>
    simp only [PoolTrans, poolStep, alive, Bool.false_eq_true, if_false, threadpoolWork] at st
    split at st
    next worker h => exact ⟨worker, h⟩
    · cases st
  | destroy => trivial
  | drain =>
    simp only [PoolTrans, poolStep, alive, Bool.false_eq_true, if_false, threadpoolDrain] at st
    split at st
    · assumption
    · cases st

/-- Every step that can be taken has a result, and the pool is in order after it. -/
lemma PoolInv.step (inv : PoolInv pool l q) {a : Action P A} (en : Enabled pool a)
    (ok : Allocates pool a) :
    ∃ pool', PoolTrans pool a pool' ∧ ((∃ l q, PoolInv pool' l q) ∨ Drained pool') := by
  cases a with
  | addWorker process arg record offer =>
    obtain ⟨pool', l', q', e, inv'⟩ := inv.addWorker process arg ok
    exact ⟨pool', e, .inl ⟨l', q', inv'⟩⟩
  | handle i =>
    obtain ⟨pool', l', q', e, inv'⟩ := inv.handle en
    exact ⟨pool', e, .inl ⟨l', q', inv'⟩⟩
  | work i =>
    obtain ⟨worker, busy⟩ := en
    obtain ⟨pool', l', q', e, inv'⟩ := inv.work busy
    exact ⟨pool', e, .inl ⟨l', q', inv'⟩⟩
  | destroy =>
    exact ⟨(threadpoolDestroy pool).2, by
      simp [PoolTrans, poolStep, inv.alive], .inl ⟨l, q, inv.destroy⟩⟩
  | drain =>
    obtain ⟨pool', e, drained⟩ := inv.drain en.1 en.2
    exact ⟨pool', e, .inr drained⟩

/-- A pool is in order in every run in which allocations succeed. -/
lemma PoolInv.run {n : Nat} {tr} (run : Run (fun (pool : Threadpool P A) a pool' =>
    Allocates pool a ∧ PoolTrans pool a pool') (threadpoolInit n) tr pool) :
    (∃ l q, PoolInv pool l q) ∨ Drained pool := by
  refine run.invariant (fun pool => (∃ l q, PoolInv pool l q) ∨ Drained pool)
    (.inl ⟨[], [], .init n⟩) ?_
  rintro pool a pool' (⟨l, q, inv⟩ | drained) ⟨ok, st⟩
  · obtain ⟨pool₁, e, order⟩ := inv.step st.enabled.2 ok
    have same : poolStep pool a = some pool' := st
    rw [show poolStep pool a = some pool₁ from e] at same
    cases same
    exact order
  · have alive := st.enabled.1
    rw [drained.destroyed] at alive
    cases alive

/-- In every run in which allocations succeed: until the pool is freed, the counter is the length
of the queue, a thread that finds it other than zero finds a task, the tasks taken followed by
those queued are those added, and every step that can be taken has a result; the tasks discarded at
the end are those never taken; every task is run at most once, after it was taken, and none that is
run is discarded. -/
theorem threadpool_dispatch (n : Nat) : ∀ tr (pool : Threadpool P A),
    Run (fun pool a pool' => Allocates pool a ∧ PoolTrans pool a pool') (threadpoolInit n) tr pool →
    (pool.destroyed = false →
      (∃ l, Rep pool.heap pool.workQueue l ∧ pool.curQueueSize = l.length ∧
        pool.taken.map some ++ l.map (fun x => pool.records x.2) = pool.added.map some) ∧
      (pool.curQueueSize ≠ 0 → ∃ worker, queuePeek pool.heap pool.workQueue = some (some worker)) ∧
      ∀ a, Enabled pool a → Allocates pool a → ∃ pool', PoolTrans pool a pool') ∧
    (pool.destroyed = true → pool.taken ++ pool.discarded = pool.added) ∧
    pool.added.Nodup ∧ pool.ran.Nodup ∧ ∀ t ∈ pool.ran, t ∈ pool.taken ∧ t ∉ pool.discarded := by
  intro tr pool run
  obtain ⟨l, q, inv⟩ | drained := PoolInv.run run
  · refine ⟨fun _ => ⟨⟨l, inv.rep, inv.size, ?_⟩, fun more => ?_, fun a en ok => ?_⟩, fun h => ?_,
      inv.nodup, inv.once, fun t mem => ⟨inv.ran t mem, by simp [inv.kept]⟩⟩
    · rw [inv.queued, ← List.map_append, inv.order]
    · rw [queuePeek_spec inv.rep]
      cases l with
      | nil => exact absurd inv.size more
      | cons x l => exact ⟨x.2, rfl⟩
    · obtain ⟨pool', st, _⟩ := inv.step en ok
      exact ⟨pool', st⟩
    · rw [inv.alive] at h
      cases h
  · have nodup := drained.nodup
    rw [← drained.order] at nodup
    obtain ⟨_, _, apart⟩ := List.nodup_append.mp nodup
    refine ⟨fun h => ?_, fun _ => drained.order, drained.nodup, drained.once, fun t mem => ?_⟩
    · rw [drained.destroyed] at h
      cases h
    · exact ⟨drained.ran t mem, fun mem' => apart t (drained.ran t mem) t mem' rfl⟩

/-- A pool of one thread runs one of two tasks and discards the other. -/
theorem threadpool_dispatch_two : ∃ pool : Threadpool Nat Nat,
    Run (fun pool a pool' => Allocates pool a ∧ PoolTrans pool a pool') (threadpoolInit 1)
      [.drain, .handle 0, .destroy, .addWorker 7 2 (some 0) (some 0), .work 0, .handle 0,
        .addWorker 7 1 (some 0) (some 0)] pool ∧
    pool.ran.map (·.arg) = [1] ∧ pool.discarded.map (·.arg) = [2] ∧
    ∀ t ∈ pool.ran, t ∈ pool.taken ∧ t ∉ pool.discarded := by
  have run :
    Run (fun (pool : Threadpool Nat Nat) a pool' => Allocates pool a ∧ PoolTrans pool a pool')
      (threadpoolInit 1) [.drain, .handle 0, .destroy, .addWorker 7 2 (some 0) (some 0), .work 0,
        .handle 0,
        .addWorker 7 1 (some 0) (some 0)] _ :=
    .cons (.cons
      (.cons (.cons (.cons (.cons (.cons .nil ⟨⟨nofun, nofun⟩, rfl⟩) ⟨trivial, rfl⟩) ⟨trivial, rfl⟩)
      ⟨⟨nofun, nofun⟩, rfl⟩) ⟨trivial, rfl⟩) ⟨trivial, rfl⟩) ⟨trivial, rfl⟩
  exact ⟨_, run, rfl, rfl, (threadpool_dispatch 1 _ _ run).2.2.2.2⟩

end SweetClib.Pool
