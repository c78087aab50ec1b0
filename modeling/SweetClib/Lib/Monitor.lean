import Mathlib.Tactic

/-!
# A lock with a condition variable

A `Monitor` says where every thread stands with respect to a lock and the one condition variable
that goes with it: outside, inside with the lock held, blocked on the condition, or woken and about
to take the lock again. That exactly the holder of the lock is inside is part of the structure. The
operations are those of threads libraries; `none` is an operation that cannot be done now.

* `Monitor.acquire`, `Monitor.release`: take and give back the lock.
* `Monitor.wait`: give back the lock and block, in one step.
* `Monitor.wake`, `Monitor.broadcast`: wake one of the blocked threads, or all of them.
-/

namespace SweetClib.Lib

/-- Where a thread stands. -/
inductive Stand where
  | outside
  | inside
  | blocked
  | woken
  deriving DecidableEq

/-- A lock and its condition variable, with threads `ι`. -/
structure Monitor (ι : Type*) where
  lock : Option ι
  stand : ι → Stand
  holder : ∀ i, stand i = .inside ↔ lock = some i

variable {ι : Type*} {m m' : Monitor ι} {i : ι}

/-- All threads are outside. -/
def Monitor.init : Monitor ι :=
  ⟨none, fun _ => .outside, fun _ => by simp⟩

/-- While nobody holds the lock, nobody is inside. -/
lemma Monitor.not_inside (free : m.lock = none) (i : ι) : m.stand i ≠ .inside := by
  rw [Ne, m.holder, free]
  nofun

/-- All blocked threads are woken. -/
def Monitor.broadcast (m : Monitor ι) : Monitor ι :=
  ⟨m.lock, fun i => if m.stand i = .blocked then .woken else m.stand i, fun i => by
    rw [← m.holder i]
    split
    next h => simp [h]
    next => rfl⟩

lemma Monitor.broadcast_stand (m : Monitor ι) (i : ι) : m.broadcast.stand i ≠ .blocked := by
  simp only [broadcast]
  split
  next => nofun
  next h => exact h

/-- A broadcast moves nobody in or out. -/
lemma Monitor.broadcast_inside (m : Monitor ι) (i : ι) :
    m.broadcast.stand i = .inside ↔ m.stand i = .inside := by
  rw [m.broadcast.holder, m.holder]
  rfl

variable [DecidableEq ι]

/-- The lock is free, and a thread takes it. -/
def Monitor.acquire (m : Monitor ι) (i : ι) : Option (Monitor ι) :=
  if h : m.lock = none ∧ (m.stand i = .outside ∨ m.stand i = .woken) then
    some ⟨some i, Function.update m.stand i .inside, fun j => by
      by_cases hj : j = i
      · simp [hj]
      · have no := m.holder j
        simp only [h.1, reduceCtorEq, iff_false] at no
        simp [hj, no, Ne.symm hj]⟩
  else none

/-- The holder of the lock gives it back and stands somewhere else. -/
def Monitor.leave (m : Monitor ι) (i : ι) (stand : Stand) (out : stand ≠ .inside) :
    Option (Monitor ι) :=
  if h : m.lock = some i then
    some ⟨none, Function.update m.stand i stand, fun j => by
      by_cases hj : j = i
      · simp [hj, out]
      · have no := m.holder j
        simp only [h, Option.some.injEq, Ne.symm hj, iff_false] at no
        simp [hj, no]⟩
  else none

/-- The holder of the lock gives it back. -/
def Monitor.release (m : Monitor ι) (i : ι) : Option (Monitor ι) :=
  m.leave i .outside nofun

/-- The holder of the lock gives it back and blocks. -/
def Monitor.wait (m : Monitor ι) (i : ι) : Option (Monitor ι) :=
  m.leave i .blocked nofun

/-- A blocked thread is woken. -/
def Monitor.wake (m : Monitor ι) (i : ι) : Option (Monitor ι) :=
  if h : m.stand i = .blocked then
    some ⟨m.lock, Function.update m.stand i .woken, fun j => by
      by_cases hj : j = i
      · have no := m.holder i
        simp only [h, reduceCtorEq, false_iff] at no
        simp [hj, no]
      · simp [hj, m.holder j]⟩
  else none

/-- Taking the lock changes only who is inside. -/
lemma Monitor.acquire_spec (e : m.acquire i = some m') :
    m.lock = none ∧ m'.lock = some i ∧ (m.stand i = .outside ∨ m.stand i = .woken) ∧
      m'.stand = Function.update m.stand i .inside := by
  unfold acquire at e
  split at e
  next h =>
    cases e
    exact ⟨h.1, rfl, h.2, rfl⟩
  next => cases e

/-- Giving the lock back changes only where its holder stands. -/
lemma Monitor.leave_spec {stand : Stand} {out : stand ≠ .inside}
    (e : m.leave i stand out = some m') :
    m.lock = some i ∧ m'.lock = none ∧ m'.stand = Function.update m.stand i stand := by
  unfold leave at e
  split at e
  next h =>
    cases e
    exact ⟨h, rfl, rfl⟩
  next => cases e

/-- Waking changes only where the woken thread stands. -/
lemma Monitor.wake_spec (e : m.wake i = some m') :
    m.stand i = .blocked ∧ m'.lock = m.lock ∧ m'.stand = Function.update m.stand i .woken := by
  unfold wake at e
  split at e
  next h =>
    cases e
    exact ⟨h, rfl, rfl⟩
  next => cases e

lemma Monitor.wake_inside (e : m.wake i = some m') (j : ι) :
    m'.stand j = .inside ↔ m.stand j = .inside := by
  rw [m'.holder, m.holder, (Monitor.wake_spec e).2.1]

end SweetClib.Lib
