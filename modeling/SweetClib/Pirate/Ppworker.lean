import SweetClib.Lib.Run
import SweetClib.Pirate.Ppqueue

/-!
# The paranoid pirate worker

`lib/zeromq/reliable/ppworker.c`: a worker of the queue of `ppqueue.c`. It sends a request back as
its reply, and watches the queue: after `HEARTBEAT_LIVENESS` polls without a message it takes the
queue for dead, sleeps, and connects with a new socket; the time it sleeps doubles from one
reconnection to the next, up to `INTERVAL_MAX`. `ZMQ_POLL` in the poll item is read as
`ZMQ_POLLIN`. `liveness` and `interval` are of type `size_t`, which is taken to have 64 bits.

A round of the loop is the poll with what it leads to (`ppworkerMsg`, `ppworkerTimeout`) and the
heartbeat at its end (`ppworkerHeartbeat`). An interrupt, or an error of `zmq_poll`, ends the
worker. The first byte of the frame of a message of one frame is read; if there is none, this is a
fault.

C → Lean naming: `s_worker_socket` → the message `PPP_READY` that is the first one on every socket;
`main` → `ppworkerNew` before the loop and the functions above in it.
-/

namespace SweetClib.Pirate.Paranoid
open SweetClib.Lib SweetClib.Majordomo

def INTERVAL_INIT : Nat := 1000
def INTERVAL_MAX : Nat := 32000

/-- The message `"\001"`. -/
def PPP_READY : Str := [1]

/-- The message `"\002"`. -/
def PPP_HEARTBEAT : Str := [2]

/-- The variables of a worker. -/
structure Ppworker where
  liveness : Nat
  interval : Nat
  heartbeatAt : Nat
  cycles : Nat
deriving DecidableEq

/-- A worker before its loop, connected at some time. -/
def ppworkerNew (now : Nat) : Ppworker :=
  { liveness := HEARTBEAT_LIVENESS, interval := INTERVAL_INIT,
    heartbeatAt := now + HEARTBEAT_INTERVAL, cycles := 0 }

/-- A message: the worker, and what it sends. -/
def ppworkerMsg (self : Ppworker) (msg : Zmsg) : Option (Ppworker × List Zmsg) :=
  let self := { self with interval := INTERVAL_INIT }
  match msg with
  | [_, _, _] =>
    some ({ self with cycles := self.cycles + 1, liveness := HEARTBEAT_LIVENESS }, [msg])
  | [[]] => none
  | [byte :: _] =>
    some (if [byte] = PPP_HEARTBEAT then { self with liveness := HEARTBEAT_LIVENESS } else self, [])
  | _ => some (self, [])

/-- The worker can simulate a crash at a request after its third one. -/
def ppworkerCrash (self : Ppworker) (msg : Zmsg) : Bool :=
  msg.length = 3 ∧ 3 < self.cycles + 1

/-- No message in time: the worker, and how long it slept before it connected again, if it did. -/
def ppworkerTimeout (self : Ppworker) : Ppworker × Option Nat :=
  let liveness := (self.liveness + 2 ^ 64 - 1) % 2 ^ 64
  if liveness = 0 then
    let interval :=
      if self.interval < INTERVAL_MAX then self.interval * 2 % 2 ^ 64 else self.interval
    ({ self with liveness := HEARTBEAT_LIVENESS, interval }, some self.interval)
  else ({ self with liveness }, none)

/-- The end of a round, with the two readings of the clock. -/
def ppworkerHeartbeat (self : Ppworker) (now now' : Nat) : Ppworker × List Zmsg :=
  if self.heartbeatAt < now then
    ({ self with heartbeatAt := now' + HEARTBEAT_INTERVAL }, [[PPP_HEARTBEAT]])
  else (self, [])

/-- What happens to a worker. -/
inductive Event where
  | msg (msg : Zmsg)
  | timeout
  | heartbeat (now now' : Nat)
deriving DecidableEq

/-- A step of a worker, with the time it slept. -/
def ppworkerStep (self : Ppworker) : Event → Option (Option Nat × Ppworker)
  | .msg msg => (ppworkerMsg self msg).map fun r => (none, r.1)
  | .timeout => some ((ppworkerTimeout self).2, (ppworkerTimeout self).1)
  | .heartbeat now now' => some (none, (ppworkerHeartbeat self now now').1)

/-- The steps of a worker, each with the time it slept. -/
abbrev PpworkerStep : Ppworker → Event × Option Nat → Ppworker → Prop := Answers ppworkerStep

/-- A request, or a heartbeat. -/
def isValid : Zmsg → Bool
  | [_, _, _] => true
  | [byte :: _] => [byte] = PPP_HEARTBEAT
  | _ => false

def Event.isTimeout : Event → Bool
  | .timeout => true
  | _ => false

/-- Any message. -/
def Event.isMsg : Event → Bool
  | .msg _ => true
  | _ => false

/-- A message that shows that the queue is alive. -/
def Event.isSign : Event → Bool
  | .msg m => isValid m
  | _ => false

/-- How many polls timed out since an event of some kind. -/
def timeoutsSince (kind : Event → Bool) (tr : List (Event × Option Nat)) : Nat :=
  (tr.takeWhile fun a => !kind a.1).countP fun a => a.1.isTimeout

/-- The polls without a sign of the queue. -/
def silent (tr : List (Event × Option Nat)) : Nat := timeoutsSince Event.isSign tr

/-- The reconnections since the last message: one for every `HEARTBEAT_LIVENESS` polls without a
sign, but for those before the last message. -/
def reconnections (tr : List (Event × Option Nat)) : Nat :=
  silent tr / HEARTBEAT_LIVENESS - (silent tr - timeoutsSince Event.isMsg tr) / HEARTBEAT_LIVENESS

/-- The time of a reconnection, after so many others. -/
def backoff (r : Nat) : Nat := min (INTERVAL_INIT * 2 ^ r) INTERVAL_MAX

/-- How long the worker sleeps at a timeout after a history, if it connects again. -/
def pause (tr : List (Event × Option Nat)) : Option Nat :=
  if (silent tr + 1) % HEARTBEAT_LIVENESS = 0 then some (backoff (reconnections tr)) else none

/-- What the variables of a worker are after a history, and how long it slept in it. -/
structure Watches (tr : List (Event × Option Nat)) (worker : Ppworker) : Prop where
  liveness : worker.liveness = HEARTBEAT_LIVENESS - silent tr % HEARTBEAT_LIVENESS
  interval : worker.interval = backoff (reconnections tr)
  slept : ∀ later slept earlier, tr = later ++ (.timeout, slept) :: earlier → slept = pause earlier

section Steps

variable {tr : List (Event × Option Nat)} {self self' : Ppworker} {e : Event} {slept : Option Nat}

lemma timeoutsSince_cons (kind : Event → Bool) (e : Event) (slept : Option Nat)
    (tr : List (Event × Option Nat)) :
    timeoutsSince kind ((e, slept) :: tr) = if kind e then 0
      else timeoutsSince kind tr + e.isTimeout.toNat := by
  rw [timeoutsSince, List.takeWhile_cons]
  by_cases hit : kind e
  · simp [hit]
  · cases h : e.isTimeout <;> simp [hit, h, timeoutsSince]

/-- A sign of the queue is a message. -/
lemma timeouts_le (tr : List (Event × Option Nat)) : timeoutsSince Event.isMsg tr ≤ silent tr := by
  induction tr with
  | nil => exact le_rfl
  | cons a tr ih =>
    obtain ⟨e, slept⟩ := a
    rw [silent] at ih ⊢
    rw [timeoutsSince_cons, timeoutsSince_cons]
    cases e with
    | timeout => exact Nat.succ_le_succ ih
    | msg m => exact Nat.zero_le _
    | heartbeat now now' => exact ih

lemma backoff_le (r : Nat) : backoff r ≤ INTERVAL_MAX := min_le_right _ _

/-- The doubling of the interval. -/
lemma backoff_succ (r : Nat) :
    (if backoff r < INTERVAL_MAX then backoff r * 2 % 2 ^ 64 else backoff r) = backoff (r + 1) := by
  by_cases small : r < 5
  · have all : ∀ r < 5, (if backoff r < INTERVAL_MAX then backoff r * 2 % 2 ^ 64 else backoff r) =
        backoff (r + 1) := by
      decide
    exact all r small
  · -- from the fifth doubling on the interval is `INTERVAL_MAX`
    have top : ∀ r, 5 ≤ r → backoff r = INTERVAL_MAX := by
      intro r le
      have : 2 ^ 5 ≤ 2 ^ r := Nat.pow_le_pow_right (by decide) le
      exact min_eq_right (by rw [INTERVAL_INIT, INTERVAL_MAX]; omega)
    rw [top r (by omega), top (r + 1) (by omega), if_neg (lt_irrefl _)]

/-- What a message does. -/
lemma ppworkerMsg_spec {m : Zmsg} {sent : List Zmsg} (e : ppworkerMsg self m = some (self', sent)) :
    self'.interval = INTERVAL_INIT ∧
      self'.liveness = (if isValid m then HEARTBEAT_LIVENESS else self.liveness) ∧
      sent = if m.length = 3 then [m] else [] := by
  unfold ppworkerMsg at e
  split at e
  · cases e
    exact ⟨rfl, rfl, rfl⟩
  · cases e
  · rename_i byte rest
    cases e
    by_cases beat : [byte] = PPP_HEARTBEAT
    · simp [isValid, beat]
    · simp [isValid, beat]
  · rename_i three empty one
    cases e
    have plain : isValid m = false := by
      unfold isValid
      split
      · exact absurd rfl (three _ _ _)
      · exact absurd rfl (one _ _)
      · rfl
    refine ⟨rfl, by rw [plain]; rfl, ?_⟩
    rw [if_neg]
    intro length
    obtain ⟨a, b, c, rfl⟩ := List.length_eq_three.mp length
    exact three a b c rfl

/-- The sleeps of a history that goes on. -/
lemma slept_cons {e : Event}
    (before : ∀ later slept earlier, tr = later ++ (.timeout, slept) :: earlier →
      slept = pause earlier)
    (now : e = .timeout → slept = pause tr) :
    ∀ later slept' earlier, (e, slept) :: tr = later ++ (.timeout, slept') :: earlier →
      slept' = pause earlier := by
  intro later slept' earlier split
  cases later with
  | nil =>
    cases split
    exact now rfl
  | cons a later =>
    obtain ⟨_, split⟩ := List.cons.inj split
    exact before later slept' earlier split

lemma Watches.msg (watches : Watches tr self) {m : Zmsg} {sent : List Zmsg}
    (e : ppworkerMsg self m = some (self', sent)) : Watches ((.msg m, none) :: tr) self' := by
  have any : timeoutsSince Event.isMsg ((.msg m, none) :: tr) = 0 := timeoutsSince_cons _ _ _ _
  have sign : silent ((.msg m, none) :: tr) = if isValid m then 0 else silent tr :=
    timeoutsSince_cons _ _ _ _
  obtain ⟨interval, liveness, _⟩ := ppworkerMsg_spec e
  refine ⟨?_, ?_, slept_cons watches.slept nofun⟩
  · rw [liveness, sign, watches.liveness]
    split <;> rfl
  · rw [interval, reconnections, any, Nat.sub_zero, Nat.sub_self]
    rfl

lemma Watches.timeout (watches : Watches tr self) :
    (ppworkerTimeout self).2 = pause tr ∧
      Watches ((.timeout, pause tr) :: tr) (ppworkerTimeout self).1 := by
  have any :
      timeoutsSince Event.isMsg ((.timeout, pause tr) :: tr) = timeoutsSince Event.isMsg tr + 1 :=
    timeoutsSince_cons _ _ _ _
  have sign : silent ((.timeout, pause tr) :: tr) = silent tr + 1 := timeoutsSince_cons _ _ _ _
  have le := timeouts_le tr
  have again : reconnections ((.timeout, pause tr) :: tr) =
      (silent tr + 1) / HEARTBEAT_LIVENESS - (silent tr - timeoutsSince Event.isMsg tr) /
          HEARTBEAT_LIVENESS := by
    rw [reconnections, any, sign, Nat.add_sub_add_right]
  have liveness := watches.liveness
  have left : (self.liveness + 2 ^ 64 - 1) % 2 ^ 64 = self.liveness - 1 := by
    rw [HEARTBEAT_LIVENESS] at liveness
    omega
  by_cases last : (silent tr + 1) % HEARTBEAT_LIVENESS = 0
  · have zero : self.liveness - 1 = 0 := by
      rw [HEARTBEAT_LIVENESS] at liveness last
      omega
    have next : reconnections ((.timeout, pause tr) :: tr) = reconnections tr + 1 := by
      rw [again, reconnections]
      rw [HEARTBEAT_LIVENESS] at last ⊢
      omega
    rw [ppworkerTimeout, left, if_pos zero]
    have sleeps : some self.interval = pause tr := by rw [pause, if_pos last, watches.interval]
    refine ⟨sleeps, ?_, ?_, slept_cons watches.slept fun _ => rfl⟩
    · show HEARTBEAT_LIVENESS = _
      rw [sign, last, Nat.sub_zero]
    · show (if self.interval < INTERVAL_MAX then _ else _) = _
      rw [watches.interval, backoff_succ, next]
  · have more : self.liveness - 1 ≠ 0 := by
      rw [HEARTBEAT_LIVENESS] at liveness last
      omega
    have same : reconnections ((.timeout, pause tr) :: tr) = reconnections tr := by
      rw [again, reconnections]
      rw [HEARTBEAT_LIVENESS] at last ⊢
      omega
    rw [ppworkerTimeout, left, if_neg more]
    refine ⟨(if_neg last).symm, ?_, ?_, slept_cons watches.slept fun _ => rfl⟩
    · show self.liveness - 1 = _
      rw [sign]
      rw [HEARTBEAT_LIVENESS] at liveness last ⊢
      omega
    · rw [same]
      exact watches.interval

lemma Watches.heartbeat (watches : Watches tr self) (now now' : Nat) :
    Watches ((.heartbeat now now', none) :: tr) (ppworkerHeartbeat self now now').1 := by
  have any :
      timeoutsSince Event.isMsg ((.heartbeat now now', none) :: tr) =
        timeoutsSince Event.isMsg tr :=
    timeoutsSince_cons _ _ _ _
  have sign : silent ((.heartbeat now now', none) :: tr) = silent tr := timeoutsSince_cons _ _ _ _
  have same : (ppworkerHeartbeat self now now').1.liveness = self.liveness ∧
      (ppworkerHeartbeat self now now').1.interval = self.interval := by
    unfold ppworkerHeartbeat
    split <;> exact ⟨rfl, rfl⟩
  refine ⟨?_, ?_, slept_cons watches.slept nofun⟩
  · rw [same.1, sign, watches.liveness]
  · rw [same.2, reconnections, any, sign, watches.interval, reconnections]

lemma Watches.step (watches : Watches tr self) (st : PpworkerStep self (e, slept) self') :
    Watches ((e, slept) :: tr) self' := by
  cases e with
  | msg m =>
    obtain ⟨⟨worker, sent⟩, e, res⟩ := Option.map_eq_some_iff.mp st
    cases res
    exact watches.msg e
  | timeout =>
    have both : ((ppworkerTimeout self).2, (ppworkerTimeout self).1) = (slept, self') :=
      Option.some.inj st
    obtain ⟨slept_eq, self_eq⟩ := Prod.mk.inj both
    obtain ⟨sleeps, after⟩ := watches.timeout
    rw [← slept_eq, ← self_eq, sleeps]
    exact after
  | heartbeat now now' =>
    cases st
    exact watches.heartbeat now now'

lemma Watches.new (now : Nat) : Watches [] (ppworkerNew now) where
  liveness := rfl
  interval := rfl
  slept later _ _ split := absurd split (by cases later <;> nofun)

end Steps

/-- After every history of a worker `liveness` is `HEARTBEAT_LIVENESS` less the polls without a
sign of the queue since the last sign or reconnection, so that it is never zero before it is
decremented, and `interval` is `INTERVAL_INIT` doubled once for each reconnection since the last
message, but at most `INTERVAL_MAX`. So the worker connects again at every third poll without a
sign, and only then, and each time it slept as long as this says. -/
theorem worker_backoff (now : Nat) :
    ∀ tr self, Run PpworkerStep (ppworkerNew now) tr self → Watches tr self ∧ 1 ≤ self.liveness ∧
      self.interval ≤ INTERVAL_MAX := by
  intro tr self run
  have watches : Watches tr self :=
    run.history Watches (.new now) fun _ _ a _ watches st => watches.step (e := a.1) st
  refine ⟨watches, ?_, ?_⟩
  · have := watches.liveness
    rw [HEARTBEAT_LIVENESS] at this
    omega
  · rw [watches.interval]
    exact backoff_le _

/-- A worker that hears nothing, then an invalid message, and then nothing again. -/
theorem worker_backoff_doubles : ∃ self : Ppworker,
    Run PpworkerStep (ppworkerNew 0)
      [(.timeout, none), (.timeout, some 1000), (.msg [[], []], none), (.timeout, none),
        (.timeout, none),
        (.timeout, some 2000), (.timeout, none), (.timeout, none), (.timeout, some 1000),
        (.timeout, none), (.timeout, none)] self ∧
    self.liveness = 2 ∧ self.interval = 2000 ∧ 1 ≤ self.liveness := by
  have all :
    serve ppworkerStep (ppworkerNew 0) [.timeout, .timeout, .msg [[], []], .timeout, .timeout,
      .timeout, .timeout, .timeout, .timeout, .timeout, .timeout] =
      some ([(.timeout, none), (.timeout, some 1000), (.msg [[], []], none), (.timeout, none),
        (.timeout, none),
        (.timeout, some 2000), (.timeout, none), (.timeout, none), (.timeout, some 1000),
        (.timeout, none),
        (.timeout, none)], ⟨2, 2000, 1000, 0⟩) := by
    decide
  have run := serve_run all
  exact ⟨_, run, rfl, rfl, (worker_backoff 0 _ _ run).2.1⟩

end SweetClib.Pirate.Paranoid
