import SweetClib.Lib.Cyclic
import SweetClib.Process.Processpool

/-!
# Dispatch in turn

The parent of `processpool/processpool.h` by itself: the variables of `run_parent` that its choices
depend on (`ParentSt`), and its events. A listen event looks for a child from `sub_process_counter`
on and sends to it, or stops the parent (`onListen`, which is what `passOn` does to the pool,
`passOn_eq`); `SIGCHLD` marks the children that were waited for, and stops the parent when none is
left; `SIGTERM` and `SIGINT` only send signals. The events come in any order.

The search is a round of a walk around the children (`Lib.FirstFrom`). The walk of
`sub_process_counter` through a whole run comes past a child that is alive exactly when it chooses
it (`Walks`), so that dispatch is fair (`round_robin`).
-/

namespace SweetClib.Process
open Lib

variable {C : Type} {n : Nat}

/-- The variables of `run_parent`, and `m_pid` of each child. -/
structure ParentSt (n : Nat) where
  mPid : Vector Int n
  subProcessCounter : Nat
  mStop : Bool

/-- The events of the parent; `SIGCHLD` comes with what `waitpid` returns. -/
inductive ParentEvent where
  | listen
  | sigchld (pids : List Int)
  | sigterm

/-- The handler of a listen event (in C `run_parent`), and the child it sends to. -/
def onListen (s : ParentSt n) : Option (Option Nat × ParentSt n) := do
  let i ← searchLoop s.mPid s.subProcessCounter n s.subProcessCounter
  let pid ← s.mPid[i]?
  if pid = -1 then some (none, { s with mStop := true })
  else some (some i, { s with subProcessCounter := (i + 1) % n })

/-- Mark the child that was waited for. -/
def reap (mPid : Vector Int n) (pid : Int) :
    Vector Int n := mPid.map fun p => if p = pid then -1 else p

/-- The handler of `SIGCHLD` (in C `run_parent`). -/
def onSigchld (s : ParentSt n) (pids : List Int) : ParentSt n :=
  let mPid := pids.foldl reap s.mPid
  { s with mPid, mStop := mPid.all (· = -1) }

/-- One event, and the child to which a connection was given. -/
def parentStep (s : ParentSt n) : ParentEvent → Option (Option Nat × ParentSt n)
  | .listen => onListen s
  | .sigchld pids => some (none, onSigchld s pids)
  | .sigterm => some (none, s)

/-- The parent before the first event, with the processes it has forked. -/
def parentInit (mPid : Vector Int n) : ParentSt n where
  mPid := mPid
  subProcessCounter := 0
  mStop := false

/-- The child `i` has not exited. -/
def Live (mPid : Vector Int n) (i : Nat) : Prop := ∃ pid, mPid[i]? = some pid ∧ pid ≠ -1

/-- The connections given to the child `i` in a history. -/
def given (i : Nat) (tr : List (ParentEvent × Option Nat)) : Nat := tr.countP fun a => a.2 = some i

/-- A listen event gives the connection to the first child alive, from `sub_process_counter` on, or
stops the parent when there is none. -/
inductive Selects (s : ParentSt n) : Option Nat → ParentSt n → Prop where
  | child {k} :
    k < n →
    FirstFrom n (Live s.mPid) s.subProcessCounter k →
    Selects s (some ((s.subProcessCounter + k) % n))
      { s with subProcessCounter := (s.subProcessCounter + k + 1) % n }
  | stop :
    (∀ i, ¬ Live s.mPid i) →
    Selects s none { s with mStop := true }

section Search

variable {mPid : Vector Int n} {counter : Nat}

/-- A child that is alive is one of the children. -/
lemma Live.lt {i : Nat} (live : Live mPid i) : i < n := by
  obtain ⟨pid, found, _⟩ := live
  exact (Vector.getElem?_eq_some_iff.mp found).1

/-- The mark of a child that has exited. -/
lemma exited {i : Nat} (lt : i < n) (dead : ¬ Live mPid i) : mPid[i]? = some (-1) := by
  rw [Vector.getElem?_eq_getElem lt]
  by_contra ne
  exact dead ⟨mPid[i], Vector.getElem?_eq_getElem lt, fun e => ne (congrArg some e)⟩

/-- The search, `k` places behind its start: it ends at the first child alive, or at its start. -/
lemma searchLoop_spec (lt : counter < n) {k rounds : Nat} (ahead : k + rounds = n)
    (more : 0 < rounds) (skipped : ∀ m < k, ¬ Live mPid ((counter + m) % n)) :
    (∃ j < n, FirstFrom n (Live mPid) counter j ∧
      searchLoop mPid counter rounds ((counter + k) % n) = some ((counter + j) % n)) ∨
    (∀ m < n, ¬ Live mPid ((counter + m) % n)) ∧
      searchLoop mPid counter rounds ((counter + k) % n) = some counter := by
  induction rounds generalizing k with
  | zero => exact absurd more (Nat.lt_irrefl 0)
  | succ rounds ih =>
    have inside : (counter + k) % n < n := Nat.mod_lt _ (by omega)
    by_cases live : Live mPid ((counter + k) % n)
    · obtain ⟨pid, found, alive⟩ := live
      refine .inl ⟨k, by omega, ⟨⟨pid, found, alive⟩, skipped⟩, ?_⟩
      rw [searchLoop, found]
      exact if_pos alive
    · have skipped' : ∀ m < k + 1, ¬ Live mPid ((counter + m) % n) := by
        intro m le
        obtain before | rfl := Nat.lt_succ_iff_lt_or_eq.mp le
        · exact skipped m before
        · exact live
      have next : ((counter + k) % n + 1) % n = (counter + (k + 1)) % n := by
        rw [Nat.mod_add_mod, Nat.add_assoc]
      rw [searchLoop, exited inside live]
      simp only [ne_eq, not_true_eq_false, if_false, next]
      by_cases last : rounds = 0
      · -- the search is back at its start
        have around : (counter + (k + 1)) % n = counter := by
          rw [show k + 1 = n by omega, Nat.add_mod_right, Nat.mod_eq_of_lt lt]
        refine .inr ⟨fun m lt' => skipped' m (by omega), ?_⟩
        rw [if_neg (by simpa using around), around]
      · have ahead_of : (counter + (k + 1)) % n ≠ counter := by
          intro same
          have around : counter + (k + 1) ≡ counter [MOD n] := by
            rw [Nat.ModEq, same, Nat.mod_eq_of_lt lt]
          have := Nat.le_of_dvd (Nat.succ_pos k) (Nat.add_modEq_left_iff.mp around)
          omega
        rw [if_pos ahead_of]
        exact ih (by omega) (by omega) skipped'

/-- A listen event chooses the first child that is alive, from the counter on. -/
lemma onListen_spec {s : ParentSt n} (lt : s.subProcessCounter < n) :
    ∃ choice s', onListen s = some (choice, s') ∧ Selects s choice s' := by
  have start : (s.subProcessCounter + 0) % n = s.subProcessCounter := Nat.mod_eq_of_lt lt
  have search := @searchLoop_spec _ s.mPid _ lt _ _ (Nat.zero_add n) (by omega) nofun
  rw [start] at search
  obtain ⟨k, ltk, next, e⟩ | ⟨none_live, e⟩ := search
  · obtain ⟨pid, found, alive⟩ := next.found
    refine ⟨_, _, ?_, .child ltk next⟩
    rw [onListen, e, Option.bind_eq_bind, Option.bind_some, found, Option.bind_eq_bind,
      Option.bind_some, if_neg alive, Nat.mod_add_mod]
  · -- every child is met once on the way around
    have none_live' : ∀ i, ¬ Live s.mPid i := by
      intro i live
      apply none_live ((i + (n - s.subProcessCounter)) % n) (Nat.mod_lt _ (by omega))
      rw [Nat.add_mod_mod, show s.subProcessCounter + (i + (n - s.subProcessCounter)) = i + n by
        omega, Nat.add_mod_right, Nat.mod_eq_of_lt live.lt]
      exact live
    refine ⟨_, _, ?_, .stop none_live'⟩
    rw [onListen, e, Option.bind_eq_bind, Option.bind_some, exited lt (none_live' _)]
    rfl

end Search

/-- The handler in the pool passes a listen event on as the parent by itself does. -/
lemma passOn_eq (s : Pool C n) (mStop : Bool) (lt : s.subProcessCounter < n) :
    (∃ p', onListen ⟨s.mPid, s.subProcessCounter, mStop⟩ = some (none, p') ∧
      passOn s = some (false, { s with parent := .stopped })) ∨
    ∃ (i : Fin n) (p' : ParentSt n),
      onListen ⟨s.mPid, s.subProcessCounter, mStop⟩ = some (some i.val, p') ∧
      passOn s = some ((s.children i).pipe.event,
        { s with parent := .waiting, subProcessCounter := p'.subProcessCounter,
                 children := Function.update s.children i (s.children i).notify }) := by
  obtain ⟨choice, p', e, sel⟩ := onListen_spec (s := ⟨s.mPid, s.subProcessCounter, mStop⟩) lt
  obtain ⟨i, search, rest⟩ := Option.bind_eq_some_iff.mp e
  obtain ⟨pid, found, rest⟩ := Option.bind_eq_some_iff.mp rest
  obtain ⟨inside, here⟩ := Vector.getElem?_eq_some_iff.mp found
  have get : s.mPid.get ⟨i, inside⟩ = pid := here
  have pass : passOn s = if pid = -1 then some (false, { s with parent := .stopped }) else
      some ((s.children ⟨i, inside⟩).pipe.event,
        { s with parent := .waiting, subProcessCounter := (i + 1) % n,
                 children :=
                   Function.update s.children ⟨i, inside⟩ (s.children ⟨i, inside⟩).notify }) := by
    rw [passOn, search, Option.bind_eq_bind, Option.bind_some, dif_pos inside, get]
  rw [pass]
  split at rest
  · rename_i dead
    cases rest
    exact .inl ⟨_, e, if_pos dead⟩
  · rename_i alive
    cases rest
    exact .inr ⟨⟨i, inside⟩, _, e, if_neg alive⟩

/-- A child that is alive after it was looked for the ones that exited was alive before. -/
lemma Live.of_reap {mPid : Vector Int n} {pids : List Int} {i : Nat}
    (live : Live (pids.foldl reap mPid) i) : Live mPid i := by
  induction pids generalizing mPid with
  | nil => exact live
  | cons pid pids ih =>
    obtain ⟨p, found, alive⟩ := ih live
    rw [reap, Vector.getElem?_map, Option.map_eq_some_iff] at found
    obtain ⟨q, found, e⟩ := found
    refine ⟨q, found, ?_⟩
    rintro rfl
    apply alive
    rw [← e]
    split
    · rfl
    · rfl

/-- From the counter `start` on, the parent has walked to some position, and has chosen a child
that is still alive as often as it came past it. -/
def Walks (start : Nat) (tr : List (ParentEvent × Option Nat)) (s : ParentSt n) : Prop :=
  ∃ p, start ≤ p ∧ s.subProcessCounter = p % n ∧
    ∀ i, Live s.mPid i → given i tr + passes n i start = passes n i p

section Walk

variable {start : Nat} {tr : List (ParentEvent × Option Nat)} {s s' : ParentSt n}

/-- A listen event goes on with the walk. -/
lemma Walks.listen (walk : Walks start tr s) {choice : Option Nat} (sel : Selects s choice s') :
    Walks start ((.listen, choice) :: tr) s' := by
  obtain ⟨p, le, counter, count⟩ := walk
  cases sel with
  | @child k ltk next =>
    have place : ∀ m, (s.subProcessCounter + m) % n = (p + m) % n := by
      intro m
      rw [counter, Nat.mod_add_mod]
    have next' : FirstFrom n (Live s.mPid) p k := by
      refine ⟨?_, fun m lt' => ?_⟩
      · rw [← place]
        exact next.found
      · rw [← place]
        exact next.first m lt'
    refine ⟨p + k + 1, by omega, ?_, fun i live => ?_⟩
    · rw [Nat.add_assoc, place, ← Nat.add_assoc]
    · rw [passes_walk next' live.lt live, ← count i live, place]
      simp only [given, List.countP_cons, Option.some.injEq, decide_eq_true_eq]
      omega
  | stop none_live => exact ⟨p, le, counter, fun i live => absurd live (none_live i)⟩

/-- Every event keeps the walk. -/
lemma Walks.step (walk : Walks start tr s) (lt : s.subProcessCounter < n)
    {a : ParentEvent × Option Nat} (st : Answers parentStep s a s') : Walks start (a :: tr) s' := by
  obtain ⟨event, choice⟩ := a
  have st : parentStep s event = some (choice, s') := st
  cases event with
  | listen =>
    obtain ⟨choice', s₁, e, sel⟩ := onListen_spec lt
    cases Option.some.inj (e.symm.trans st)
    exact walk.listen sel
  | sigchld pids =>
    cases st
    obtain ⟨p, le, counter, count⟩ := walk
    exact ⟨p, le, counter, fun i live => count i live.of_reap⟩
  | sigterm =>
    cases st
    exact walk

end Walk

/-- The counter stays one of the children. -/
lemma counter_lt {s s' : ParentSt n} (lt : s.subProcessCounter < n) {a : ParentEvent × Option Nat}
    (st : Answers parentStep s a s') : s'.subProcessCounter < n := by
  have walk : Walks s.subProcessCounter [] s :=
    ⟨s.subProcessCounter, le_rfl, (Nat.mod_eq_of_lt lt).symm, fun i _ => Nat.zero_add _⟩
  obtain ⟨p, _, counter, _⟩ := walk.step lt st
  rw [counter]
  exact Nat.mod_lt p (by omega)

/-- For every number of children and every run of events from any processes: `sub_process_counter`
is the place of a child; a listen event gives its connection to the first child alive from there
on, or sets `m_stop` when there is none, and its search ends; and over every stretch of the run, of
any two children that are alive at its end neither is given two connections more than the other. -/
theorem round_robin (pos : 0 < n) (mPid : Vector Int n) {tr : List (ParentEvent × Option Nat)}
    {s : ParentSt n} (run : Run (Answers parentStep) (parentInit mPid) tr s) :
    s.subProcessCounter < n ∧
    (∃ choice s', parentStep s .listen = some (choice, s') ∧ Selects s choice s') ∧
    ∀ {tr' s'}, Run (Answers parentStep) s tr' s' → ∀ i j, Live s'.mPid i → Live s'.mPid j →
      given i tr' ≤ given j tr' + 1 := by
  have lt : s.subProcessCounter < n :=
    run.invariant (fun s : ParentSt n => s.subProcessCounter < n) pos fun _ _ _ lt st =>
      counter_lt lt st
  refine ⟨lt, onListen_spec lt, fun {tr' s'} stretch i j livei livej => ?_⟩
  have walk : s'.subProcessCounter < n ∧ Walks s.subProcessCounter tr' s' := by
    refine stretch.history (fun tr s' => s'.subProcessCounter < n ∧ Walks s.subProcessCounter tr s')
      ⟨lt, ?_⟩ ?_
    · exact ⟨s.subProcessCounter, le_rfl, (Nat.mod_eq_of_lt lt).symm, fun i _ => Nat.zero_add _⟩
    · rintro tr t a t' ⟨lt, walk⟩ st
      exact ⟨counter_lt lt st, walk.step lt st⟩
  -- a child that is alive at the end was chosen whenever the walk came past it
  obtain ⟨_, p, le, _, count⟩ := walk
  have fair := passes_fair pos livei.lt livej.lt le
  have counti := count i livei
  have countj := count j livej
  omega

/-- Three children of which the second exits: the two connections behind that go to the third and
the first one. -/
theorem round_robin_three :
    let s : ParentSt 3 := ⟨#v[11, -1, 13], 1, false⟩
    let stretch := [(ParentEvent.listen, some 0), (.listen, some 2)]
    Run (Answers parentStep) (parentInit #v[11, 12, 13]) [(.sigchld [12], none),
      (.listen, some 0)] s ∧
    Run (Answers parentStep) s stretch s ∧ s.subProcessCounter < 3 ∧
        given 2 stretch ≤ given 0 stretch + 1 := by
  intro s stretch
  have exit :
      Answers parentStep (⟨#v[11, 12, 13], 1, false⟩ : ParentSt 3) (.sigchld [12], none) s := by
    simp [Answers, parentStep, onSigchld, reap, s]
  have before :
      Run (Answers parentStep) (parentInit #v[11, 12, 13]) [(.sigchld [12], none),
        (.listen, some 0)] s :=
    .cons (.cons .nil rfl) exit
  have third : Answers parentStep s (.listen, some 2) ⟨s.mPid, 0, false⟩ := by
    simp [Answers, parentStep, onListen, searchLoop, s]
  have turn : Run (Answers parentStep) s stretch s := .cons (.cons .nil third) rfl
  obtain ⟨lt, _, fair⟩ := round_robin (by decide) _ before
  exact ⟨before, turn, lt, fair turn 2 0 ⟨13, rfl, by decide⟩ ⟨11, rfl, by decide⟩⟩

end SweetClib.Process
