import SweetClib.Process.Accept
import SweetClib.Process.Family

/-!
# The end of the process pool

How the parent of `processpool/processpool.h` ends with its children. The steps that the processes
take by themselves come to an end (`work_step`): a signal is worth what its handler does, and a
child that runs what its exit will make the parent do. At rest (`Rest`) every process is at its
wait or gone. If no signal was missed, a parent at rest has waited for every child that exited, and
a child at rest was not sent `SIGTERM` (`Rest.shutdown`).
-/

namespace SweetClib.Process
open Lib

variable {n : Nat}

/-- What a child makes the processes do, with what it will do to the parent when it exits. -/
def Member.work (n : Nat) (child : Member) : Nat :=
  match child.status with
  | .running => 7 * n + 8 + child.loop.load 1
  | .zombie => 1
  | .reaped => 0

/-- What the processes have to do. A signal is worth what the parent does for `SIGTERM`: a round
for each child and what the child does then. -/
def Family.work (s : Family n) : Nat :=
  s.loop.load (7 * n + 1) + 7 * (n - s.cursor) + 4 * s.listen.toNat + ∑ i, (s.children i).work n

section Work

variable {pid : Fin n → Int} {cap : Nat} {s s' : Family n}

/-- A change of one child changes the work by what the child has to do. -/
lemma work_setChild (s : Family n) (i : Fin n) (child : Member) :
    (s.setChild i child).work + (s.children i).work n = s.work + child.work n := by
  have sum := sum_update (Member.work n) s.children i child
  rw [Family.work, Family.work]
  dsimp only [Family.setChild]
  omega

/-- What a child that runs has to do. -/
lemma work_running {child : Member} (running : child.status = .running) :
    child.work n = 7 * n + 8 + child.loop.load 1 := by
  rw [Member.work, running]

/-- While a child runs, the change is that of the load of its loop. -/
lemma work_child {i : Fin n} (running : (s.children i).status = .running) (child : Member)
    (still : child.status = .running) :
    (s.setChild i child).work + (s.children i).loop.load 1 = s.work + child.loop.load 1 := by
  have sum := work_setChild s i child
  rw [work_running running, work_running still] at sum
  omega

/-- A child that exits leaves less work. -/
lemma work_exit {i : Fin n} (running : (s.children i).status = .running) :
    (s.exit i).work < s.work := by
  have sum := work_setChild s i { s.children i with status := .zombie }
  have one : Member.work n { s.children i with status := .zombie } = 1 := rfl
  have raised : (s.exit i).loop.load (7 * n + 1) ≤ s.loop.load (7 * n + 1) + (7 * n + 6) := by
    show (if s.loop.place = .starting then s.loop.miss else s.loop.raise .chld).load (7 * n + 1) ≤ _
    split
    · exact Nat.le_add_right ..
    · exact SignalLoop.load_raise ..
  rw [work_running running, one] at sum
  rw [Family.work, Family.work] at sum
  rw [Family.work, Family.work]
  dsimp only [Family.exit, Family.setChild] at sum raised ⊢
  omega

/-- A signal to a child is work for it. -/
lemma work_raiseChild (s : Family n) (i : Fin n) (sig : Sig) :
    (s.raiseChild i sig).work ≤ s.work + 6 := by
  rw [Family.raiseChild]
  split_ifs with running
  · exact Nat.le_add_right ..
  · exact (work_exit running).le.trans (Nat.le_add_right ..)
  · have sum :=
      work_child running { s.children i with loop := (s.children i).loop.raise sig } running
    have raised := (s.children i).loop.load_raise 1 sig
    dsimp only at sum ⊢
    omega
  · exact Nat.le_add_right ..

/-- So is a `kill`, and the parent stays where it is. -/
lemma work_kill (s : Family n) (p : Int) :
    (s.kill pid p).work ≤ s.work + 6 ∧ (s.kill pid p).cursor = s.cursor := by
  rw [Family.kill]
  split
  · rename_i i _
    have sum :
        _ + ((s.raiseChild i .term).children i).work n =
          _ + ((s.raiseChild i .term).children i).work n :=
      work_setChild (s.raiseChild i .term) i
        { (s.raiseChild i .term).children i with termed := true }
    refine ⟨(Nat.add_right_cancel sum).trans_le (work_raiseChild s i .term), ?_⟩
    show (s.raiseChild i .term).cursor = s.cursor
    rw [Family.raiseChild]
    split_ifs <;> rfl
  · exact ⟨Nat.le_add_right .., rfl⟩

/-- The loop of `kill` goes on to the next child, and that pays for the signal. -/
lemma work_killNext {i : Fin n} (here : s.cursor = i) : (s.killNext pid i).2.work < s.work := by
  have lt := i.isLt
  rw [Family.killNext]
  split
  · obtain ⟨less, same⟩ := @work_kill n pid s (s.parent.mPid.get i)
    rw [Family.work, same, here] at less
    rw [Family.work]
    dsimp only
    omega
  · rw [Family.work, Family.work, here]
    dsimp only
    omega

/-- The loop of the parent goes on. -/
lemma work_loop {loop : SignalLoop Sig Unit}
    (less : loop.load (7 * n + 1) < s.loop.load (7 * n + 1)) :
    ({ s with loop } : Family n).work < s.work := by
  rw [Family.work, Family.work]
  dsimp only
  omega

/-- The parent has less work after a step through its events and signals. -/
lemma work_next {calls : List (Call n)} (e : s.next pid = some (calls, s')) : s'.work < s.work := by
  have advance : s.loop.place.inside = true → _ :=
    s.loop.load_advance (h := 7 * n + 1) (by omega) 1024 s.parent.mStop
  rw [Family.next] at e
  split at e
  · rename_i place
    have inside : s.loop.place.inside = true := by rw [place]; rfl
    obtain ⟨⟨choice, parent⟩, _, e⟩ := Option.bind_eq_some_iff.mp e
    cases choice with
    | some i =>
      cases e
      exact work_loop (s.loop.load_advance (by omega) 1024 parent.mStop inside).1
    | none =>
      cases e
      exact work_loop (s.loop.load_leave inside)
  · cases e
  · rename_i sig hand es not_chld place
    have inside : s.loop.place.inside = true := by rw [place]; rfl
    split at e
    · rename_i lt
      have less := @work_killNext n pid s ⟨s.cursor, lt⟩ rfl
      rw [Option.some.inj e] at less
      exact less
    · rename_i last
      cases e
      -- the rounds of the loop are paid for by the signal
      have done := (advance inside).2 (by rw [place]; exact List.cons_ne_nil _ _)
      rw [Family.work, Family.work]
      dsimp only
      omega
  · rename_i es _ place
    cases e
    exact work_loop (advance (by rw [place]; rfl)).1
  · rename_i es place
    cases e
    exact work_loop (advance (by rw [place]; rfl)).1
  · cases e

/-- The parent has less work after a `waitpid`. -/
lemma work_waitpid {child : Option (Fin n)} {calls : List (Call n)}
    (e : s.waitpid pid child = some (calls, s')) : s'.work < s.work := by
  obtain ⟨here, e⟩ := Option.ite_none_right_eq_some.mp e
  cases child with
  | some i =>
    obtain ⟨zombie, e⟩ := Option.ite_none_right_eq_some.mp e
    cases e
    have sum := work_setChild s i { s.children i with status := .reaped }
    have one : (s.children i).work n = 1 := by rw [Member.work, zombie]
    have zero : Member.work n { s.children i with status := .reaped } = 0 := rfl
    rw [one, zero] at sum
    exact Nat.lt_of_succ_le sum.le
  | none =>
    obtain ⟨no_zombie, e⟩ := Option.ite_none_right_eq_some.mp e
    cases e
    have inside : s.loop.place.inside = true := by
      cases place : s.loop.place with
      | signals hand es => rfl
      | _ =>
        rw [place] at here
        cases here
    exact work_loop (s.loop.load_advance (by omega) 1024 (onSigchld s.parent []).mStop inside).1

/-- The loop of a child goes on. -/
lemma work_move {i : Fin n} (running : (s.children i).status = .running) {child : Member}
    (still : child.status = .running) (less : child.loop.load 1 < (s.children i).loop.load 1) :
    (s.setChild i child).work < s.work := by
  have sum := work_child running child still
  omega

/-- A child has less work after a step. -/
lemma work_childNext {i : Fin n} (running : (s.children i).status = .running)
    (e : s.childNext i = some s') : s'.work < s.work := by
  rw [Family.childNext] at e
  split at e
  · cases e
  · cases e
  · cases e
    exact work_exit running
  · rename_i sig hand es place
    cases e
    exact work_move running running (SignalLoop.load_advance Nat.one_pos _ _ (by rw [place]; rfl)).1
  · rename_i not_starting not_waiting not_stopped _
    cases e
    refine work_move running running (SignalLoop.load_advance Nat.one_pos _ _ ?_).1
    cases place : (s.children i).loop.place with
    | starting => exact absurd place not_starting
    | waiting => exact absurd place not_waiting
    | stopped => exact absurd place not_stopped
    | events es => rfl
    | signals hand es => rfl

/-- The parent has less work after its `epoll_wait`. -/
lemma work_wait {es : List (Option Unit)} {loop : SignalLoop Sig Unit} (perm : es.Perm s.ready)
    (waited : s.loop.wait es = some loop) :
    ({ s with loop, listen := false } : Family n).work < s.work := by
  have load := SignalLoop.load_wait (h := 7 * n + 1) waited
  have more : es ≠ [] := (Option.dite_none_right_eq_some.mp waited).1.2.1
  have positive : 0 < es.length := List.length_pos_iff.mpr more
  have length : es.length = s.loop.pipe.event.toNat + s.listen.toNat := by
    rw [perm.length_eq, Family.ready]
    cases s.loop.pipe.event <;> cases s.listen <;> rfl
  rw [Family.work, Family.work]
  dsimp only
  rw [Bool.toNat_false]
  omega

/-- Every step that a process takes by itself leaves less to do. -/
lemma work_step {a : FamilyAction n × List (Call n)} (own : a.1.own = true)
    (st : Answers (familyStep pid cap) s a s') : s'.work < s.work := by
  obtain ⟨action, calls⟩ := a
  have st : familyStep pid cap s action = some (calls, s') := st
  cases action with
  | arrive => cases own
  | signal sig => cases own
  | signalChild i sig => cases own
  | crash i => cases own
  | setup =>
    obtain ⟨loop, up, st⟩ := Option.map_eq_some_iff.mp st
    cases st
    exact work_loop (SignalLoop.load_setup up)
  | deliver sig =>
    obtain ⟨loop, delivered, st⟩ := Option.map_eq_some_iff.mp st
    cases st
    exact work_loop (SignalLoop.load_deliver delivered)
  | wait es =>
    obtain ⟨perm, st⟩ := Option.ite_none_right_eq_some.mp st
    obtain ⟨loop, waited, st⟩ := Option.map_eq_some_iff.mp st
    cases st
    exact work_wait perm waited
  | next => exact work_next st
  | waitpid child => exact work_waitpid st
  | childSetup i =>
    obtain ⟨running, st⟩ := Option.ite_none_right_eq_some.mp st
    obtain ⟨loop, up, st⟩ := Option.map_eq_some_iff.mp st
    cases st
    exact work_move running running (SignalLoop.load_setup up)
  | childDeliver i sig =>
    obtain ⟨running, st⟩ := Option.ite_none_right_eq_some.mp st
    obtain ⟨loop, delivered, st⟩ := Option.map_eq_some_iff.mp st
    cases st
    exact work_move running running (SignalLoop.load_deliver delivered)
  | childWait i es =>
    obtain ⟨running, st⟩ := Option.ite_none_right_eq_some.mp st
    obtain ⟨loop, waited, st⟩ := Option.map_eq_some_iff.mp st
    cases st
    obtain rfl : es = [none] := of_decide_eq_true own
    have event : 1 = (s.children i).loop.pipe.event.toNat :=
      (Option.dite_none_right_eq_some.mp waited).1.2.2
    have load := SignalLoop.load_wait (h := 1) waited
    refine work_move running running ?_
    rw [← event] at load
    exact Nat.lt_of_succ_le (Nat.le_of_add_le_add_right (b := 3) load.le)
  | childNext i =>
    obtain ⟨running, st⟩ := Option.ite_none_right_eq_some.mp st
    obtain ⟨s₁, went, st⟩ := Option.map_eq_some_iff.mp st
    cases st
    exact work_childNext running went

end Work

/-- No process has anything to do. -/
def Rest (pid : Fin n → Int) (cap : Nat) (s : Family n) : Prop :=
  ∀ a, a.own = true → familyStep pid cap s a = none

/-- No signal went by without its handler, and none was left behind in a pipe. -/
def Family.Heard (s : Family n) : Prop :=
  s.loop.missed = false ∧ ∀ i, (s.children i).loop.missed = false

section Rest

variable {pid : Fin n → Int} {cap : Nat} {s : Family n}

/-- Inside its loop the parent has a step, but at `SIGCHLD`. -/
lemma next_isSome (inv : Inv pid s) (inside : s.loop.place.inside = true)
    (other : s.loop.place.hand.head? ≠ some .chld) : (s.next pid).isSome := by
  rw [Family.next]
  rcases place : s.loop.place with _ | _ | (_ | ⟨_ | ⟨⟩, es⟩) | ⟨_ | ⟨_ | _ | _, hand⟩, es⟩ | _
  · rw [place] at inside
    cases inside
  · rw [place] at inside
    cases inside
  · rfl
  · rfl
  · obtain ⟨choice, parent, listened, _⟩ := onListen_spec inv.counter
    rw [listened]
    cases choice <;> rfl
  · rfl
  · rw [place] at other
    exact absurd rfl other
  · dsimp only
    split <;> rfl
  · dsimp only
    split <;> rfl
  · rw [place] at inside
    cases inside

/-- At `SIGCHLD` the step is a `waitpid`, which may find nothing. -/
lemma waitpid_isSome (here : s.loop.place.hand.head? = some .chld) :
    ∃ child, (s.waitpid pid child).isSome := by
  by_cases zombies : ∀ i, (s.children i).status ≠ .zombie
  · refine ⟨none, ?_⟩
    rw [Family.waitpid, if_pos here, if_pos zombies]
    rfl
  · obtain ⟨i, zombie⟩ := not_forall.mp zombies
    refine ⟨some i, ?_⟩
    rw [Family.waitpid, if_pos here, if_pos (not_not.mp zombie)]
    rfl

/-- A family at rest has no step of its own. -/
lemma Rest.idle (rest : Rest pid cap s) {a : FamilyAction n} (own : a.own = true) :
    ¬ (familyStep pid cap s a).isSome = true := by
  rw [rest a own]
  exact Bool.false_ne_true

/-- A parent at rest waits for an event, or has left its loop. -/
lemma Rest.parent (rest : Rest pid cap s) (inv : Inv pid s) :
    s.loop.place = .waiting ∧ (∀ sig, s.loop.pending sig = false) ∧ s.loop.pipe.event = false ∨
    s.loop.place = .stopped := by
  have outside : s.loop.place.inside = false := by
    by_contra inside
    rw [Bool.not_eq_false] at inside
    by_cases here : s.loop.place.hand.head? = some .chld
    · obtain ⟨child, can⟩ := @waitpid_isSome n pid s here
      exact rest.idle (a := .waitpid child) rfl can
    · exact rest.idle (a := .next) rfl (next_isSome inv inside here)
  cases place : s.loop.place with
  | starting =>
    refine absurd ?_ (rest.idle (a := .setup) rfl)
    rw [familyStep, Option.isSome_map]
    exact SignalLoop.setup_isSome place
  | waiting =>
    refine .inl ⟨rfl, fun sig => ?_, ?_⟩
    · by_contra pending
      refine rest.idle (a := .deliver sig) rfl ?_
      rw [familyStep, Option.isSome_map]
      exact SignalLoop.deliver_isSome (Bool.not_eq_false _ ▸ pending)
    · by_contra event
      rw [Bool.not_eq_false] at event
      refine rest.idle (a := .wait s.ready) rfl ?_
      rw [familyStep, if_pos (List.Perm.refl _), Option.isSome_map]
      refine SignalLoop.wait_isSome place ?_ ?_
      · rw [Family.ready, event]
        exact nofun
      · rw [Family.ready, event]
        cases s.listen <;> rfl
  | stopped => exact .inr rfl
  | events es =>
    rw [place] at outside
    cases outside
  | signals hand es =>
    rw [place] at outside
    cases outside

/-- A child that runs and is at rest waits for an event. -/
lemma Rest.child (rest : Rest pid cap s) {i : Fin n} (running : (s.children i).status = .running) :
    (s.children i).loop.place = .waiting ∧ (∀ sig, (s.children i).loop.pending sig = false) ∧
      (s.children i).loop.pipe.event = false := by
  have still : s.childNext i = none := by
    have idle := rest.idle (a := .childNext i) rfl
    rw [familyStep, if_pos running, Option.isSome_map, Option.not_isSome_iff_eq_none] at idle
    exact idle
  have waiting : (s.children i).loop.place = .waiting := by
    rw [Family.childNext] at still
    split at still
    · rename_i starting
      refine absurd ?_ (rest.idle (a := .childSetup i) rfl)
      rw [familyStep, if_pos running, Option.isSome_map]
      exact SignalLoop.setup_isSome starting
    · assumption
    · cases still
    · cases still
    · cases still
  refine ⟨waiting, fun sig => ?_, ?_⟩
  · by_contra pending
    refine rest.idle (a := .childDeliver i sig) rfl ?_
    rw [familyStep, if_pos running, Option.isSome_map]
    exact SignalLoop.deliver_isSome (Bool.not_eq_false _ ▸ pending)
  · by_contra event
    rw [Bool.not_eq_false] at event
    refine rest.idle (a := .childWait i [none]) rfl ?_
    rw [familyStep, if_pos running, Option.isSome_map]
    exact SignalLoop.wait_isSome waiting (List.cons_ne_nil _ _) (by rw [event]; rfl)

/-- At rest the parent has waited for every child that exited, and behind a `SIGTERM` none is
left. -/
lemma Rest.shutdown (rest : Rest pid cap s) (inv : Inv pid s) (heard : s.Heard) :
    (∀ i, (s.children i).status ≠ .zombie) ∧
    (s.ordered = true → s.loop.place = .stopped ∧ ∀ i, (s.children i).status = .reaped) := by
  obtain ⟨place, pending, event⟩ | place := rest.parent inv
  · have no_zombie : ∀ i, (s.children i).status ≠ .zombie := by
      intro i zombie
      obtain raised | set := (inv.zombie heard.1 i zombie).busy heard.1 place
      · rw [pending] at raised
        cases raised
      · rw [event] at set
        cases set
    refine ⟨no_zombie, fun ordered => ?_⟩
    have no_running : ∀ i, (s.children i).status ≠ .running := by
      intro i running
      obtain ⟨waiting, pending, event⟩ := rest.child running
      have termed := (inv.ordered ordered i).resolve_left (not_not.mpr running)
      obtain stop | owes := ((inv.good i).told running termed).2 (heard.2 i)
      · rw [(inv.good i).going (.inr waiting)] at stop
        cases stop
      · obtain raised | set := owes.busy (heard.2 i) waiting
        · rw [pending] at raised
          cases raised
        · rw [event] at set
          cases set
    have all : ∀ i, (s.children i).status = .reaped := by
      intro i
      cases status : (s.children i).status with
      | running => exact absurd status (no_running i)
      | zombie => exact absurd status (no_zombie i)
      | reaped => rfl
    -- a parent that waits has a child
    obtain stop | here := inv.last all
    · rw [inv.going (.inr place)] at stop
      cases stop
    · rw [place] at here
      cases here
  · have all := inv.stop (inv.left place)
    exact ⟨fun i zombie => (nomatch (all i).symm.trans zombie), fun _ => ⟨place, all⟩⟩

end Rest

/-- For every number of children with any processes, every room in the pipes of the signals and
every order of steps: the parent has marked a child and closed its end of the pipe, once, exactly
when it has waited for it; it sends a signal only to a child that it has not waited for, and uses
no end of a pipe that it has closed; it stops only when it has waited for all. The processes come
to rest by themselves, and if no signal was missed, there is no zombie then; when the parent has
handled `SIGTERM` or `SIGINT`, it has stopped, and has waited for all its children. -/
theorem pool_shutdown {pid : Fin n → Int} {cap : Nat} (pos : 0 < n) (inj : Function.Injective pid)
    (valid : ∀ i, 0 < pid i) {tr : List (FamilyAction n × List (Call n))} {s : Family n}
    (run : Run (Answers (familyStep pid cap)) (forked pid) tr s) :
    (∀ i, s.parent.mPid.get i = (if (s.children i).status = .reaped then -1 else pid i) ∧
      s.closed i = if (s.children i).status = .reaped then 1 else 0) ∧
    (∀ {a s'}, Answers (familyStep pid cap) s a s' → ∀ call ∈ a.2, Safe pid s call) ∧
    (s.parent.mStop = true → ∀ i, (s.children i).status = .reaped) ∧
    (∀ {tr' s'}, Run (Answers (familyStep pid cap)) s tr' s' → (∀ a ∈ tr', a.1.own = true) →
      tr'.length ≤ s.work) ∧
    (Rest pid cap s → s.Heard →
      (∀ i, (s.children i).status ≠ .zombie) ∧
      (s.ordered = true → s.loop.place = .stopped ∧ ∀ i, (s.children i).status = .reaped)) := by
  have inv : Inv pid s :=
    run.invariant (Inv pid) (inv_forked pos) fun _ _ _ inv st => (inv.step inj valid st).1
  refine ⟨fun i => ⟨inv.mPid i, inv.closed i⟩, fun st => (inv.step inj valid st).2, inv.stop, ?_,
    fun rest heard => rest.shutdown inv heard⟩
  intro tr' s' own_run own
  suffices total : tr'.length + s'.work ≤ s.work from (Nat.le_add_right ..).trans total
  induction own_run with
  | nil => exact (Nat.zero_add _).le
  | @cons tr' a s₁ s₂ _ st ih =>
    have before := ih fun a mem => own a (List.mem_cons_of_mem _ mem)
    have less := work_step (own a List.mem_cons_self) st
    rw [List.length_cons]
    omega

/-- Of two children the second one exits by itself, and the parent gets `SIGTERM` at the same
time. -/
theorem pool_shutdown_two :
    ∃ (tr : List (FamilyAction 2 × List (Call 2))) (s : Family 2),
      Run (Answers (familyStep ![11, 12] 8)) (forked ![11, 12]) tr s ∧
      s.ordered = true ∧ s.loop.place = .stopped ∧ s.Heard ∧ ∀ i, s.closed i = 1 := by
  have all : (serve (familyStep ![11, 12] 8) (forked ![11, 12])
      [.next, .next, .waitpid none, .waitpid (some 0), .next, .wait [none], .deliver .chld,
        .childNext 0, .childNext 0, .childNext 0, .childNext 0, .childNext 0, .childWait 0 [none],
        .childDeliver 0 .term,
        .next, .next, .waitpid none, .waitpid (some 1), .next, .next, .next, .next, .wait [none],
        .deliver .chld, .deliver .term, .signal .term, .crash 1, .childSetup 1, .childSetup 0,
        .setup]).any
      (fun r => r.2.ordered = true ∧ r.2.loop.place = .stopped ∧ r.2.parent.mStop = true ∧
        r.2.loop.missed = false ∧
        ∀ i, (r.2.children i).loop.missed = false) = true := by
    decide +kernel
  obtain ⟨⟨tr, s⟩, e, facts⟩ := (Option.any_eq_true _ _).mp all
  obtain ⟨ordered, place, stop, heard⟩ := of_decide_eq_true facts
  have run := serve_run e
  obtain ⟨books, _, reaped, _⟩ := pool_shutdown (by decide) (by decide) (by decide) run
  refine ⟨tr, s, run, ordered, place, heard, fun i => ?_⟩
  rw [(books i).2, if_pos (reaped stop i)]

end SweetClib.Process
