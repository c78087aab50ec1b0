import SweetClib.Process.Processpool

/-!
# Connections of the process pool

A connection goes through the pool in stages: it waits at the listening socket with its event set,
with the parent at the event, with an `int` in the pipe of a child, or with a child at its
`accept`. The account of `Lib.EdgeQueue` is kept for the listening socket and for every pipe
(`Account`), and gives the number of connections that nobody accepts (`unaccepted_eq_merged`): one
for every arrival and every notification that was merged into the event of another one.

The pool comes to rest after every run without another arrival (`reaches_quiet`). When no arrival
and no notification was merged, every connection has been accepted then (`connections_accepted`).
-/

namespace SweetClib.Process
open Lib

variable {C : Type} {n : Nat}

section Search

variable {mPid : Vector Int n} {counter : Nat}

/-- No child has exited. -/
abbrev AllLive (mPid : Vector Int n) : Prop := ∀ pid ∈ mPid.toList, pid ≠ -1

/-- The search ends at its start, if no child has exited. -/
lemma searchLoop_live (live : AllLive mPid) (lt : counter < n) :
    searchLoop mPid counter n counter = some counter := by
  obtain ⟨m, rfl⟩ := Nat.exists_eq_succ_of_ne_zero (Nat.ne_zero_of_lt lt)
  have here : mPid[counter] ≠ -1 := live _ (by simp)
  rw [searchLoop, Vector.getElem?_eq_getElem lt]
  exact if_pos here

end Search

/-- As long as no child exits, the parent goes on. -/
structure Running (s : Pool C n) : Prop where
  live : AllLive s.mPid
  counter : s.subProcessCounter < n
  parent : s.parent ≠ .stopped

/-- The parent sends the notification to the child at `sub_process_counter`. -/
lemma passOn_running {s : Pool C n} (running : Running s) :
    ∃ i, passOn s = some ((s.children i).pipe.event,
      { s with parent := .waiting, subProcessCounter := (s.subProcessCounter + 1) % n,
               children := Function.update s.children i (s.children i).notify }) := by
  have here : s.mPid.get ⟨s.subProcessCounter, running.counter⟩ ≠ -1 :=
    running.live _ (by simp [Vector.get])
  refine ⟨⟨s.subProcessCounter, running.counter⟩, ?_⟩
  rw [passOn, searchLoop_live running.live running.counter, Option.bind_eq_bind, Option.bind_some,
    dif_pos running.counter, if_neg here]

/-- The steps of a pool that runs. -/
inductive Trans (s : Pool C n) : Action C n → Bool → Pool C n → Prop where
  | arrive {c} :
    Trans s (.arrive c) s.listen.event { s with listen := s.listen.push c }
  | parentWait {q} :
    s.parent = .waiting →
    s.listen.wait = some q →
    Trans s .parentWait false { s with listen := q, parent := .notified }
  | parentSend {i} :
    s.parent = .notified →
    Trans s .parentSend (s.children i).pipe.event
      { s with parent := .waiting, subProcessCounter := (s.subProcessCounter + 1) % n,
               children := Function.update s.children i (s.children i).notify }
  | childWait {i q} :
    (s.children i).pc = .waiting →
    (s.children i).pipe.wait = some q →
    Trans s (.childWait i) false
      { s with
        children := Function.update s.children i { s.children i with pipe := q, pc := .receiving } }
  | childRecv {i} :
    (s.children i).pc = .receiving →
    Trans s (.childRecv i) false
      { s with children := Function.update s.children i (s.children i).recv }
  | childAccept {i} :
    (s.children i).pc = .accepting →
    Trans s (.childAccept i) false
      { s with listen := s.listen.pop.2,
               children := Function.update s.children i ((s.children i).accept s.listen.pop.1) }

lemma trans_of_step {s s' : Pool C n} (running : Running s) {act : Action C n} {b : Bool}
    (st : poolStep s act = some (b, s')) : Trans s act b s' := by
  cases act with
  | arrive c =>
    cases st
    exact .arrive
  | parentWait =>
    obtain ⟨idle, st⟩ := Option.ite_none_right_eq_some.mp st
    obtain ⟨q, e, res⟩ := Option.map_eq_some_iff.mp st
    cases res
    exact .parentWait idle e
  | parentSend =>
    obtain ⟨busy, st⟩ := Option.ite_none_right_eq_some.mp st
    obtain ⟨i, e⟩ := passOn_running running
    rw [e] at st
    cases st
    exact .parentSend busy
  | childWait i =>
    obtain ⟨idle, st⟩ := Option.ite_none_right_eq_some.mp st
    obtain ⟨q, e, res⟩ := Option.map_eq_some_iff.mp st
    cases res
    exact .childWait idle e
  | childRecv i =>
    obtain ⟨busy, st⟩ := Option.ite_none_right_eq_some.mp st
    cases st
    exact .childRecv busy
  | childAccept i =>
    obtain ⟨busy, st⟩ := Option.ite_none_right_eq_some.mp st
    cases st
    exact .childAccept busy

lemma Trans.running {s s' : Pool C n} {act : Action C n} {b : Bool} (st : Trans s act b s')
    (running : Running s) : Running s' := by
  cases st with
  | arrive => exact ⟨running.live, running.counter, running.parent⟩
  | parentWait => exact ⟨running.live, running.counter, Parent.noConfusion⟩
  | parentSend =>
    refine ⟨running.live, ?_, Parent.noConfusion⟩
    exact Nat.mod_lt _ (Nat.zero_lt_of_lt running.counter)
  | childWait => exact ⟨running.live, running.counter, running.parent⟩
  | childRecv => exact ⟨running.live, running.counter, running.parent⟩
  | childAccept => exact ⟨running.live, running.counter, running.parent⟩

/-- The connections a child has been told of and has not tried to accept. -/
def Child.inHand (child : Child C) : Nat :=
  child.pipe.items.length + if child.pc = .accepting then 1 else 0

/-- The listen events that were taken and whose connection nobody has tried to accept. -/
def Pool.inHand (s : Pool C n) : Nat :=
  (if s.parent = .notified then 1 else 0) + ∑ i, (s.children i).inHand

/-- The account of the pipe of a child, with `m` merged notifications. -/
def Child.Account (child : Child C) (m : Nat) : Prop :=
  child.pipe.Owes (if child.pc = .receiving then 1 else 0) m

/-- The accounts of the listening socket and of all pipes, for so many merged arrivals and
notifications. -/
def Pool.Account (s : Pool C n) (merged : Nat) : Prop :=
  ∃ (m : Nat) (k : Fin n → Nat), s.listen.Owes s.inHand m ∧ (∀ i, (s.children i).Account (k i)) ∧
    m + ∑ i, k i = merged

section Steps

variable {s s' : Pool C n} {merged : Nat} {i : Fin n} {child : Child C}

/-- What is in hand, after a step of one child. -/
lemma inHand_update (s : Pool C n) (listen : EdgeQueue C) (i : Fin n) (child : Child C) :
    ({ s with listen, children := Function.update s.children i child }).inHand +
      (s.children i).inHand =
      s.inHand + child.inHand := by
  have sum := sum_update Child.inHand s.children i child
  simp only [Pool.inHand]
  omega

/-- The accounts of the pipes, after a step of one child. -/
lemma account_update {children : Fin n → Child C} {k : Fin n → Nat} {m : Nat}
    (pipes : ∀ j, (children j).Account (k j)) (pipe : child.Account m) (j : Fin n) :
    (Function.update children i child j).Account (Function.update k i m j) := by
  by_cases here : j = i
  · rw [here, Function.update_self, Function.update_self]
    exact pipe
  · rw [Function.update_of_ne here, Function.update_of_ne here]
    exact pipes j

/-- A step of one child that merges nothing keeps the accounts, if it keeps the account of its pipe
and takes from the listening socket what it has no longer in hand. -/
lemma Pool.Account.childStep (account : s.Account merged) (q : EdgeQueue C)
    (step : ∀ k r m, (s.children i).Account k → s.listen.Owes (r + (s.children i).inHand) m →
      child.Account k ∧ q.Owes (r + child.inHand) m) :
    ({ s with listen := q, children := Function.update s.children i child } : Pool C n).Account
      merged := by
  obtain ⟨m, k, owes, pipes, total⟩ := account
  obtain ⟨rest, split⟩ : ∃ rest, s.inHand = rest + (s.children i).inHand := by
    rw [Pool.inHand, ← Finset.add_sum_erase _ _ (Finset.mem_univ i)]
    exact ⟨_, by rw [add_comm (s.children i).inHand, ← add_assoc]⟩
  have sum := inHand_update s q i child
  rw [split] at owes
  obtain ⟨pipe, owes⟩ := step (k i) rest m (pipes i) owes
  refine ⟨m, k, ?_, ?_, total⟩
  · rw [show ({ s with listen := q, children := Function.update s.children i child } : Pool C
      n).inHand =
      rest + child.inHand by omega]
    exact owes
  · intro j
    have kept := account_update (i := i) pipes pipe j
    rw [Function.update_eq_self] at kept
    exact kept

lemma Pool.Account.arrive (account : s.Account merged) (c : C) :
    ({ s with listen := s.listen.push c } : Pool C n).Account (merged + s.listen.event.toNat) := by
  obtain ⟨m, k, listen, pipes, total⟩ := account
  exact ⟨m + s.listen.event.toNat, k, listen.push c, pipes, by omega⟩

lemma Pool.Account.parentWait (account : s.Account merged) (idle : s.parent = .waiting) {q}
    (e : s.listen.wait = some q) :
    ({ s with listen := q, parent := .notified } : Pool C n).Account merged := by
  obtain ⟨m, k, listen, pipes, total⟩ := account
  have one : ({ s with listen := q, parent := .notified } : Pool C n).inHand = s.inHand + 1 := by
    simp only [Pool.inHand, idle, reduceCtorEq, if_true, if_false]
    omega
  refine ⟨m, k, ?_, pipes, total⟩
  rw [one]
  exact listen.wait e

lemma Pool.Account.parentSend (account : s.Account merged) (busy : s.parent = .notified)
    (counter : Nat) (i : Fin n) :
    ({ s with parent := .waiting, subProcessCounter := counter,
              children := Function.update s.children i (s.children i).notify } : Pool C n).Account
      (merged + (s.children i).pipe.event.toNat) := by
  obtain ⟨m, k, listen, pipes, total⟩ := account
  have one : ({ s with
      parent := .waiting, subProcessCounter := counter,
      children := Function.update s.children i (s.children i).notify } : Pool C n).inHand =
        s.inHand := by
    have sum := sum_update Child.inHand s.children i (s.children i).notify
    have more : (s.children i).notify.inHand = (s.children i).inHand + 1 := by
      show ((s.children i).pipe.items ++ [1]).length + (if (s.children i).pc = .accepting then 1
        else 0) = _
      rw [List.length_append, List.length_singleton, Child.inHand]
      omega
    simp only [Pool.inHand, busy, reduceCtorEq, if_true, if_false]
    omega
  refine ⟨m, Function.update k i (k i + (s.children i).pipe.event.toNat), ?_, ?_, ?_⟩
  · rw [one]
    exact listen
  · exact account_update pipes ((pipes i).push 1)
  · have sum := sum_update id k i (k i + (s.children i).pipe.event.toNat)
    simp only [id] at sum
    omega

lemma Pool.Account.childWait (account : s.Account merged) (idle : (s.children i).pc = .waiting)
    {q} (e : (s.children i).pipe.wait = some q) :
    ({ s with
      children := Function.update s.children i { s.children i with pipe := q, pc := .receiving } } :
      Pool C n).Account merged := by
  refine account.childStep s.listen ?_
  intro k r m pipe listen
  constructor
  · rw [Child.Account, idle] at pipe
    exact pipe.wait e
  · obtain ⟨_, rfl⟩ := EdgeQueue.wait_eq_some e
    rw [Child.inHand, idle] at listen
    exact listen

lemma Pool.Account.childRecv (account : s.Account merged) (busy : (s.children i).pc = .receiving) :
    ({ s with children := Function.update s.children i (s.children i).recv } : Pool C n).Account
      merged := by
  refine account.childStep s.listen ?_
  intro k r m pipe listen
  rw [Child.Account, if_pos busy] at pipe
  obtain ⟨a, q, e, items, pipe⟩ := EdgeQueue.Owes.pop (k := 0) pipe
  rw [Child.recv, e]
  constructor
  · exact pipe
  · rw [Child.inHand, busy, items] at listen
    exact listen

lemma Pool.Account.childAccept (account : s.Account merged)
    (busy : (s.children i).pc = .accepting) :
    ({ s with listen := s.listen.pop.2,
              children := Function.update s.children i ((s.children i).accept s.listen.pop.1) } :
      Pool C n).Account merged := by
  refine account.childStep s.listen.pop.2 ?_
  intro k r m pipe listen
  constructor
  · rw [Child.Account, busy] at pipe
    exact pipe
  · rw [Child.inHand, if_pos busy, ← add_assoc] at listen
    obtain ⟨c, q, e, _, rest⟩ := listen.pop
    rw [e]
    exact rest

/-- Every step keeps the accounts, with one more if it merges an arrival or a notification. -/
lemma Trans.account {act : Action C n} {b : Bool} (st : Trans s act b s')
    (account : s.Account merged) : s'.Account (merged + b.toNat) := by
  cases st with
  | @arrive c => exact account.arrive c
  | parentWait idle e => exact account.parentWait idle e
  | @parentSend i busy => exact account.parentSend busy _ i
  | childWait idle e => exact account.childWait idle e
  | childRecv busy => exact account.childRecv busy
  | childAccept busy => exact account.childAccept busy

/-- A step of one child that accepts nothing. -/
lemma accepted_update (child : Child C) (same : child.accepted = (s.children i).accepted) :
    ∑ j, ((Function.update s.children i child j).accepted : Multiset C) = s.accepted := by
  have sum := sum_update (fun child : Child C => (child.accepted : Multiset C)) s.children i child
  rw [same] at sum
  exact add_right_cancel sum

/-- Every connection that arrives is accepted once or waits. -/
lemma Trans.conserve {act : Action C n} {b : Bool} (st : Trans s act b s') :
    s'.accepted + s'.listen.items = s.accepted + s.listen.items + act.arrival := by
  cases st with
  | @arrive c =>
    show s.accepted + ((s.listen.items ++ [c] : List C) : Multiset C) = _
    rw [← Multiset.coe_add, add_assoc]
    rfl
  | parentWait idle e =>
    obtain ⟨_, rfl⟩ := EdgeQueue.wait_eq_some e
    exact (add_zero _).symm
  | parentSend busy =>
    rw [Pool.accepted, accepted_update]
    · exact (add_zero _).symm
    · rfl
  | childWait idle e =>
    rw [Pool.accepted, accepted_update]
    · exact (add_zero _).symm
    · rfl
  | childRecv busy =>
    rw [Pool.accepted, accepted_update]
    · exact (add_zero _).symm
    · rfl
  | @childAccept i busy =>
    have sum := sum_update (fun child : Child C => (child.accepted : Multiset C)) s.children i
      ((s.children i).accept s.listen.pop.1)
    have more :
      (((s.children i).accept s.listen.pop.1).accepted : Multiset C) + s.listen.pop.2.items =
        (s.children i).accepted + s.listen.items := by
      rw [Child.accept, ← Multiset.coe_add, add_assoc, Multiset.coe_add, EdgeQueue.pop_items]
    apply add_right_cancel (b := ((s.children i).accepted : Multiset C))
    show ∑ j,
      ((Function.update s.children i ((s.children i).accept s.listen.pop.1) j).accepted :
        Multiset C) +
      s.listen.pop.2.items + (s.children i).accepted = s.accepted + s.listen.items + 0 +
        (s.children i).accepted
    rw [add_right_comm, sum, add_assoc, more, Pool.accepted]
    abel

end Steps

section Rest

variable {s s' : Pool C n}

/-- The steps a child has to take. -/
def Child.work (child : Child C) : Nat :=
  3 * child.pipe.event.toNat +
    match child.pc with
    | .waiting => 0
    | .receiving => 2
    | .accepting => 1

/-- The steps the pool has to take, if no other connection arrives. -/
def Pool.work (s : Pool C n) : Nat :=
  5 * s.listen.event.toNat + (if s.parent = .notified then 4 else 0) + ∑ i, (s.children i).work

/-- A step of one child that leaves it less work. -/
lemma work_update {q : EdgeQueue C} {i : Fin n} {child : Child C}
    (event : q.event = s.listen.event) (less : child.work < (s.children i).work) :
    ({ s with listen := q, children := Function.update s.children i child } : Pool C n).work <
      s.work := by
  have sum := sum_update Child.work s.children i child
  simp only [Pool.work, event]
  omega

/-- The arrival of a connection is the only step that makes work. -/
lemma Trans.work_lt {act : Action C n} {b : Bool} (st : Trans s act b s')
    (other : act.arrival = 0) : s'.work < s.work := by
  cases st with
  | arrive => exact absurd other (Multiset.singleton_ne_zero _)
  | parentWait idle e =>
    obtain ⟨event, rfl⟩ := EdgeQueue.wait_eq_some e
    simp [Pool.work, idle, event]
  | @parentSend i busy =>
    have sum := sum_update Child.work s.children i (s.children i).notify
    have more : (s.children i).notify.work ≤ (s.children i).work + 3 := by
      simp only [Child.work, Child.notify, EdgeQueue.push, Bool.toNat_true]
      omega
    simp only [Pool.work, busy, reduceCtorEq, if_true, if_false]
    omega
  | childWait idle e =>
    obtain ⟨event, rfl⟩ := EdgeQueue.wait_eq_some e
    apply work_update rfl
    simp [Child.work, idle, event]
  | childRecv busy =>
    apply work_update rfl
    simp [Child.work, Child.recv, busy, EdgeQueue.pop_event]
  | childAccept busy =>
    apply work_update s.listen.pop_event
    simp [Child.work, Child.accept, busy]

/-- A pool that is not at rest has a step to take. -/
lemma exists_step (running : Running s) (busy : ¬ s.Quiet) :
    ∃ act b s', act.arrival = 0 ∧ poolStep s act = some (b, s') := by
  cases parent : s.parent with
  | waiting =>
    by_cases event : s.listen.event = true
    · exact ⟨.parentWait, false, _,
        rfl, by rw [poolStep, if_pos parent, EdgeQueue.wait_of_event event]; rfl⟩
    · obtain ⟨i, busy⟩ : ∃ i,
          ¬ ((s.children i).pipe.event = false ∧ (s.children i).pc = .waiting) := by
        by_contra rest
        exact busy ⟨Bool.eq_false_iff.mpr event, parent, fun i => by_contra fun h => rest ⟨i, h⟩⟩
      cases pc : (s.children i).pc with
      | waiting =>
        have event : (s.children i).pipe.event = true := by
          rw [pc] at busy
          simpa using busy
        exact ⟨.childWait i, false, _,
          rfl, by rw [poolStep, if_pos pc, EdgeQueue.wait_of_event event]; rfl⟩
      | receiving => exact ⟨.childRecv i, false, _, rfl, if_pos pc⟩
      | accepting => exact ⟨.childAccept i, false, _, rfl, if_pos pc⟩
  | notified =>
    obtain ⟨i, e⟩ := passOn_running running
    exact ⟨.parentSend, _, _, rfl, by rw [poolStep, if_pos parent]; exact e⟩
  | stopped => exact absurd parent running.parent

/-- A pool that runs comes to rest without another arrival. -/
theorem reaches_quiet (running : Running s) :
    ∃ tr s', Run PoolStep s tr s' ∧ arrivals tr = 0 ∧ s'.Quiet := by
  induction work : s.work using Nat.strong_induction_on generalizing s with
  | _ w ih =>
    by_cases quiet : s.Quiet
    · exact ⟨[], s, .nil, rfl, quiet⟩
    · obtain ⟨act, b, s₁, other, st⟩ := exists_step running quiet
      have trans := trans_of_step running st
      obtain ⟨tr, s', run, others, quiet⟩ :=
        ih s₁.work (work ▸ trans.work_lt other) (trans.running running) rfl
      refine ⟨tr ++ [(act, b)], s', (Run.single st).trans run, ?_, quiet⟩
      rw [arrivals] at others ⊢
      rw [List.map_append, List.sum_append, others, List.map_singleton, List.sum_singleton, other,
        add_zero]

end Rest

section Runs

variable {mPid : Vector Int n} {tr : List (Action C n × Bool)} {s : Pool C n}

lemma run_account (pos : 0 < n) (live : AllLive mPid) (run : Run PoolStep (init mPid) tr s) :
    Running s ∧ s.Account (tr.countP fun a => a.2) := by
  refine run.history (fun tr s => Running s ∧ s.Account (tr.countP fun a => a.2))
    ⟨⟨live, pos, Parent.noConfusion⟩, ?_⟩ ?_
  · refine ⟨0, fun _ => 0, ?_, fun _ => EdgeQueue.owes_empty, by simp⟩
    have none : (init mPid : Pool C n).inHand = 0 := by
      simp [Pool.inHand, Child.inHand, init, EdgeQueue.empty]
    rw [none]
    exact EdgeQueue.owes_empty
  · rintro tr s ⟨act, b⟩ s' ⟨running, account⟩ st
    have st := trans_of_step running st
    refine ⟨st.running running, ?_⟩
    rw [List.countP_cons]
    cases b <;> exact st.account account

/-- Whatever the order of the steps: when the pool is at rest, the connections that wait are as
many as the arrivals and the notifications that were merged. -/
theorem unaccepted_eq_merged (pos : 0 < n) (live : AllLive mPid)
    (run : Run PoolStep (init mPid) tr s) (quiet : s.Quiet) :
    s.listen.items.length = tr.countP fun a => a.2 := by
  obtain ⟨event, parent, children⟩ := quiet
  obtain ⟨_, m, k, listen, pipes, total⟩ := run_account pos live run
  have pipe (i : Fin n) : (s.children i).inHand = k i := by
    obtain ⟨event, pc⟩ := children i
    have owes := pipes i
    rw [Child.Account, pc] at owes
    rw [Child.inHand, pc]
    exact owes.rest event
  have inHand : s.inHand = ∑ i, k i := by
    rw [Pool.inHand, parent, Finset.sum_congr rfl fun i _ => pipe i]
    simp
  rw [EdgeQueue.Owes, event, inHand, Bool.toNat_false] at listen
  omega

/-- Every connection that arrived was accepted once, or waits. -/
lemma accepted_add_waiting (pos : 0 < n) (live : AllLive mPid)
    (run : Run PoolStep (init mPid) tr s) : s.accepted + s.listen.items = arrivals tr := by
  suffices both : Running s ∧ s.accepted + s.listen.items = arrivals tr from both.2
  refine run.history
    (fun tr (s : Pool C n) => Running s ∧ s.accepted + (s.listen.items : Multiset C) = arrivals tr)
    ⟨⟨live, pos, Parent.noConfusion⟩, ?_⟩ ?_
  · simp [Pool.accepted, init, EdgeQueue.empty, arrivals]
  · rintro tr s ⟨act, b⟩ s' ⟨running, all⟩ st
    have st := trans_of_step running st
    refine ⟨st.running running, ?_⟩
    rw [st.conserve, all, arrivals, arrivals, List.map_cons, List.sum_cons, add_comm]

/-- For every number of children, none of which exits, and every order of the steps: when the pool
is at rest, every connection that arrived has been accepted by a child, and only once, exactly when
no connection arrived while the listen event of another one was pending and no notification was
sent while the event of another one at its pipe was pending. -/
theorem connections_accepted (pos : 0 < n) (live : AllLive mPid)
    (run : Run PoolStep (init mPid) tr s) (quiet : s.Quiet) :
    ((∀ c ∈ arrivals tr, ∃ i, c ∈ (s.children i).accepted) ∧ s.accepted = arrivals tr) ↔
      ∀ a ∈ tr, a.2 = false := by
  have waiting := unaccepted_eq_merged pos live run quiet
  have all := accepted_add_waiting pos live run
  constructor
  · rintro ⟨_, accepted⟩
    have items : s.listen.items.length = 0 := by
      rw [accepted, add_eq_left, Multiset.coe_eq_zero] at all
      rw [all, List.length_nil]
    intro a mem
    exact Bool.eq_false_of_not_eq_true (List.countP_eq_zero.mp (waiting.symm.trans items) a mem)
  · intro apart
    have none : tr.countP (fun a => a.2) = 0 := by
      rw [List.countP_eq_zero]
      intro a mem
      rw [apart a mem]
      exact Bool.false_ne_true
    have items : s.listen.items = [] := List.length_eq_zero_iff.mp (waiting.trans none)
    rw [items, Multiset.coe_nil, add_zero] at all
    refine ⟨?_, all⟩
    intro c mem
    rw [← all, Pool.accepted, Multiset.mem_sum] at mem
    obtain ⟨i, _, mem⟩ := mem
    exact ⟨i, mem⟩

end Runs

/-- Two children and two connections, each of them passed on before the next one arrives. -/
theorem connections_accepted_two :
    AllLive #v[100, 101] ∧
    ∃ (tr : List (Action Nat 2 × Bool)) (s : Pool Nat 2), Run PoolStep (init #v[100, 101]) tr s ∧
      s.Quiet ∧
      arrivals tr = {8, 7} ∧ s.accepted = {8, 7} := by
  have live : AllLive #v[100, 101] := by decide
  have run : Run PoolStep (init #v[100, 101] : Pool Nat 2)
      [(.childAccept 1, false), (.childRecv 1, false), (.childWait 1, false),
        (.childAccept 0, false), (.childRecv 0, false), (.parentSend, false), (.parentWait, false),
        (.arrive 8, false), (.childWait 0, false),
       (.parentSend, false), (.parentWait, false), (.arrive 7, false)] _ :=
    .cons (.cons
      (.cons
        (.cons
          (.cons (.cons (.cons (.cons (.cons (.cons (.cons (.cons .nil rfl) rfl) rfl) rfl) rfl) rfl)
      rfl) rfl) rfl) rfl) rfl) rfl
  refine ⟨live, _, _, run, ?_, rfl,
    ((connections_accepted (by decide) live run ?_).mpr (by decide)).2⟩ <;> decide

/-- Two connections arrive before the parent waits: there is one event, one notification and one
`accept`, and the second connection is not accepted when the pool is at rest. -/
theorem second_connection_waits :
    AllLive #v[100, 101] ∧
    ∃ (tr : List (Action Nat 2 × Bool)) (s : Pool Nat 2), Run PoolStep (init #v[100, 101]) tr s ∧
      s.Quiet ∧
      8 ∈ arrivals tr ∧ ∀ i, 8 ∉ (s.children i).accepted := by
  have run : Run PoolStep (init #v[100, 101] : Pool Nat 2)
      [(.childAccept 0, false), (.childRecv 0, false), (.childWait 0, false), (.parentSend, false),
        (.parentWait, false),
       (.arrive 8, true), (.arrive 7, false)] _ :=
    .cons (.cons (.cons (.cons (.cons (.cons (.cons .nil rfl) rfl) rfl) rfl) rfl) rfl) rfl
  exact ⟨by decide, _, _, run, by decide, by decide, by decide⟩

end SweetClib.Process
