import SweetClib.Lib.SignalLoop
import SweetClib.Process.RoundRobin

/-!
# The signals of the process pool

The parent and the children of `processpool/processpool.h` with their signals. Every process sends
its signals through a pipe to its own loop (`setup_sig_pipe`, `sig_handler`; `Lib.SignalLoop`, with
the 1024 bytes of `signals` and the edge-triggered event of `addfd`). A child that exits is a
zombie and raises `SIGCHLD` in the parent; the parent waits for the zombies, closes its ends of
their pipes and marks them in `m_pid`, and stops when none of its children is left. On `SIGTERM` or
`SIGINT` it sends `SIGTERM` to each child that is not marked, and a child that handles it stops.

A step is a call of one process or something from outside: a connection, a signal, a child that
exits on its own. The steps interleave in any order; the loop that sends the signals goes child by
child. A process that has not set up its handlers ignores `SIGCHLD` and ends at `SIGTERM`. What
children do with their connections is not in this model.

`Inv` says what the parent knows about its children, and what is on its way between them; every
step keeps it (`Inv.step`).
-/

namespace SweetClib.Process
open Lib

variable {n : Nat}

/-- The signals that are handled (C `addsig`). -/
inductive Sig where
  | chld
  | term
  | int
  deriving DecidableEq

instance : Fintype Sig := ⟨{.chld, .term, .int}, fun sig => by cases sig <;> decide⟩

/-- A zombie has exited and was not waited for. -/
inductive Status where
  | running
  | zombie
  | reaped
  deriving DecidableEq

/-- A child: its loop and its `m_stop`, what the kernel knows about it, and whether the parent has
sent it `SIGTERM`. -/
structure Member where
  loop : SignalLoop Sig Unit
  mStop : Bool
  status : Status
  termed : Bool

/-- The parent with its children. `cursor` is the place of the loop that sends `SIGTERM`, `listen`
the event of the listening socket, `closed` says how often the end of a pipe was closed, and
`ordered` that `SIGTERM` or `SIGINT` was handled. -/
structure Family (n : Nat) where
  loop : SignalLoop Sig Unit
  parent : ParentSt n
  cursor : Nat
  listen : Bool
  closed : Fin n → Nat
  ordered : Bool
  children : Fin n → Member

/-- The calls of the parent about a child: a signal to a process, and what it does with its end of
a pipe. -/
inductive Call (n : Nat) where
  | kill (pid : Int)
  | close (i : Fin n)
  | send (i : Nat)
  deriving DecidableEq

/-- What comes from outside, and the steps of the parent and of the children. -/
inductive FamilyAction (n : Nat) where
  | arrive
  | signal (sig : Sig)
  | signalChild (i : Fin n) (sig : Sig)
  | crash (i : Fin n)
  | setup
  | deliver (sig : Sig)
  | wait (es : List (Option Unit))
  | next
  | waitpid (child : Option (Fin n))
  | childSetup (i : Fin n)
  | childDeliver (i : Fin n) (sig : Sig)
  | childWait (i : Fin n) (es : List (Option Unit))
  | childNext (i : Fin n)
  deriving DecidableEq

/-- The steps that a process takes by itself; a child by itself waits for signals only. -/
def FamilyAction.own : FamilyAction n → Bool
  | .arrive | .signal _ | .signalChild _ _ | .crash _ => false
  | .childWait _ es => es = [none]
  | _ => true

namespace Family

/-- Change one child. -/
def setChild (s : Family n) (i : Fin n) (child : Member) : Family n :=
  { s with children := Function.update s.children i child }

/-- A child exits, and the parent is told, if it has set up its handlers. -/
def exit (s : Family n) (i : Fin n) : Family n :=
  { s.setChild i { s.children i with status := .zombie } with
    loop := if s.loop.place = .starting then s.loop.miss else s.loop.raise .chld }

/-- A signal to a child. -/
def raiseChild (s : Family n) (i : Fin n) (sig : Sig) : Family n :=
  if (s.children i).status = .running then
    if (s.children i).loop.place = .starting then if sig = .chld then s else s.exit i
    else s.setChild i { s.children i with loop := (s.children i).loop.raise sig }
  else s

/-- The `SIGTERM` of the parent to a process. -/
def kill (pid : Fin n → Int) (s : Family n) (p : Int) : Family n :=
  match (List.finRange n).find? fun i => pid i = p with
  | some i =>
    let s := s.raiseChild i .term
    s.setChild i { s.children i with termed := true }
  | none => s

/-- A round of the loop that sends `SIGTERM` to the children. -/
def killNext (pid : Fin n → Int) (s : Family n) (i : Fin n) : List (Call n) × Family n :=
  if s.parent.mPid.get i ≠ -1 then
    ([.kill (s.parent.mPid.get i)], { kill pid s (s.parent.mPid.get i) with cursor := i + 1 })
  else ([], { s with cursor := i + 1 })

/-- The parent goes on in its batch of events, and in the signals it received (in C
`run_parent`). -/
def next (pid : Fin n → Int) (s : Family n) : Option (List (Call n) × Family n) :=
  match s.loop.place with
  | .events (some () :: _) => do
    let (choice, parent) ← onListen s.parent
    match choice with
    | some i => some ([.send i], { s with parent, loop := s.loop.advance 1024 parent.mStop })
    | none => some ([], { s with parent, loop := s.loop.leave })
  | .signals (.chld :: _) _ => none
  | .signals (_ :: _) _ =>
    if h : s.cursor < n then some (s.killNext pid ⟨s.cursor, h⟩)
    else some
      ([], { s with cursor := 0, ordered := true, loop := s.loop.advance 1024 s.parent.mStop })
  | .events _ => some ([], { s with loop := s.loop.advance 1024 s.parent.mStop })
  | .signals [] _ => some ([], { s with loop := s.loop.advance 1024 s.parent.mStop })
  | _ => none

/-- The `waitpid` at a `SIGCHLD`, which finds a zombie as long as there is one. -/
def waitpid (pid : Fin n → Int) (s : Family n) (child : Option (Fin n)) :
    Option (List (Call n) × Family n) :=
  if s.loop.place.hand.head? = some .chld then
    match child with
    | some i =>
      if (s.children i).status = .zombie then
        let joined := fun j => s.parent.mPid.get j = pid i
        some (((List.finRange n).filter joined).map .close,
          { s.setChild i { s.children i with status := .reaped } with
            parent := { s.parent with mPid := reap s.parent.mPid (pid i) },
            closed := fun j => if joined j then s.closed j + 1 else s.closed j })
      else none
    | none =>
      if ∀ i, (s.children i).status ≠ .zombie then
        some ([],
          { s with
            parent := onSigchld s.parent [],
            loop := s.loop.advance 1024 (onSigchld s.parent []).mStop })
      else none
  else none

/-- A child goes on (in C `run_child`), and exits behind its loop. -/
def childNext (s : Family n) (i : Fin n) : Option (Family n) :=
  let child := s.children i
  match child.loop.place with
  | .starting | .waiting => none
  | .stopped => some (s.exit i)
  | .signals (sig :: _) _ =>
    let mStop := child.mStop || sig ≠ .chld
    some (s.setChild i { child with mStop, loop := child.loop.advance 1024 mStop })
  | _ => some (s.setChild i { child with loop := child.loop.advance 1024 child.mStop })

/-- The events that the parent's wait returns. -/
def ready (s : Family n) : List (Option Unit) :=
  (if s.loop.pipe.event then [none] else []) ++ if s.listen then [some ()] else []

end Family

/-- A step, with the calls of the parent; the pipes of the signals have room for `cap` bytes. -/
def familyStep (pid : Fin n → Int) (cap : Nat) (s : Family n) :
    FamilyAction n → Option (List (Call n) × Family n)
  | .arrive => some ([], { s with listen := true })
  | .signal sig =>
    if s.loop.place = .starting then none else some ([], { s with loop := s.loop.raise sig })
  | .signalChild i sig => some ([], s.raiseChild i sig)
  | .crash i => if (s.children i).status = .running then some ([], s.exit i) else none
  | .setup => s.loop.setup.map fun loop => ([], { s with loop })
  | .deliver sig => (s.loop.deliver cap sig).map fun loop => ([], { s with loop })
  | .wait es =>
    if es.Perm s.ready then (s.loop.wait es).map fun loop => ([], { s with loop, listen := false })
    else none
  | .next => s.next pid
  | .waitpid child => s.waitpid pid child
  | .childSetup i =>
    let child := s.children i
    if child.status = .running then
      child.loop.setup.map fun loop => ([], s.setChild i { child with loop })
    else none
  | .childDeliver i sig =>
    let child := s.children i
    if child.status = .running then
      (child.loop.deliver cap sig).map fun loop => ([], s.setChild i { child with loop })
    else none
  | .childWait i es =>
    let child := s.children i
    if child.status = .running then
      (child.loop.wait es).map fun loop => ([], s.setChild i { child with loop })
    else none
  | .childNext i =>
    if (s.children i).status = .running then (s.childNext i).map fun s => ([], s) else none

/-- The processes behind the constructor, before any of them has set up its signals. -/
def forked (pid : Fin n → Int) : Family n where
  loop := .fresh
  parent := parentInit (Vector.ofFn pid)
  cursor := 0
  listen := false
  closed := fun _ => 0
  ordered := false
  children := fun _ => ⟨.fresh, false, .running, false⟩

/-- The call is about a child that was not waited for, and an end of a pipe that is open. -/
def Safe (pid : Fin n → Int) (s : Family n) : Call n → Prop
  | .kill p => ∃ i, p = pid i ∧ (s.children i).status ≠ .reaped
  | .close i => s.closed i = 0
  | .send i => ∃ j : Fin n, j.val = i ∧ s.closed j = 0

/-- A child that has exited, or was sent `SIGTERM`. -/
def Member.Termed (child : Member) : Prop := child.status ≠ .running ∨ child.termed = true

/-- A child that was sent `SIGTERM` has it on its way, or stops. -/
structure Member.Good (child : Member) : Prop where
  going : child.loop.place = .starting ∨ child.loop.place = .waiting → child.mStop = false
  told : child.status = .running → child.termed = true →
    child.loop.place ≠ .starting ∧
      (child.loop.missed = false → child.mStop = true ∨ child.loop.Owes .term)

/-- The parent knows what became of its children. -/
structure Inv (pid : Fin n → Int) (s : Family n) : Prop where
  mPid : ∀ i, s.parent.mPid.get i = if (s.children i).status = .reaped then -1 else pid i
  closed : ∀ i, s.closed i = if (s.children i).status = .reaped then 1 else 0
  counter : s.parent.subProcessCounter < n
  zombie : s.loop.missed = false → ∀ i, (s.children i).status = .zombie → s.loop.Owes .chld
  stop : s.parent.mStop = true → ∀ i, (s.children i).status = .reaped
  last : (∀ i, (s.children i).status = .reaped) → s.parent.mStop = true ∨
    s.loop.place.hand.head? = some .chld
  going : s.loop.place = .starting ∨ s.loop.place = .waiting → s.parent.mStop = false
  left : s.loop.place = .stopped → s.parent.mStop = true
  cursor : ∀ i, i.val < s.cursor → (s.children i).Termed
  ordered : s.ordered = true → ∀ i, (s.children i).Termed
  good : ∀ i, (s.children i).Good

section Invariant

variable {pid : Fin n → Int} {cap : Nat} {s s' : Family n}

/-- The invariant holds after the forks. -/
lemma inv_forked (pos : 0 < n) : Inv pid (forked pid) where
  mPid := fun i => Vector.getElem_ofFn (f := pid) i.isLt
  closed := fun _ => rfl
  counter := pos
  zombie := nofun
  stop := nofun
  last := fun all => nomatch all ⟨0, pos⟩
  going := fun _ => rfl
  left := nofun
  cursor := fun _ lt => absurd lt (Nat.not_lt_zero _)
  ordered := nofun
  good := fun _ => ⟨fun _ => rfl, nofun⟩

/-- The child that was changed. -/
lemma setChild_self (s : Family n) (i : Fin n) (child : Member) :
    (s.setChild i child).children i = child :=
  Function.update_self ..

/-- The child that exited is a zombie. -/
lemma exit_self (s : Family n) (i : Fin n) :
    (s.exit i).children i = { s.children i with status := .zombie } :=
  Function.update_self ..

/-- A change that keeps a child terminated keeps all of them so. -/
lemma setChild_termed {i j : Fin n} {child : Member} (keeps : (s.children i).Termed → child.Termed)
    (termed : (s.children j).Termed) : ((s.setChild i child).children j).Termed :=
  (Function.forall_update_iff s.children fun j c => (s.children j).Termed → c.Termed).mpr
    ⟨keeps, fun _ _ => id⟩ j termed

/-- The loop of the parent moves. -/
lemma Inv.move (inv : Inv pid s) {loop : SignalLoop Sig Unit}
    (keeps : loop.missed = false → s.loop.missed = false ∧ (s.loop.Owes .chld → loop.Owes .chld))
    (last : s.loop.place.hand.head? = some .chld → loop.place.hand.head? = some .chld)
    (going : loop.place = .starting ∨ loop.place = .waiting → s.parent.mStop = false)
    (left : loop.place = .stopped → s.parent.mStop = true) : Inv pid { s with loop } where
  mPid := inv.mPid
  closed := inv.closed
  counter := inv.counter
  zombie := fun ok i e => (keeps ok).2 (inv.zombie (keeps ok).1 i e)
  stop := inv.stop
  last := fun all => (inv.last all).imp_right last
  going := going
  left := left
  cursor := inv.cursor
  ordered := inv.ordered
  good := inv.good

/-- The loop of the parent changes, and stays where it is. -/
lemma Inv.stay (inv : Inv pid s) {loop : SignalLoop Sig Unit} (place : loop.place = s.loop.place)
    (keeps : loop.missed = false → s.loop.missed = false ∧ (s.loop.Owes .chld → loop.Owes .chld)) :
    Inv pid { s with loop } :=
  inv.move keeps (fun e => place ▸ e) (place ▸ inv.going) (place ▸ inv.left)

/-- The parent goes on in its loop. -/
lemma Inv.advance (inv : Inv pid s) (other : s.loop.place.hand.head? ≠ some .chld) :
    Inv pid { s with loop := s.loop.advance 1024 s.parent.mStop } := by
  refine inv.move (fun ok => ⟨(Bool.or_eq_false_iff.mp ok).1, fun owes => owes.advance other ok⟩)
    (fun e => absurd e other) ?_ ?_
  · rintro (place | place)
    · exact inv.going (.inl (Place.next_starting place))
    · obtain place | stop := Place.next_waiting place
      · exact inv.going (.inr place)
      · exact stop
  · intro place
    obtain place | stop := Place.next_stopped place
    · exact inv.left place
    · exact stop

/-- The parent waits for events. -/
lemma Inv.wait (inv : Inv pid s) {es : List (Option Unit)} {loop : SignalLoop Sig Unit}
    (e : s.loop.wait es = some loop) (listen : Bool) : Inv pid { s with loop, listen } := by
  obtain ⟨waiting, place, missed, owes⟩ := SignalLoop.wait_eq_some e
  have moved : Inv pid { s with loop } := by
    refine inv.move (fun ok => ⟨missed ▸ ok, owes _⟩) ?_ ?_ ?_
    · rw [waiting]
      exact nofun
    · rw [place]
      exact nofun
    · rw [place]
      exact nofun
  exact ⟨moved.mPid, moved.closed, moved.counter, moved.zombie, moved.stop, moved.last, moved.going,
    moved.left, moved.cursor, moved.ordered, moved.good⟩

/-- A child changes and has not exited. -/
lemma Inv.setChild (inv : Inv pid s) {i : Fin n} {child : Member}
    (status : child.status = (s.children i).status) (good : child.Good)
    (termed : (s.children i).Termed → child.Termed) : Inv pid (s.setChild i child) := by
  have same : ∀ j, (Function.update s.children i child j).status = (s.children j).status :=
    (Function.forall_update_iff s.children fun j c => c.status = (s.children j).status).mpr
      ⟨status, fun _ _ => rfl⟩
  exact {
    mPid := fun j => (inv.mPid j).trans (by rw [Family.setChild, same])
    closed := fun j => (inv.closed j).trans (by rw [Family.setChild, same])
    counter := inv.counter
    zombie := fun ok j e => inv.zombie ok j ((same j).symm.trans e)
    stop := fun stop j => (same j).trans (inv.stop stop j)
    last := fun all => inv.last fun j => (same j).symm.trans (all j)
    going := inv.going
    left := inv.left
    cursor := fun j lt => setChild_termed termed (inv.cursor j lt)
    ordered := fun ordered j => setChild_termed termed (inv.ordered ordered j)
    good :=
      (Function.forall_update_iff s.children fun _ c => c.Good).mpr ⟨good, fun j _ => inv.good j⟩ }

/-- A child that runs exits. -/
lemma Inv.exit (inv : Inv pid s) {i : Fin n} (running : (s.children i).status = .running) :
    Inv pid (s.exit i) := by
  let child : Member := { s.children i with status := .zombie }
  have same : ∀ j, (Function.update s.children i child j).status = .reaped ↔
      (s.children j).status = .reaped :=
    (Function.forall_update_iff s.children fun j c => c.status = .reaped ↔
      (s.children j).status = .reaped).mpr
      ⟨by rw [running]; exact ⟨nofun, nofun⟩, fun _ _ => Iff.rfl⟩
  have termed : (s.children i).Termed → child.Termed := fun _ => .inl fun running => nomatch running
  have place : (s.exit i).loop.place = s.loop.place := by
    show (if s.loop.place = .starting then s.loop.miss else s.loop.raise .chld).place = s.loop.place
    split <;> rfl
  exact {
    mPid := fun j => (inv.mPid j).trans (if_congr (same j).symm rfl rfl)
    closed := fun j => (inv.closed j).trans (if_congr (same j).symm rfl rfl)
    counter := inv.counter
    zombie := fun ok j _ => by
      have started : s.loop.place ≠ .starting := by
        intro starting
        have ok : (if s.loop.place = .starting then s.loop.miss else s.loop.raise .chld).missed =
          false := ok
        rw [if_pos starting] at ok
        cases ok
      show (if s.loop.place = .starting then s.loop.miss else s.loop.raise .chld).Owes .chld
      rw [if_neg started]
      exact s.loop.owes_raise .chld
    stop := fun stop j => (same j).mpr (inv.stop stop j)
    last := fun all => place ▸ inv.last fun j => (same j).mp (all j)
    going := place ▸ inv.going
    left := place ▸ inv.left
    cursor := fun j lt => setChild_termed termed (inv.cursor j lt)
    ordered := fun ordered j => setChild_termed termed (inv.ordered ordered j)
    good := (Function.forall_update_iff s.children fun _ c => c.Good).mpr
      ⟨⟨(inv.good i).going, nofun⟩, fun j _ => inv.good j⟩ }

/-- A signal reaches a child and leaves the child good. -/
lemma Inv.raiseChild (inv : Inv pid s) (i : Fin n) (sig : Sig) : Inv pid (s.raiseChild i sig) := by
  rw [Family.raiseChild]
  split
  · rename_i running
    split
    · split
      · exact inv
      · exact inv.exit running
    · have good := inv.good i
      refine inv.setChild rfl ⟨good.going, fun running termed => ?_⟩ id
      obtain ⟨started, told⟩ := good.told running termed
      exact ⟨started, fun ok => (told ok).imp_right SignalLoop.Owes.raise⟩
  · exact inv

/-- A signal keeps the children terminated that are so. -/
lemma raiseChild_termed {j : Fin n} (termed : (s.children j).Termed) (i : Fin n) (sig : Sig) :
    ((s.raiseChild i sig).children j).Termed := by
  rw [Family.raiseChild]
  split_ifs
  · exact termed
  · exact setChild_termed (i := i) (fun _ => .inl nofun) termed
  · exact setChild_termed id termed
  · exact termed

/-- A child that `SIGTERM` was sent to and that goes on has it on its way. -/
lemma raiseChild_term (s : Family n) (i : Fin n)
    (running : ((s.raiseChild i .term).children i).status = .running) :
    ((s.raiseChild i .term).children i).loop.place ≠ .starting ∧
    ((s.raiseChild i .term).children i).loop.Owes .term := by
  rw [Family.raiseChild] at running ⊢
  split_ifs at running ⊢ with before starting term
  · cases term
  · rw [exit_self] at running
    cases running
  · rw [setChild_self]
    exact ⟨starting, SignalLoop.owes_raise ..⟩
  · exact absurd running before

/-- A `kill` at the pid of a child is a signal to it. -/
lemma kill_eq (inj : Function.Injective pid) (s : Family n) (i : Fin n) :
    s.kill pid (pid i) =
      (s.raiseChild i .term).setChild i
        { (s.raiseChild i .term).children i with termed := true } := by
  have found : (List.finRange n).find? (fun j => pid j = pid i) = some i := by
    cases e : (List.finRange n).find? fun j => pid j = pid i with
    | none =>
      have none_such := List.find?_eq_none.mp e i (List.mem_finRange i)
      exact absurd (decide_eq_true rfl) none_such
    | some j =>
      have same := List.find?_some e
      rw [inj (of_decide_eq_true same)]
  rw [Family.kill, found]

/-- A `kill` adds its child to those that are terminated. -/
lemma kill_termed (inj : Function.Injective pid) (s : Family n) (i : Fin n) {j : Fin n}
    (termed : (s.children j).Termed ∨ j = i) : ((s.kill pid (pid i)).children j).Termed := by
  rw [kill_eq inj]
  refine (Function.forall_update_iff (s.raiseChild i .term).children
    fun j c => (s.children j).Termed ∨ j = i →
      c.Termed).mpr ⟨fun _ => .inr rfl, fun j ne termed => ?_⟩ j termed
  exact raiseChild_termed (termed.resolve_right ne) i .term

/-- A `kill` of the parent keeps the invariant. -/
lemma Inv.kill (inv : Inv pid s) (inj : Function.Injective pid) (i : Fin n) :
    Inv pid (s.kill pid (pid i)) := by
  rw [kill_eq inj]
  have raised := inv.raiseChild i .term
  refine raised.setChild rfl ⟨(raised.good i).going, fun running _ => ?_⟩ fun _ => .inr rfl
  obtain ⟨started, owes⟩ := raiseChild_term s i running
  exact ⟨started, fun _ => .inr owes⟩

/-- The loop of `kill` has come to another child. -/
lemma Inv.withCursor (inv : Inv pid s) {cursor : Nat}
    (termed : ∀ i, i.val < cursor → (s.children i).Termed) : Inv pid { s with cursor } :=
  ⟨inv.mPid, inv.closed, inv.counter, inv.zombie, inv.stop, inv.last, inv.going, inv.left, termed,
    inv.ordered, inv.good⟩

/-- The loop of a child moves, or its `m_stop` is set. -/
lemma Member.Good.move {child : Member} (good : child.Good) {loop : SignalLoop Sig Unit}
    {mStop : Bool} (going : loop.place = .starting ∨ loop.place = .waiting → mStop = false)
    (started : loop.place = .starting → child.loop.place = .starting)
    (keeps : loop.missed = false → child.loop.missed = false ∧
      (child.mStop = true ∨ child.loop.Owes .term → mStop = true ∨ loop.Owes .term)) :
    Member.Good { child with loop, mStop } where
  going := going
  told := fun running termed => by
    obtain ⟨begun, told⟩ := good.told running termed
    exact ⟨fun e => begun (started e), fun ok => (keeps ok).2 (told (keeps ok).1)⟩

/-- A child goes on with its signals; it has `m_stop` set behind a `SIGTERM`. -/
lemma Member.Good.advance {child : Member} (good : child.Good) {mStop : Bool}
    (stop : child.mStop = true → mStop = true)
    (term : child.loop.place.hand.head? = some .term → mStop = true)
    (behind : child.loop.place ≠ .waiting ∧ child.loop.place ≠ .starting) :
    Member.Good { child with loop := child.loop.advance 1024 mStop, mStop } := by
  refine good.move ?_ (fun e => Place.next_starting e) fun ok =>
    ⟨(Bool.or_eq_false_iff.mp ok).1, ?_⟩
  · rintro (place | place)
    · exact absurd (Place.next_starting place) behind.2
    · exact (Place.next_waiting place).resolve_left behind.1
  · rintro (stopped | owes)
    · exact .inl (stop stopped)
    · by_cases here : child.loop.place.hand.head? = some .term
      · exact .inl (term here)
      · exact .inr (owes.advance here ok)

/-- A child takes a step in its loop. -/
lemma Inv.childNext (inv : Inv pid s) {i : Fin n} (running : (s.children i).status = .running)
    (e : s.childNext i = some s') : Inv pid s' := by
  have good := inv.good i
  rw [Family.childNext] at e
  split at e
  · cases e
  · cases e
  · cases e
    exact inv.exit running
  · rename_i sig hand es place
    cases e
    refine inv.setChild rfl (good.advance ?_ ?_ ?_) id
    · intro stop
      rw [stop, Bool.true_or]
    · rw [place]
      intro e
      cases e
      exact Bool.or_true _
    · rw [place]
      exact ⟨nofun, nofun⟩
  · rename_i not_starting not_waiting _ not_signals
    cases e
    refine inv.setChild rfl (good.advance id ?_ ⟨not_waiting, not_starting⟩) id
    intro e
    cases place : (s.children i).loop.place with
    | signals hand es =>
      cases hand with
      | nil =>
        rw [place] at e
        cases e
      | cons sig hand => exact absurd place (not_signals sig hand es)
    | _ =>
      rw [place] at e
      cases e

/-- A child that is not marked is one that was not waited for. -/
lemma Inv.pid_of_live (inv : Inv pid s) {i : Fin n} (live : s.parent.mPid.get i ≠ -1) :
    s.parent.mPid.get i = pid i ∧ (s.children i).status ≠ .reaped := by
  have marked := inv.mPid i
  split at marked
  · exact absurd marked live
  · rename_i status
    exact ⟨marked, status⟩

/-- A child that is marked was waited for. -/
lemma Inv.reaped_of_marked (inv : Inv pid s) (valid : ∀ i, 0 < pid i) {i : Fin n}
    (dead : s.parent.mPid.get i = -1) : (s.children i).status = .reaped := by
  by_contra status
  have marked := inv.mPid i
  have positive := valid i
  rw [if_neg status, dead] at marked
  omega

/-- The mark of a child that is gone. -/
lemma not_live_iff {mPid : Vector Int n} {i : Fin n} : ¬ Live mPid i ↔ mPid.get i = -1 := by
  have found : mPid[i.val]? = some (mPid.get i) := Vector.getElem?_eq_getElem i.isLt
  constructor
  · exact fun dead => Option.some.inj (found.symm.trans (exited i.isLt dead))
  · rintro marked ⟨pid, found', live⟩
    exact live (Option.some.inj (found'.symm.trans found) ▸ marked)

/-- One round of the loop of `kill`: its call reaches a child that has not been waited for. -/
lemma Inv.killNext (inv : Inv pid s) (inj : Function.Injective pid) (valid : ∀ i, 0 < pid i)
    {i : Fin n} (here : s.cursor = i) {calls : List (Call n)} (e : s.killNext pid i = (calls, s')) :
    Inv pid s' ∧ ∀ call ∈ calls, Safe pid s call := by
  rw [Family.killNext] at e
  split at e
  · rename_i live
    obtain ⟨marked, status⟩ := inv.pid_of_live live
    cases e
    rw [marked]
    refine ⟨(inv.kill inj i).withCursor fun j le => kill_termed inj s i ?_, ?_⟩
    · obtain before | same := Nat.lt_succ_iff_lt_or_eq.mp le
      · exact .inl (inv.cursor j (here ▸ before))
      · exact .inr (Fin.ext same)
    · intro call mem
      obtain rfl := List.mem_singleton.mp mem
      exact ⟨i, rfl, status⟩
  · rename_i dead
    cases e
    refine ⟨inv.withCursor fun j le => ?_, nofun⟩
    obtain before | same := Nat.lt_succ_iff_lt_or_eq.mp le
    · exact inv.cursor j (here ▸ before)
    · have reaped := inv.reaped_of_marked valid (not_not.mp dead)
      rw [Fin.ext same]
      exact .inl (by rw [reaped]; exact nofun)

/-- The parent goes on: it keeps its books, and its calls are safe. -/
lemma Inv.next (inv : Inv pid s) (inj : Function.Injective pid) (valid : ∀ i, 0 < pid i)
    {calls : List (Call n)} (e : s.next pid = some (calls, s')) :
    Inv pid s' ∧ ∀ call ∈ calls, Safe pid s call := by
  rw [Family.next] at e
  split at e
  · rename_i place
    obtain ⟨⟨choice, parent⟩, listened, e⟩ := Option.bind_eq_some_iff.mp e
    obtain ⟨choice', parent', listened', selects⟩ := onListen_spec inv.counter
    cases Option.some.inj (listened.symm.trans listened')
    have other : s.loop.place.hand.head? ≠ some .chld := by
      rw [place]
      exact nofun
    cases selects with
    | @child k lt first =>
      cases e
      have moved := inv.advance other
      refine ⟨⟨moved.mPid, moved.closed, Nat.mod_lt _ (by omega), moved.zombie, moved.stop,
        moved.last, moved.going, moved.left, moved.cursor, moved.ordered, moved.good⟩,
        fun call mem => ?_⟩
      obtain rfl := List.mem_singleton.mp mem
      let j : Fin n := ⟨_, first.found.lt⟩
      obtain ⟨_, status⟩ := inv.pid_of_live (i := j) fun dead => not_live_iff.mpr dead first.found
      exact ⟨j, rfl, (inv.closed j).trans (if_neg status)⟩
    | stop none_live =>
      cases e
      have all : ∀ i, (s.children i).status = .reaped := fun i =>
        inv.reaped_of_marked valid (not_live_iff.mp (none_live i))
      exact ⟨⟨inv.mPid, inv.closed, inv.counter,
        fun _ i zombie => (nomatch (all i).symm.trans zombie), fun _ => all,
        fun _ => .inl rfl, nofun, fun _ => rfl, inv.cursor, inv.ordered, inv.good⟩, nofun⟩
  · cases e
  · rename_i sig hand es not_chld place
    split at e
    · exact inv.killNext inj valid rfl (Option.some.inj e)
    · rename_i last
      cases e
      have other : s.loop.place.hand.head? ≠ some .chld := by
        rw [place]
        exact fun same => not_chld (Option.some.inj same)
      have moved := inv.advance other
      have all : ∀ i, (s.children i).Termed := fun i => inv.cursor i (by omega)
      exact ⟨⟨moved.mPid, moved.closed, moved.counter, moved.zombie, moved.stop, moved.last,
        moved.going, moved.left, fun i _ => all i, fun _ => all, moved.good⟩, nofun⟩
  · rename_i es _ place
    cases e
    exact ⟨inv.advance (by rw [place]; exact nofun), nofun⟩
  · rename_i es place
    cases e
    exact ⟨inv.advance (by rw [place]; exact nofun), nofun⟩
  · cases e

/-- The marks after `waitpid` returned a pid. -/
lemma reap_get (mPid : Vector Int n) (p : Int) (i : Fin n) :
    (reap mPid p).get i = if mPid.get i = p then -1 else mPid.get i :=
  Vector.getElem_map _ i.isLt

/-- The process that was waited for is that of one child. -/
lemma Inv.joined_iff (inv : Inv pid s) (inj : Function.Injective pid) (valid : ∀ i, 0 < pid i)
    {i j : Fin n} (zombie : (s.children i).status = .zombie) :
    s.parent.mPid.get j = pid i ↔ j = i := by
  have positive := valid i
  rw [inv.mPid j]
  split
  · rename_i status
    constructor
    · omega
    · rintro rfl
      cases status.symm.trans zombie
  · exact inj.eq_iff

/-- A zombie is waited for and marked. -/
lemma Inv.waitpid_child (inv : Inv pid s) (inj : Function.Injective pid) (valid : ∀ i, 0 < pid i)
    {i : Fin n} (zombie : (s.children i).status = .zombie)
    (here : s.loop.place.hand.head? = some .chld) :
    Inv pid { s.setChild i { s.children i with status := .reaped } with
      parent := { s.parent with mPid := reap s.parent.mPid (pid i) },
      closed := fun j => if s.parent.mPid.get j = pid i then s.closed j + 1 else s.closed j } := by
  let child : Member := { s.children i with status := .reaped }
  have joined := fun j => inv.joined_iff (j := j) inj valid zombie
  have here_child : Function.update s.children i child i = child := Function.update_self ..
  have others : ∀ j, j ≠ i → Function.update s.children i child j = s.children j := fun _ ne =>
    Function.update_of_ne ne ..
  have termed : (s.children i).Termed → child.Termed := fun _ => .inl fun running => nomatch running
  refine ⟨fun j => ?_, fun j => ?_, inv.counter, fun ok j e => ?_, fun stop => ?_,
    fun _ => .inr here, inv.going, inv.left, fun j lt => setChild_termed termed (inv.cursor j lt),
    fun ordered j => setChild_termed termed (inv.ordered ordered j),
    (Function.forall_update_iff s.children fun _ c => c.Good).mpr
      ⟨⟨(inv.good i).going, nofun⟩, fun j _ => inv.good j⟩⟩
  · show (reap s.parent.mPid (pid i)).get j = if (Function.update s.children i child j).status =
      .reaped then -1 else pid j
    rw [reap_get]
    by_cases same : j = i
    · rw [if_pos ((joined j).mpr same), same, here_child, if_pos rfl]
    · rw [if_neg fun e => same ((joined j).mp e), others j same, inv.mPid j]
  · show (if s.parent.mPid.get j = pid i then s.closed j + 1 else s.closed j) =
      if (Function.update s.children i child j).status = .reaped then 1 else 0
    by_cases same : j = i
    · rw [if_pos ((joined j).mpr same), same, here_child, if_pos rfl, inv.closed i, zombie,
        if_neg nofun]
    · rw [if_neg fun e => same ((joined j).mp e), others j same, inv.closed j]
  · exact inv.zombie ok i zombie
  · have reaped := inv.stop stop i
    cases reaped.symm.trans zombie

/-- The parent stops when it has waited for every child. -/
lemma Inv.mStop_iff (inv : Inv pid s) (valid : ∀ i, 0 < pid i) :
    (onSigchld s.parent []).mStop = true ↔ ∀ i, (s.children i).status = .reaped := by
  show s.parent.mPid.all (· = -1) = true ↔ _
  rw [Vector.all_eq_true]
  constructor
  · exact fun all i => inv.reaped_of_marked valid (of_decide_eq_true (all i i.isLt))
  · exact fun all i lt => decide_eq_true ((inv.mPid ⟨i, lt⟩).trans (if_pos (all _)))

/-- Behind the last `waitpid`, the parent stops if no child is left. -/
lemma Inv.waitpid_end (inv : Inv pid s) (valid : ∀ i, 0 < pid i)
    (no_zombie : ∀ i, (s.children i).status ≠ .zombie)
    (here : s.loop.place.hand.head? = some .chld) :
    Inv pid { s with parent := onSigchld s.parent [],
                     loop := s.loop.advance 1024 (onSigchld s.parent []).mStop } := by
  have iff := inv.mStop_iff valid
  refine ⟨inv.mPid, inv.closed, inv.counter, fun _ i e => absurd e (no_zombie i), iff.mp,
    fun all => .inl (iff.mpr all), ?_, ?_, inv.cursor, inv.ordered, inv.good⟩
  · rintro (place | place)
    · rw [Place.next_starting place] at here
      cases here
    · obtain place | stop := Place.next_waiting place
      · rw [place] at here
        cases here
      · exact stop
  · intro place
    obtain place | stop := Place.next_stopped place
    · rw [place] at here
      cases here
    · exact stop

/-- One round of the loop of `waitpid` keeps the invariant. -/
lemma Inv.waitpid (inv : Inv pid s) (inj : Function.Injective pid) (valid : ∀ i, 0 < pid i)
    {child : Option (Fin n)} {calls : List (Call n)} (e : s.waitpid pid child = some (calls, s')) :
    Inv pid s' ∧ ∀ call ∈ calls, Safe pid s call := by
  obtain ⟨here, e⟩ := Option.ite_none_right_eq_some.mp e
  cases child with
  | some i =>
    obtain ⟨zombie, e⟩ := Option.ite_none_right_eq_some.mp e
    have safe :
      ∀ call ∈ ((List.finRange n).filter fun j => s.parent.mPid.get j = pid i).map Call.close,
        Safe pid s call := by
      intro call mem
      obtain ⟨j, found, rfl⟩ := List.mem_map.mp mem
      have joined := (List.mem_filter.mp found).2
      have same := (inv.joined_iff inj valid zombie).mp (of_decide_eq_true joined)
      refine (inv.closed j).trans (if_neg ?_)
      rw [same, zombie]
      exact nofun
    have after := inv.waitpid_child inj valid zombie here
    cases e
    exact ⟨after, safe⟩
  | none =>
    obtain ⟨no_zombie, e⟩ := Option.ite_none_right_eq_some.mp e
    cases e
    exact ⟨inv.waitpid_end valid no_zombie here, nofun⟩

/-- Every step keeps the invariant, and its calls are safe. -/
lemma Inv.step (inv : Inv pid s) (inj : Function.Injective pid) (valid : ∀ i, 0 < pid i)
    {a : FamilyAction n × List (Call n)} (st : Answers (familyStep pid cap) s a s') :
    Inv pid s' ∧ ∀ call ∈ a.2, Safe pid s call := by
  obtain ⟨action, calls⟩ := a
  have st : familyStep pid cap s action = some (calls, s') := st
  cases action with
  | arrive =>
    cases st
    exact ⟨⟨inv.mPid, inv.closed, inv.counter, inv.zombie, inv.stop, inv.last, inv.going, inv.left,
      inv.cursor, inv.ordered, inv.good⟩, nofun⟩
  | signal sig =>
    obtain ⟨_, st⟩ := Option.ite_none_left_eq_some.mp st
    cases st
    exact ⟨inv.stay rfl fun ok => ⟨ok, .raise⟩, nofun⟩
  | signalChild i sig =>
    cases st
    exact ⟨inv.raiseChild i sig, nofun⟩
  | crash i =>
    obtain ⟨running, st⟩ := Option.ite_none_right_eq_some.mp st
    cases st
    exact ⟨inv.exit running, nofun⟩
  | setup =>
    obtain ⟨loop, up, st⟩ := Option.map_eq_some_iff.mp st
    cases st
    obtain ⟨starting, place, missed, owes⟩ := SignalLoop.setup_eq_some up
    refine ⟨inv.move (fun ok => ⟨missed ▸ ok, owes _⟩) ?_ (fun _ => inv.going (.inl starting)) ?_,
      nofun⟩
    · rw [starting]
      exact nofun
    · rw [place]
      exact nofun
  | deliver sig =>
    obtain ⟨loop, delivered, st⟩ := Option.map_eq_some_iff.mp st
    cases st
    refine ⟨inv.stay (SignalLoop.deliver_place delivered) fun ok => ?_, nofun⟩
    exact ⟨SignalLoop.missed_of_deliver delivered ok, fun owes => owes.deliver delivered ok⟩
  | wait es =>
    obtain ⟨_, st⟩ := Option.ite_none_right_eq_some.mp st
    obtain ⟨loop, waited, st⟩ := Option.map_eq_some_iff.mp st
    cases st
    exact ⟨inv.wait waited false, nofun⟩
  | next => exact inv.next inj valid st
  | waitpid child => exact inv.waitpid inj valid st
  | childSetup i =>
    obtain ⟨running, st⟩ := Option.ite_none_right_eq_some.mp st
    obtain ⟨loop, up, st⟩ := Option.map_eq_some_iff.mp st
    cases st
    obtain ⟨starting, place, missed, owes⟩ := SignalLoop.setup_eq_some up
    refine ⟨inv.setChild rfl
      ((inv.good i).move (fun _ => (inv.good i).going (.inl starting)) (fun _ => starting)
      fun ok => ⟨missed ▸ ok, Or.imp_right (owes _)⟩) id, nofun⟩
  | childDeliver i sig =>
    obtain ⟨running, st⟩ := Option.ite_none_right_eq_some.mp st
    obtain ⟨loop, delivered, st⟩ := Option.map_eq_some_iff.mp st
    cases st
    have place := SignalLoop.deliver_place delivered
    refine ⟨inv.setChild rfl
      ((inv.good i).move (place ▸ (inv.good i).going) (place ▸ id) fun ok => ?_) id, nofun⟩
    exact ⟨SignalLoop.missed_of_deliver delivered ok,
      Or.imp_right fun owes => owes.deliver delivered ok⟩
  | childWait i es =>
    obtain ⟨running, st⟩ := Option.ite_none_right_eq_some.mp st
    obtain ⟨loop, waited, st⟩ := Option.map_eq_some_iff.mp st
    cases st
    obtain ⟨waiting, place, missed, owes⟩ := SignalLoop.wait_eq_some waited
    refine ⟨inv.setChild rfl
      ((inv.good i).move ?_ ?_ fun ok => ⟨missed ▸ ok, Or.imp_right (owes _)⟩) id, nofun⟩
    · rw [place]
      exact nofun
    · rw [place]
      exact nofun
  | childNext i =>
    obtain ⟨running, st⟩ := Option.ite_none_right_eq_some.mp st
    obtain ⟨s₁, went, st⟩ := Option.map_eq_some_iff.mp st
    cases st
    exact ⟨inv.childNext running went, nofun⟩

end Invariant

end SweetClib.Process
