import SweetClib.Lib.EdgeQueue
import SweetClib.Lib.Run

/-!
# The process pool

Model of `processpool/processpool.h`: the parent and its children share a listening socket. The
parent waits for the listen event, and for each one sends an `int` over a pipe to a child, which it
picks in turn; a child waits for the event of its pipe, and for each one receives an `int` and
accepts a connection. Both sockets are watched with `EPOLLET` (C `addfd`), so that `Lib.EdgeQueue`
is the model of what `epoll_wait` reports about them; they do not block, so that `recv` and
`accept` return at once when there is nothing to take.

A step of the pool is the arrival of a connection or one call of a process: `epoll_wait`, with the
event it returns, the search for a child and the `send` to it, `recv`, `accept`. The steps of all
processes interleave in any order. The step also says whether an arrival or a notification came
while the event of the one before had not been reported.
-/

namespace SweetClib.Process
open Lib

/-- Where the parent is: at `epoll_wait`, at a listen event it has not passed on, or behind its
loop, with `m_stop` set. -/
inductive Parent where
  | waiting
  | notified
  | stopped
  deriving DecidableEq

/-- Where a child is: at `epoll_wait`, at the `recv` or at the `accept` of an event of its pipe. -/
inductive ChildPc where
  | waiting
  | receiving
  | accepting
  deriving DecidableEq

/-- A child: its end of the pipe, where it is, and the connections it has accepted. -/
structure Child (C : Type*) where
  pipe : EdgeQueue Int
  pc : ChildPc
  accepted : List C

/-- The pool: the listening socket with the connections that wait to be accepted, where the parent
is, its `m_pid` of each child and its `sub_process_counter`, and the children. -/
structure Pool (C : Type*) (n : Nat) where
  listen : EdgeQueue C
  parent : Parent
  mPid : Vector Int n
  subProcessCounter : Nat
  children : Fin n → Child C

/-- The calls of the processes, and the arrival of a connection. -/
inductive Action (C : Type*) (n : Nat) where
  | arrive (c : C)
  | parentWait
  | parentSend
  | childWait (i : Fin n)
  | childRecv (i : Fin n)
  | childAccept (i : Fin n)

variable {C : Type} {n : Nat}

/-- The loop that looks for a child that has not exited, from `sub_process_counter` on; it ends at
a child that has exited, if it comes back to its start. -/
def searchLoop (mPid : Vector Int n) (subProcessCounter : Nat) : Nat → Nat → Option Nat
  | 0, _ => none
  | rounds + 1, i =>
    match mPid[i]? with
    | none => none
    | some pid =>
      if pid ≠ -1 then some i
      else
        let i := (i + 1) % n
        if i ≠ subProcessCounter then searchLoop mPid subProcessCounter rounds i else some i

/-- The `send` of the parent to a child, of the `int` 1 (C `new_conn`). -/
def Child.notify (child : Child C) : Child C := { child with pipe := child.pipe.push 1 }

/-- The handler of a listen event (in C `run_parent`): pick a child and notify it. -/
def passOn (s : Pool C n) : Option (Bool × Pool C n) := do
  let i ← searchLoop s.mPid s.subProcessCounter n s.subProcessCounter
  if h : i < n then
    if s.mPid.get ⟨i, h⟩ = -1 then some (false, { s with parent := .stopped })
    else
      some ((s.children ⟨i, h⟩).pipe.event,
        { s with parent := .waiting, subProcessCounter := (i + 1) % n,
                 children := Function.update s.children ⟨i, h⟩ (s.children ⟨i, h⟩).notify })
  else none

/-- The `recv` of a child; it goes on to `accept` as well when there was nothing to receive
(`EAGAIN`). -/
def Child.recv (child : Child C) : Child C :=
  { child with pipe := child.pipe.pop.2, pc := .accepting }

/-- The `accept` of a child; it goes on to its next event as well when there was no connection. -/
def Child.accept (child : Child C) (conn : Option C) : Child C :=
  { child with pc := .waiting, accepted := child.accepted ++ conn.toList }

/-- A step, and whether its arrival or notification was merged with one before; `none` is a step
that the process cannot take, or a fault. -/
def poolStep (s : Pool C n) : Action C n → Option (Bool × Pool C n)
  | .arrive c => some (s.listen.event, { s with listen := s.listen.push c })
  | .parentWait =>
    if s.parent = .waiting then
      s.listen.wait.map fun listen => (false, { s with listen, parent := .notified })
    else none
  | .parentSend => if s.parent = .notified then passOn s else none
  | .childWait i =>
    if (s.children i).pc = .waiting then
      (s.children i).pipe.wait.map fun pipe =>
        (false, { s with
          children := Function.update s.children i { s.children i with pipe, pc := .receiving } })
    else none
  | .childRecv i =>
    if (s.children i).pc = .receiving then
      some (false, { s with children := Function.update s.children i (s.children i).recv })
    else none
  | .childAccept i =>
    if (s.children i).pc = .accepting then
      let (conn, listen) := s.listen.pop
      some (false,
        { s with listen, children := Function.update s.children i ((s.children i).accept conn) })
    else none

/-- The pool before the first connection, with the given processes. -/
def init (mPid : Vector Int n) : Pool C n where
  listen := .empty
  parent := .waiting
  mPid := mPid
  subProcessCounter := 0
  children _ := ⟨.empty, .waiting, []⟩

/-- The steps of the pool, each with whether an arrival or a notification was merged. -/
abbrev PoolStep : Pool C n → Action C n × Bool → Pool C n → Prop := Answers poolStep

/-- No event is pending, and none is being handled. -/
def Pool.Quiet (s : Pool C n) : Prop :=
  s.listen.event = false ∧ s.parent = .waiting ∧ ∀ i, (s.children i).pipe.event = false ∧
    (s.children i).pc = .waiting

instance (s : Pool C n) : Decidable s.Quiet := inferInstanceAs (Decidable (_ ∧ _ ∧ _))

/-- The connection that arrives in a step. -/
def Action.arrival : Action C n → Multiset C
  | .arrive c => {c}
  | _ => 0

/-- The connections that arrived in a history. -/
def arrivals (tr : List (Action C n × Bool)) : Multiset C := (tr.map fun a => a.1.arrival).sum

/-- The connections the children have accepted. -/
def Pool.accepted (s : Pool C n) : Multiset C := ∑ i, ((s.children i).accepted : Multiset C)

end SweetClib.Process
