import SweetClib.Lib.Run
import SweetClib.Linked.Rep

/-!
# Runs of lists, queues and stacks

The operations of `list.c` as one transition system over a heap and a header (`listStep`), with the
element arguments restricted to the null pointer and the elements of the list (`ListOp.Valid`), and
the systems of the queue and the stack operations on the same state. Every state reached represents
a sequence, on which each operation has the outcome `SeqSpec` lists; a queue hands out what was put
in, in order (`dequeued`, `enqueued`), and a stack the other way round (`Lifo`). A call that puts a
value in fails only with the allocation, and one that takes a value out only on the empty list
(`EndSpec`).
-/

namespace SweetClib.Linked
open SweetClib.Lib

variable {D : Type*}

/-- A heap and the header of a list in it. -/
structure ListSt (D : Type*) where
  heap : Heap (ListElmt D)
  list : List_

/-- The calls of `list.c`; a removal carries the value of `*data` before the call. -/
inductive ListOp (D : Type*) where
  | init (destroy : Bool)
  | insNext (element : Option Addr) (data : D) (offer : Option Addr)
  | remNext (element : Option Addr) (data : D)

/-- One call; the answer is the return value and, for a removal, `*data` after the call. -/
def listStep (s : ListSt D) : ListOp D → Option ((Int × Option D) × ListSt D)
  | .init destroy => some ((0, none), ⟨s.heap, listInit destroy⟩)
  | .insNext element data offer =>
    (listInsNext s.heap s.list element data offer).map fun r => ((r.1, none), ⟨r.2.1, r.2.2⟩)
  | .remNext element data =>
    (listRemNext s.heap s.list element data).map fun r =>
      ((r.1, some r.2.2.2), ⟨r.2.1, r.2.2.1⟩)

/-- The pointer is null or one of the elements of the list. -/
def IsElement (s : ListSt D) (element : Option Addr) : Prop :=
  ∀ e, element = some e → Reach ListElmt.next s.heap s.list.head e

/-- The calls a client may make. -/
def ListOp.Valid (s : ListSt D) : ListOp D → Prop
  | .init _ => True
  | .insNext element _ _ => IsElement s element
  | .remNext element _ => IsElement s element

/-- The transition system of `list.c`. -/
def ListTrans (s : ListSt D) (a : ListOp D × (Int × Option D)) (s' : ListSt D) : Prop :=
  a.1.Valid s ∧ Answers listStep s a s'

/-- The state represents `l`, and every call has its outcome on `l`. -/
structure SeqSpec (s : ListSt D) (l : List (Addr × D)) : Prop where
  rep : Rep s.heap s.list l
  acyclic : (l.map Prod.fst).Nodup
  tail_null : s.list.tail = none ↔ l = []
  insFail : ∀ e d offer, s.heap.malloc offer = none →
    listStep s (.insNext e d offer) = some ((-1, none), s)
  insFront : ∀ d offer a, s.heap.malloc offer = some a →
    ∃ s', listStep s (.insNext none d offer) = some ((0, none), s') ∧
      Rep s'.heap s'.list ((a, d) :: l)
  insAfter : ∀ l₁ e de l₂ d offer a, l = l₁ ++ (e, de) :: l₂ → s.heap.malloc offer = some a →
    ∃ s', listStep s (.insNext (some e) d offer) = some ((0, none), s') ∧
      Rep s'.heap s'.list (l₁ ++ (e, de) :: (a, d) :: l₂)
  remEmpty : ∀ e d₀, l = [] → listStep s (.remNext e d₀) = some ((-1, some d₀), s)
  remLast : ∀ l₁ e de d₀, l = l₁ ++ [(e, de)] →
    listStep s (.remNext (some e) d₀) = some ((-1, some d₀), s)
  remFront : ∀ a d l' d₀, l = (a, d) :: l' →
    ∃ s', listStep s (.remNext none d₀) = some ((0, some d), s') ∧ Rep s'.heap s'.list l'
  remAfter : ∀ l₁ e de a d l₂ d₀, l = l₁ ++ (e, de) :: (a, d) :: l₂ →
    ∃ s', listStep s (.remNext (some e) d₀) = some ((0, some d), s') ∧
      Rep s'.heap s'.list (l₁ ++ (e, de) :: l₂)

/-- What is represented determines the outcome of every call. -/
lemma Rep.seqSpec {s : ListSt D} {l} (rep : Rep s.heap s.list l) : SeqSpec s l where
  rep := rep
  acyclic := rep.nodup
  tail_null := rep.tail_eq_none
  insFail e d offer m := by simp [listStep, listInsNext_fail m]
  insFront d offer a m := by
    obtain ⟨heap', list', e, rep', _⟩ := listInsNext_front rep m d
    exact ⟨⟨heap', list'⟩, by simp [listStep, e], rep'⟩
  insAfter l₁ e de l₂ d offer a eq m := by
    subst eq
    obtain ⟨heap', list', e, rep', _⟩ := listInsNext_after rep m d
    exact ⟨⟨heap', list'⟩, by simp [listStep, e], rep'⟩
  remEmpty e d₀ eq := by
    subst eq
    simp [listStep, listRemNext_nil rep]
  remLast l₁ e de d₀ eq := by
    subst eq
    simp [listStep, listRemNext_last rep]
  remFront a d l' d₀ eq := by
    subst eq
    obtain ⟨heap', list', e, rep', _⟩ := listRemNext_front rep d₀
    exact ⟨⟨heap', list'⟩, by simp [listStep, e], rep'⟩
  remAfter l₁ e de a d l₂ d₀ eq := by
    subst eq
    obtain ⟨heap', list', e, rep', _⟩ := listRemNext_after rep d₀
    exact ⟨⟨heap', list'⟩, by simp [listStep, e], rep'⟩

/-- A valid element argument splits the represented sequence. -/
lemma IsElement.split {s : ListSt D} {l e} (rep : Rep s.heap s.list l)
    (el : IsElement s (some e)) : ∃ l₁ de l₂, l = l₁ ++ (e, de) :: l₂ := by
  obtain ⟨⟨e', de⟩, mem, rfl⟩ := List.mem_map.mp (rep.chain.reach_iff.mp (el e rfl))
  obtain ⟨l₁, l₂, eq⟩ := List.append_of_mem mem
  exact ⟨l₁, de, l₂, eq⟩

lemma SeqSpec.insNext_step {s s' : ListSt D} {l e d offer o} (spec : SeqSpec s l)
    (el : IsElement s e) (st : listStep s (.insNext e d offer) = some (o, s')) :
    ∃ l', Rep s'.heap s'.list l' := by
  cases m : s.heap.malloc offer with
  | none =>
    rw [spec.insFail e d offer m] at st
    cases st
    exact ⟨l, spec.rep⟩
  | some a =>
    cases e with
    | none =>
      obtain ⟨s1, e1, rep'⟩ := spec.insFront d offer a m
      rw [e1] at st
      cases st
      exact ⟨_, rep'⟩
    | some e =>
      obtain ⟨l₁, de, l₂, eq⟩ := el.split spec.rep
      obtain ⟨s1, e1, rep'⟩ := spec.insAfter l₁ e de l₂ d offer a eq m
      rw [e1] at st
      cases st
      exact ⟨_, rep'⟩

lemma SeqSpec.remNext_step {s s' : ListSt D} {l e d₀ o} (spec : SeqSpec s l)
    (el : IsElement s e) (st : listStep s (.remNext e d₀) = some (o, s')) :
    ∃ l', Rep s'.heap s'.list l' := by
  cases e with
  | none =>
    cases l with
    | nil =>
      rw [spec.remEmpty none d₀ rfl] at st
      cases st
      exact ⟨_, spec.rep⟩
    | cons x l =>
      obtain ⟨s1, e1, rep'⟩ := spec.remFront x.1 x.2 l d₀ rfl
      rw [e1] at st
      cases st
      exact ⟨_, rep'⟩
  | some e =>
    obtain ⟨l₁, de, l₂, eq⟩ := el.split spec.rep
    cases l₂ with
    | nil =>
      rw [spec.remLast l₁ e de d₀ eq] at st
      cases st
      exact ⟨_, spec.rep⟩
    | cons x l₂ =>
      obtain ⟨s1, e1, rep'⟩ := spec.remAfter l₁ e de x.1 x.2 l₂ d₀ eq
      rw [e1] at st
      cases st
      exact ⟨_, rep'⟩

lemma ListTrans.rep {s s' : ListSt D} {l a} (rep : Rep s.heap s.list l) (st : ListTrans s a s') :
    ∃ l', Rep s'.heap s'.list l' := by
  obtain ⟨op, o⟩ := a
  obtain ⟨el, st⟩ := st
  cases op with
  | init destroy =>
    simp only [Answers, listStep, Option.some.injEq, Prod.mk.injEq] at st
    obtain ⟨_, rfl⟩ := st
    exact ⟨[], Rep.init _ _⟩
  | insNext e d offer => exact rep.seqSpec.insNext_step el st
  | remNext e d₀ => exact rep.seqSpec.remNext_step el st

/-- The outcomes of two operations on the represented sequence `l`: `put` adds a value as `add`
says, or fails with the allocation, and `take` removes the first value, or fails on the empty list.
A call that fails changes nothing. -/
structure EndSpec {Op : Type*} (step : ListSt D → Op → Option ((Int × Option D) × ListSt D))
    (put : D → Option Addr → Op) (take : D → Op)
    (add : Addr × D → List (Addr × D) → List (Addr × D)) (s : ListSt D) (l : List (Addr × D)) :
    Prop where
  putFail : ∀ d offer, s.heap.malloc offer = none → step s (put d offer) = some ((-1, none), s)
  put : ∀ d offer a, s.heap.malloc offer = some a →
    ∃ s', step s (put d offer) = some ((0, none), s') ∧ Rep s'.heap s'.list (add (a, d) l)
  takeEmpty : ∀ d₀, l = [] → step s (take d₀) = some ((-1, some d₀), s)
  take : ∀ a d l' d₀, l = (a, d) :: l' →
    ∃ s', step s (take d₀) = some ((0, some d), s') ∧ Rep s'.heap s'.list l'

/-- The calls of `queue.c`. -/
inductive QueueOp (D : Type*) where
  | enqueue (data : D) (offer : Option Addr)
  | dequeue (data : D)

/-- One call on a queue. -/
def queueStep (s : ListSt D) : QueueOp D → Option ((Int × Option D) × ListSt D)
  | .enqueue data offer =>
    (queueEnqueue s.heap s.list data offer).map fun r => ((r.1, none), ⟨r.2.1, r.2.2⟩)
  | .dequeue data =>
    (queueDequeue s.heap s.list data).map fun r => ((r.1, some r.2.2.2), ⟨r.2.1, r.2.2.1⟩)

/-- The values accepted by the enqueues of a history, in order. -/
def enqueued : List (QueueOp D × (Int × Option D)) → List D
  | [] => []
  | (.enqueue data _, (ret, _)) :: tr => if ret = 0 then enqueued tr ++ [data] else enqueued tr
  | (.dequeue _, _) :: tr => enqueued tr

/-- The values handed out by the dequeues of a history, in order. -/
def dequeued : List (QueueOp D × (Int × Option D)) → List D
  | [] => []
  | (.enqueue _ _, _) :: tr => dequeued tr
  | (.dequeue _, (ret, data)) :: tr => if ret = 0 then dequeued tr ++ data.toList else dequeued tr

/-- An enqueue appends, or fails with the allocation. -/
lemma queueEnqueue_spec {heap : Heap (ListElmt D)} {queue l} (rep : Rep heap queue l) (d : D)
    (offer : Option Addr) :
    (heap.malloc offer = none ∧ queueEnqueue heap queue d offer = some (-1, heap, queue)) ∨
    ∃ a heap' queue', heap.malloc offer = some a ∧
      queueEnqueue heap queue d offer = some (0, heap', queue') ∧
      Rep heap' queue' (l ++ [(a, d)]) := by
  cases m : heap.malloc offer with
  | none => exact .inl ⟨rfl, listInsNext_fail m⟩
  | some a =>
    refine .inr ?_
    -- `tail` is null for an empty queue, which makes the enqueue an insertion at the front
    cases l using List.reverseRecOn with
    | nil =>
      have tl : queue.tail = none := rep.tail
      obtain ⟨heap', queue', e, rep', _⟩ := listInsNext_front rep m d
      exact ⟨a, heap', queue', rfl, by rw [queueEnqueue, tl, e], rep'⟩
    | append_singleton l x =>
      have tl : queue.tail = some x.1 := by simp [rep.tail]
      obtain ⟨heap', queue', e, rep', _⟩ := listInsNext_after rep m d
      exact ⟨a, heap', queue', rfl, by rw [queueEnqueue, tl, e], by simpa using rep'⟩

lemma queuePeek_spec {heap : Heap (ListElmt D)} {queue l} (rep : Rep heap queue l) :
    queuePeek heap queue = some (l.head?.map Prod.snd) := by
  cases l with
  | nil =>
    have hd : queue.head = none := rep.chain
    simp [queuePeek, hd]
  | cons x l =>
    obtain ⟨hd, c, hx, hdata, _⟩ := rep.chain
    simp [queuePeek, hd, hx, hdata]

/-- An enqueue adds at the end, and a dequeue takes the first value. -/
abbrev QueueSpec (s : ListSt D) (l : List (Addr × D)) : Prop :=
  EndSpec queueStep .enqueue .dequeue (fun x l => l ++ [x]) s l

/-- What is represented determines the outcome of every call on a queue. -/
lemma Rep.queueSpec {s : ListSt D} {l} (rep : Rep s.heap s.list l) : QueueSpec s l where
  putFail d offer m := by simp [queueStep, queueEnqueue, listInsNext_fail m]
  put d offer a m := by
    obtain ⟨m', _⟩ | ⟨a', heap', queue', m', e, rep'⟩ := queueEnqueue_spec rep d offer
    · rw [m] at m'
      cases m'
    · rw [m] at m'
      cases m'
      exact ⟨⟨heap', queue'⟩, by simp [queueStep, e], rep'⟩
  takeEmpty d₀ eq := by
    subst eq
    simp [queueStep, queueDequeue, listRemNext_nil rep]
  take a d l' d₀ eq := by
    subst eq
    obtain ⟨heap', queue', e, rep', _⟩ := listRemNext_front rep d₀
    exact ⟨⟨heap', queue'⟩, by simp [queueStep, queueDequeue, e], rep'⟩

/-- What a queue keeps: what came out, followed by what is in it, is what went in. -/
def QueueInv (tr : List (QueueOp D × (Int × Option D))) (s : ListSt D) : Prop :=
  ∃ l, Rep s.heap s.list l ∧ dequeued tr ++ l.map Prod.snd = enqueued tr

/-- A queue call does not fault and keeps the order. -/
lemma queueStep_total {s : ListSt D} {l} (rep : Rep s.heap s.list l) (op : QueueOp D) :
    ∃ o s' l', queueStep s op = some (o, s') ∧ Rep s'.heap s'.list l' ∧
      ∀ tr, dequeued tr ++ l.map Prod.snd = enqueued tr →
        dequeued ((op, o) :: tr) ++ l'.map Prod.snd = enqueued ((op, o) :: tr) := by
  have spec := rep.queueSpec
  cases op with
  | enqueue d offer =>
    cases m : s.heap.malloc offer with
    | none =>
      exact ⟨(-1, none), s, l, spec.putFail d offer m, rep, fun tr eq => by
        simpa [enqueued, dequeued] using eq⟩
    | some a =>
      obtain ⟨s', e, rep'⟩ := spec.put d offer a m
      exact ⟨(0, none), s', l ++ [(a, d)], e, rep', fun tr eq => by simp [enqueued, dequeued, ← eq]⟩
  | dequeue d₀ =>
    cases l with
    | nil =>
      exact ⟨(-1, some d₀), s, [], spec.takeEmpty d₀ rfl, rep, fun tr eq => by
        simpa [enqueued, dequeued] using eq⟩
    | cons x l =>
      obtain ⟨s', e, rep'⟩ := spec.take x.1 x.2 l d₀ rfl
      exact ⟨(0, some x.2), s', l, e, rep', fun tr eq => by simpa [enqueued, dequeued] using eq⟩

/-- Every run of a queue keeps the order. -/
lemma queue_run {s₀ s : ListSt D} {tr} (rep : Rep s₀.heap s₀.list [])
    (run : Run (Answers queueStep) s₀ tr s) : QueueInv tr s := by
  refine run.history QueueInv ⟨[], rep, rfl⟩ ?_
  rintro tr s ⟨op, o⟩ s' ⟨l, rep, eq⟩ st
  obtain ⟨o', s1, l', e, rep', keep⟩ := queueStep_total rep op
  rw [Answers, e] at st
  cases st
  exact ⟨l', rep', keep tr eq⟩

/-- The calls of `stack.c`. -/
inductive StackOp (D : Type*) where
  | push (data : D) (offer : Option Addr)
  | pop (data : D)

/-- One call on a stack. -/
def stackStep (s : ListSt D) : StackOp D → Option ((Int × Option D) × ListSt D)
  | .push data offer =>
    (stackPush s.heap s.list data offer).map fun r => ((r.1, none), ⟨r.2.1, r.2.2⟩)
  | .pop data =>
    (stackPop s.heap s.list data).map fun r => ((r.1, some r.2.2.2), ⟨r.2.1, r.2.2.1⟩)

/-- Last in, first out: the history is one of a stack, which holds the given values at its end, the
latest first. -/
inductive Lifo : List (StackOp D × (Int × Option D)) → List D → Prop where
  | nil :
    Lifo [] []
  | push {tr st d offer} :
    Lifo tr st →
    Lifo ((.push d offer, (0, none)) :: tr) (d :: st)
  | pushFail {tr st d offer} :
    Lifo tr st →
    Lifo ((.push d offer, (-1, none)) :: tr) st
  | pop {tr st d d₀} :
    Lifo tr (d :: st) →
    Lifo ((.pop d₀, (0, some d)) :: tr) st
  | popEmpty {tr d₀} :
    Lifo tr [] →
    Lifo ((.pop d₀, (-1, some d₀)) :: tr) []

/-- A push adds at the front, and a pop takes the first value. -/
abbrev StackSpec (s : ListSt D) (l : List (Addr × D)) : Prop :=
  EndSpec stackStep .push .pop List.cons s l

/-- What is represented determines the outcome of every call on a stack. -/
lemma Rep.stackSpec {s : ListSt D} {l} (rep : Rep s.heap s.list l) : StackSpec s l where
  putFail d offer m := by simp [stackStep, stackPush, listInsNext_fail m]
  put d offer a m := by
    obtain ⟨heap', stack', e, rep', _⟩ := listInsNext_front rep m d
    exact ⟨⟨heap', stack'⟩, by simp [stackStep, stackPush, e], rep'⟩
  takeEmpty d₀ eq := by
    subst eq
    simp [stackStep, stackPop, listRemNext_nil rep]
  take a d l' d₀ eq := by
    subst eq
    obtain ⟨heap', stack', e, rep', _⟩ := listRemNext_front rep d₀
    exact ⟨⟨heap', stack'⟩, by simp [stackStep, stackPop, e], rep'⟩

/-- A stack call does not fault and keeps the order. -/
lemma stackStep_total {s : ListSt D} {l} (rep : Rep s.heap s.list l) (op : StackOp D) :
    ∃ o s' l', stackStep s op = some (o, s') ∧ Rep s'.heap s'.list l' ∧
      ∀ tr, Lifo tr (l.map Prod.snd) → Lifo ((op, o) :: tr) (l'.map Prod.snd) := by
  have spec := rep.stackSpec
  cases op with
  | push d offer =>
    cases m : s.heap.malloc offer with
    | none => exact ⟨(-1, none), s, l, spec.putFail d offer m, rep, fun tr h => .pushFail h⟩
    | some a =>
      obtain ⟨s', e, rep'⟩ := spec.put d offer a m
      exact ⟨(0, none), s', (a, d) :: l, e, rep', fun tr h => .push h⟩
  | pop d₀ =>
    cases l with
    | nil => exact ⟨(-1, some d₀), s, [], spec.takeEmpty d₀ rfl, rep, fun tr h => .popEmpty h⟩
    | cons x l =>
      obtain ⟨s', e, rep'⟩ := spec.take x.1 x.2 l d₀ rfl
      exact ⟨(0, some x.2), s', l, e, rep', fun tr h => .pop h⟩

/-- Every run of a stack is last in, first out. -/
lemma stack_run {s₀ s : ListSt D} {tr} (rep : Rep s₀.heap s₀.list [])
    (run : Run (Answers stackStep) s₀ tr s) :
    ∃ l, Rep s.heap s.list l ∧ Lifo tr (l.map Prod.snd) := by
  refine run.history (fun tr s => ∃ l, Rep s.heap s.list l ∧ Lifo tr (l.map Prod.snd))
    ⟨[], rep, .nil⟩ ?_
  rintro tr s ⟨op, o⟩ s' ⟨l, rep, lifo⟩ st
  obtain ⟨o', s1, l', e, rep', keep⟩ := stackStep_total rep op
  rw [Answers, e] at st
  cases st
  exact ⟨l', rep', keep tr lifo⟩

/-- Lists represent sequences in every run, in whatever heap they are made; queues are first in,
first out and stacks last in, first out, and their calls never fault. In every state reached a call
that puts a value in succeeds exactly if the allocation does, and one that takes a value out
exactly if there is one. -/
theorem list_queue_stack_sequence (heap : Heap (ListElmt D)) (destroy : Bool) :
    (∀ tr s, Run ListTrans ⟨heap, listInit destroy⟩ tr s → ∃ l, SeqSpec s l) ∧
    (∀ ops, ∃ tr s, Run (Answers queueStep) ⟨heap, listInit destroy⟩ tr s ∧ inputs tr = ops) ∧
    (∀ tr s, Run (Answers queueStep) ⟨heap, listInit destroy⟩ tr s →
      ∃ l, SeqSpec s l ∧ QueueSpec s l ∧ dequeued tr ++ l.map Prod.snd = enqueued tr) ∧
    (∀ ops, ∃ tr s, Run (Answers stackStep) ⟨heap, listInit destroy⟩ tr s ∧ inputs tr = ops) ∧
    (∀ tr s, Run (Answers stackStep) ⟨heap, listInit destroy⟩ tr s →
      ∃ l, SeqSpec s l ∧ StackSpec s l ∧ Lifo tr (l.map Prod.snd)) := by
  have init : Rep heap (listInit destroy) ([] : List (Addr × D)) := Rep.init _ _
  refine ⟨fun tr s run => ?_, fun ops => ?_, fun tr s run => ?_, fun ops => ?_, fun tr s run => ?_⟩
  · obtain ⟨l, rep⟩ := run.invariant (fun s => ∃ l, Rep s.heap s.list l) ⟨[], init⟩
      fun s a s' ⟨l, rep⟩ st => st.rep rep
    exact ⟨l, rep.seqSpec⟩
  · refine Run.of_inputs queueStep _ (fun _ => True) (fun s => ∃ l, Rep s.heap s.list l) ⟨[], init⟩
      (fun s op ⟨l, rep⟩ _ => ?_) ops fun _ _ => trivial
    obtain ⟨o, s', l', e, rep', _⟩ := queueStep_total rep op
    exact ⟨o, s', e, l', rep'⟩
  · obtain ⟨l, rep, eq⟩ := queue_run init run
    exact ⟨l, rep.seqSpec, rep.queueSpec, eq⟩
  · refine Run.of_inputs stackStep _ (fun _ => True) (fun s => ∃ l, Rep s.heap s.list l) ⟨[], init⟩
      (fun s op ⟨l, rep⟩ _ => ?_) ops fun _ _ => trivial
    obtain ⟨o, s', l', e, rep', _⟩ := stackStep_total rep op
    exact ⟨o, s', e, l', rep'⟩
  · obtain ⟨l, rep, lifo⟩ := stack_run init run
    exact ⟨l, rep.seqSpec, rep.stackSpec, lifo⟩

end SweetClib.Linked
