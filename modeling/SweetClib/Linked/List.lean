import SweetClib.Lib.Heap

/-!
# Linked lists, queues and stacks

Model of `lib/_structs/list.c` with `queue.c` and `stack.c` on top of it (`lib/threadpool/list.c`
and `lib/app/bns/list.c` are the same text). The elements live in a heap that is passed along
explicitly, so that several lists can share it; the list header is a record. An operation is
partial: `none` is a dereference of the null pointer or of an element that is not allocated. Its
results are the C return value, the heap, the header and, for a removal, the value of `*data`
afterwards.

C → Lean naming: `list_init` → `listInit`; `list_destroy` → `listDestroy`; `list_ins_next` →
`listInsNext`; `list_rem_next` → `listRemNext`; `queue_enqueue`/`queue_dequeue` →
`queueEnqueue`/`queueDequeue`; `queue_peek` → `queuePeek`; `stack_push`/`stack_pop` →
`stackPush`/`stackPop`. The result of the `malloc` in an insertion is the argument `offer` of
`Heap.malloc`. The loop of `list_destroy` runs for at most as many rounds as the header counts
elements, and faults when it has not ended then.

Counters of type `int` are unbounded integers, here and for the trees, the hash tables and the
pools: an increment past `INT_MAX` is undefined in C, and the model speaks for runs in which no
counter gets there, with fewer than `INT_MAX` elements in every list.
-/

namespace SweetClib.Linked
open SweetClib.Lib

variable {D : Type*}

/-- A list element (C `ListElmt`). -/
structure ListElmt (D : Type*) where
  data : D
  next : Option Addr
  deriving Repr, DecidableEq

/-- A list header (C `List`); `destroy` says whether a callback is set. -/
structure List_ where
  size : Int
  destroy : Bool
  head : Option Addr
  tail : Option Addr
  deriving Repr, DecidableEq

/-- An empty list (C `list_init`). -/
def listInit (destroy : Bool) : List_ :=
  { size := 0, destroy := destroy, head := none, tail := none }

/-- Insert after `element`, or at the front when it is null (C `list_ins_next`). -/
def listInsNext (heap : Heap (ListElmt D)) (list : List_) (element : Option Addr) (data : D)
    (offer : Option Addr) : Option (Int × Heap (ListElmt D) × List_) :=
  match heap.malloc offer with
  | none => some (-1, heap, list)
  | some new =>
    match element with
    | none =>
      let tail := if list.size = 0 then some new else list.tail
      some (0, heap.set new ⟨data, list.head⟩,
        { list with size := list.size + 1, head := some new, tail := tail })
    | some e =>
      match heap e with
      | none => none
      | some elmt =>
        let tail := if elmt.next = none then some new else list.tail
        some (0, (heap.set new ⟨data, elmt.next⟩).set e { elmt with next := some new },
          { list with size := list.size + 1, tail := tail })

/-- Remove the element after `element`, or the front when it is null (C `list_rem_next`). -/
def listRemNext (heap : Heap (ListElmt D)) (list : List_) (element : Option Addr) (data : D) :
    Option (Int × Heap (ListElmt D) × List_ × D) :=
  if list.size = 0 then some (-1, heap, list, data)
  else
    match element with
    | none =>
      match list.head with
      | none => none
      | some a =>
        match heap a with
        | none => none
        | some old =>
          let tail := if list.size = 1 then none else list.tail
          some (0, heap.free a,
            { list with size := list.size - 1, head := old.next, tail := tail }, old.data)
    | some e =>
      match heap e with
      | none => none
      | some elmt =>
        match elmt.next with
        | none => some (-1, heap, list, data)
        | some a =>
          match heap a with
          | none => none
          | some old =>
            let tail := if old.next = none then some e else list.tail
            some (0, (heap.set e { elmt with next := old.next }).free a,
              { list with size := list.size - 1, tail := tail }, old.data)

/-- The loop of `list_destroy`; the results are the heap, the header and the data passed to
`destroy`. -/
def listDestroyLoop :
    Nat → Heap (ListElmt D) → List_ → D → Option (Heap (ListElmt D) × List_ × List D)
  | n, heap, list, data =>
    if list.size > 0 then
      match n with
      | 0 => none
      | n + 1 =>
        match listRemNext heap list none data with
        | none => none
        | some (retval, heap, list, data) =>
          (listDestroyLoop n heap list data).map fun r =>
            (r.1, r.2.1, if retval = 0 ∧ list.destroy then data :: r.2.2 else r.2.2)
    else some (heap, list, [])

/-- Remove and destroy all data (C `list_destroy`); `data` is what the local variable holds before
it is set. The header is given as the loop leaves it, before `memset` clears it. -/
def listDestroy (heap : Heap (ListElmt D)) (list : List_) (data : D) :
    Option (Heap (ListElmt D) × List_ × List D) :=
  listDestroyLoop list.size.toNat heap list data

/-- Append at the tail (C `queue_enqueue`). -/
def queueEnqueue (heap : Heap (ListElmt D)) (queue : List_) (data : D) (offer : Option Addr) :
    Option (Int × Heap (ListElmt D) × List_) :=
  listInsNext heap queue queue.tail data offer

/-- Remove the front (C `queue_dequeue`). -/
def queueDequeue (heap : Heap (ListElmt D)) (queue : List_) (data : D) :
    Option (Int × Heap (ListElmt D) × List_ × D) :=
  listRemNext heap queue none data

/-- The data of the front (C `queue_peek`): `some none` is the null pointer of an empty queue. -/
def queuePeek (heap : Heap (ListElmt D)) (queue : List_) : Option (Option D) :=
  match queue.head with
  | none => some none
  | some a =>
    match heap a with
    | none => none
    | some elmt => some (some elmt.data)

/-- Insert at the front (C `stack_push`). -/
def stackPush (heap : Heap (ListElmt D)) (stack : List_) (data : D) (offer : Option Addr) :
    Option (Int × Heap (ListElmt D) × List_) :=
  listInsNext heap stack none data offer

/-- Remove the front (C `stack_pop`). -/
def stackPop (heap : Heap (ListElmt D)) (stack : List_) (data : D) :
    Option (Int × Heap (ListElmt D) × List_ × D) :=
  listRemNext heap stack none data

end SweetClib.Linked
