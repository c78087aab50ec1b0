import SweetClib.Linked.List

/-!
# The chained hash table

Model of `lib/_structs/chtbl.c` (`lib/app/bns/chtbl.c` is the same text). The bucket lists share
one heap of list elements; the table is the list of their headers. Every operation exists twice in
the source, on plain data, which is its own key, and on `SweetListKv` records, whose `key` field is
hashed. Both are instances of one definition with the key as a parameter (`chtblInsertBy` and so
on).

C → Lean naming: `chtbl_init`/`chtbl_init_kv` → `chtblInit`; `chtbl_insert`/`chtbl_insert_kv` →
`chtblInsert`/`chtblInsertKv`, and in the same way `chtblRemove`, `chtblLookup` and `chtblFindKv`;
`chtbl_destroy` → `chtblDestroy`. The `match` field is called `match_`. A `void *` is a value of
the type `D`; for the kv operations `P` is the type of pointers to records and `kv` reads the
record at a pointer.

As in `Linked/List.lean`, `none` is a fault: a division by zero buckets, an index outside of the
table or a bad dereference. The loop over a chain runs for at most as many rounds as the list
header counts elements, and faults when elements are left after that.
-/

namespace SweetClib.Hash
open SweetClib.Lib SweetClib.Linked

/-- A key and its value (C `SweetListKv`). -/
structure SweetListKv where
  key : List UInt8
  value : List UInt8
  deriving Repr, DecidableEq

/-- A hash table (C `CHTbl`). -/
structure CHTbl (K D : Type*) where
  buckets : Int
  h : K → Int
  match_ : D → D → Bool
  destroy : Bool
  size : Int
  table : List List_

variable {K D P : Type*}

/-- A table of empty buckets (C `chtbl_init`, `chtbl_init_kv`); `alloc` says whether the allocation
of the table succeeds, and without it the return value is `-1`. -/
def chtblInit (alloc : Bool) (buckets : Int) (h : K → Int) (match_ : D → D → Bool)
    (destroy : Bool) : Option (CHTbl K D) :=
  if alloc then
    some { buckets := buckets, h := h, match_ := match_, destroy := destroy, size := 0,
           table := List.replicate buckets.toNat (listInit destroy) }
  else none

/-- The loop of `chtbl_destroy` over the bucket lists. -/
def chtblDestroyLoop (data : D) :
    Heap (ListElmt D) → List List_ → Option (Heap (ListElmt D) × List List_ × List D)
  | heap, [] => some (heap, [], [])
  | heap, list :: lists =>
    match listDestroy heap list data with
    | none => none
    | some (heap, list, destroyed) =>
      (chtblDestroyLoop data heap lists).map fun r => (r.1, list :: r.2.1, destroyed ++ r.2.2)

/-- Destroy the bucket lists (C `chtbl_destroy`). The results are the heap, the bucket lists as
they are when the table is freed and the data passed to `destroy`. -/
def chtblDestroy (heap : Heap (ListElmt D)) (htbl : CHTbl K D) (data : D) :
    Option (Heap (ListElmt D) × List List_ × List D) :=
  if htbl.table.length < htbl.buckets.toNat then none
  else chtblDestroyLoop data heap (htbl.table.take htbl.buckets.toNat)

/-- The bucket of a key (C `htbl->h(key) % htbl->buckets`). -/
def chtblBucket (htbl : CHTbl K D) (key : K) : Option Int :=
  if htbl.buckets = 0 then none else some ((htbl.h key).tmod htbl.buckets)

/-- The header of a bucket (C `&htbl->table[bucket]`). -/
def chtblList (htbl : CHTbl K D) (bucket : Int) : Option List_ :=
  if bucket < 0 then none else htbl.table[bucket.toNat]?

/-- The loop over a chain: the first element whose data satisfies `p`, with the element before
it. -/
def chtblScan (heap : Heap (ListElmt D)) (p : D → Bool) :
    Nat → Option Addr → Option Addr → Option (Option (Option Addr × D))
  | _, _, none => some none
  | 0, _, some _ => none
  | n + 1, prev, some element =>
    match heap element with
    | none => none
    | some elmt =>
      if p elmt.data then some (some (prev, elmt.data))
      else chtblScan heap p n (some element) elmt.next

/-- The search of all operations: the bucket of the key, its list and what the loop finds. -/
def chtblSearch (key : D → K) (heap : Heap (ListElmt D)) (htbl : CHTbl K D) (data : D) :
    Option (Int × List_ × Option (Option Addr × D)) :=
  match chtblBucket htbl (key data) with
  | none => none
  | some bucket =>
    match chtblList htbl bucket with
    | none => none
    | some list =>
      match chtblScan heap (htbl.match_ data) list.size.toNat none list.head with
      | none => none
      | some found => some (bucket, list, found)

/-- Lookup; the results are the return value and `*data` afterwards. -/
def chtblLookupBy (key : D → K) (heap : Heap (ListElmt D)) (htbl : CHTbl K D) (data : D) :
    Option (Int × D) :=
  match chtblSearch key heap htbl data with
  | none => none
  | some (_, _, some (_, d)) => some (0, d)
  | some (_, _, none) => some (-1, data)

/-- Lookup that returns the element found, or the query itself. -/
def chtblFindBy (key : D → K) (heap : Heap (ListElmt D)) (htbl : CHTbl K D) (data : D) : Option D :=
  match chtblSearch key heap htbl data with
  | none => none
  | some (_, _, some (_, d)) => some d
  | some (_, _, none) => some data

/-- Insertion at the front of the bucket, unless a lookup finds the data. -/
def chtblInsertBy (key : D → K) (heap : Heap (ListElmt D)) (htbl : CHTbl K D) (data : D)
    (offer : Option Addr) : Option (Int × Heap (ListElmt D) × CHTbl K D) :=
  match chtblLookupBy key heap htbl data with
  | none => none
  | some (retval, _) =>
    if retval = 0 then some (1, heap, htbl)
    else
      match chtblBucket htbl (key data) with
      | none => none
      | some bucket =>
        match chtblList htbl bucket with
        | none => none
        | some list =>
          match listInsNext heap list none data offer with
          | none => none
          | some (retval, heap, list) =>
            some (retval, heap,
              { htbl with
                table := htbl.table.set bucket.toNat list
                size := if retval = 0 then htbl.size + 1 else htbl.size })

/-- Removal of the element found; the last result is `*data` afterwards. -/
def chtblRemoveBy (key : D → K) (heap : Heap (ListElmt D)) (htbl : CHTbl K D) (data : D) :
    Option (Int × Heap (ListElmt D) × CHTbl K D × D) :=
  match chtblSearch key heap htbl data with
  | none => none
  | some (_, _, none) => some (-1, heap, htbl, data)
  | some (bucket, list, some (prev, _)) =>
    match listRemNext heap list prev data with
    | none => none
    | some (retval, heap, list, data) =>
      let htbl := { htbl with table := htbl.table.set bucket.toNat list }
      if retval = 0 then some (0, heap, { htbl with size := htbl.size - 1 }, data)
      else some (-1, heap, htbl, data)

/-- C `chtbl_insert`. -/
def chtblInsert (heap : Heap (ListElmt D)) (htbl : CHTbl D D) (data : D) (offer : Option Addr) :
    Option (Int × Heap (ListElmt D) × CHTbl D D) :=
  chtblInsertBy id heap htbl data offer

/-- C `chtbl_remove`. -/
def chtblRemove (heap : Heap (ListElmt D)) (htbl : CHTbl D D) (data : D) :
    Option (Int × Heap (ListElmt D) × CHTbl D D × D) :=
  chtblRemoveBy id heap htbl data

/-- C `chtbl_lookup`. -/
def chtblLookup (heap : Heap (ListElmt D)) (htbl : CHTbl D D) (data : D) : Option (Int × D) :=
  chtblLookupBy id heap htbl data

/-- The key a pointer to a record stands for (C `data->key`). -/
def kvKey (kv : P → SweetListKv) (data : P) : List UInt8 := (kv data).key

/-- C `chtbl_insert_kv`. -/
def chtblInsertKv (kv : P → SweetListKv) (heap : Heap (ListElmt P)) (htbl : CHTbl (List UInt8) P)
    (data : P) (offer : Option Addr) :
    Option (Int × Heap (ListElmt P) × CHTbl (List UInt8) P) :=
  chtblInsertBy (kvKey kv) heap htbl data offer

/-- C `chtbl_remove_kv`. -/
def chtblRemoveKv (kv : P → SweetListKv) (heap : Heap (ListElmt P)) (htbl : CHTbl (List UInt8) P)
    (data : P) : Option (Int × Heap (ListElmt P) × CHTbl (List UInt8) P × P) :=
  chtblRemoveBy (kvKey kv) heap htbl data

/-- C `chtbl_lookup_kv`. -/
def chtblLookupKv (kv : P → SweetListKv) (heap : Heap (ListElmt P)) (htbl : CHTbl (List UInt8) P)
    (data : P) : Option (Int × P) :=
  chtblLookupBy (kvKey kv) heap htbl data

/-- C `chtbl_find_kv`. -/
def chtblFindKv (kv : P → SweetListKv) (heap : Heap (ListElmt P)) (htbl : CHTbl (List UInt8) P)
    (data : P) : Option P :=
  chtblFindBy (kvKey kv) heap htbl data

end SweetClib.Hash
