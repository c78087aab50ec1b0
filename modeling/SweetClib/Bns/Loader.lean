import SweetClib.Bns.Row
import SweetClib.Hash.Refine

/-!
# The tables of the exporters

Model of `lib/app/bns/bns_hash.c`: `create_icon_hash` and `create_setitem_hash` read a file line by
line and put one record for each line into a hash table, with the first column as its key and
another column as its value. The two differ in the sizes of their buffers and in that column
(`Loader`). The hash function and the match are those the file passes to `chtbl_init_kv`; `char`
may be signed or not.

A round of the loop `while (!feof(fpi))` is `loadRound`, and `loadLoop` are so many rounds, or
those up to the `return` in one of them. The buffer `tmp` is a local array that is never
initialised as a whole: what it holds at first is arbitrary. A record whose key or value was not
set holds pointers to nothing; the model gives it no result. The allocations of the line and of the
strings are not checked by the source and taken to succeed; those of the record and of the list
element are decided by `Allocs`.

C → Lean naming: `hashpjw` and `match_sweet_list_kv` → `matchSweetListKv` as they are;
`create_icon_hash` → `createIconHash`; `create_setitem_hash` → `createSetitemHash`.
-/

namespace SweetClib.Bns
open SweetClib.Lib SweetClib.Linked SweetClib.Hash

def PRIME_TBLSIZ : Nat := 1024

/-- The value of a `char` as an `unsigned int`. -/
def charVal (signed : Bool) (c : UInt8) : UInt32 :=
  if signed ∧ c ≥ 128 then c.toUInt32 + 0xffffff00 else c.toUInt32

/-- The loop of `hashpjw`. -/
def hashpjwLoop (signed : Bool) : List UInt8 → UInt32 → UInt32
  | [], val => val
  | c :: ptr, val =>
    let val := (val <<< 4) + charVal signed c
    let tmp := val &&& 0xf0000000
    hashpjwLoop signed ptr (if tmp ≠ 0 then (val ^^^ (tmp >>> 24)) ^^^ tmp else val)

/-- The hash of a key (C `hashpjw`). -/
def hashpjw (signed : Bool) (key : List UInt8) : Int :=
  ((hashpjwLoop signed key 0).toNat % PRIME_TBLSIZ : Nat)

/-- Records with the same key (C `match_sweet_list_kv`). -/
def matchSweetListKv (data1 data2 : SweetListKv) : Bool := data1.key = data2.key

/-- A record whose fields may not be set yet. -/
structure Entry where
  key : Option (List UInt8)
  value : Option (List UInt8)

/-- What is done with a column: the first one is the key, and the given one the value. -/
def storeColumn (column n : Nat) (tmp : Buf) (data : Entry) : Option Entry := do
  let data ← if n = 0 then tmp.str.map fun s => { data with key := some s } else some data
  if n = column then tmp.str.map fun s => { data with value := some s } else some data

/-- The record, when both of its fields are set. -/
def Entry.record (data : Entry) : Option SweetListKv :=
  match data.key, data.value with
  | some key, some value => some { key, value }
  | _, _ => none

/-- What the two functions differ in: the size given to `fgets`, the characters of `tmp` that are
cleared for each column, and the column of the value. -/
structure Loader where
  lineSize : Nat
  clear : Nat
  column : Nat

/-- The variables of the loop. -/
structure LoadSt where
  file : File
  tmp : Buf
  tbl : TblSt (List UInt8) SweetListKv
  lineNum : Nat

/-- The results of the allocations of a round: of the record, and of the list element. -/
structure Allocs where
  data : Bool
  elmt : Option Addr

/-- One round of the loop; the first result is the return value, if it returns. -/
def loadRound (cfg : Loader) (allocs : Allocs) (s : LoadSt) : Option (Option Int × LoadSt) :=
  let line := fgets cfg.lineSize s.file
  let s := { s with file := line.2 }
  if !allocs.data then some (some 1, s)
  else do
    let row ← rowLoop cfg.clear (storeColumn cfg.column)
      (line.1.length + 1) 0 line.1 s.tmp ⟨none, none⟩
    let data ← row.1.record
    let r ← chtblInsertKv id s.tbl.heap s.tbl.htbl data allocs.elmt
    let s := { s with tmp := row.2, tbl := ⟨r.2.1, r.2.2⟩ }
    if r.1 ≠ 0 then return (some 1, s) else return (none, { s with lineNum := s.lineNum + 1 })

/-- At most so many rounds of the loop; the first result is the return value, if it returned. -/
def loadLoop (cfg : Loader) (allocs : Nat → Allocs) : Nat → LoadSt → Option (Option Int × LoadSt)
  | 0, s => some (none, s)
  | rounds + 1, s =>
    if s.file.eof then some (some 0, s)
    else
      match loadRound cfg (allocs s.lineNum) s with
      | none => none
      | some (some ret, s) => some (some ret, s)
      | some (none, s) => loadLoop cfg allocs rounds s

/-- Open the file, make the table and read the file for so many rounds; `table` says whether the
table can be allocated. Without a state the function has returned before the loop. -/
def createHash (cfg : Loader) (signed table : Bool) (fpi : Option (List UInt8)) (tmp : Buf)
    (heap : Heap (ListElmt SweetListKv)) (allocs : Nat → Allocs) (rounds : Nat) :
    Option (Option Int × Option LoadSt) :=
  match fpi with
  | none => some (some 1, none)
  | some bytes =>
    match chtblInit table PRIME_TBLSIZ (hashpjw signed) matchSweetListKv true with
    | none => some (some 2, none)
    | some htbl =>
      (loadLoop cfg allocs rounds {
        file := ⟨bytes, false⟩, tmp, tbl := ⟨heap, htbl⟩, lineNum := 1 }).map
        fun r => (r.1, some r.2)

/-- The icons, whose value is the third column (C `create_icon_hash`). -/
def createIconHash (signed table : Bool) (fpi : Option (List UInt8))
    (tmp : Vector UInt8 (1024 + 1)) :
    Heap (ListElmt SweetListKv) → (Nat → Allocs) → Nat → Option (Option Int × Option LoadSt) :=
  createHash ⟨1024, 1024 + 1, 2⟩ signed table fpi tmp.toList

/-- The set items, whose value is the column `effect` (C `create_setitem_hash`); the clearing stops
short of the end of the buffer. -/
def createSetitemHash (effect : Nat) (signed table : Bool) (fpi : Option (List UInt8))
    (tmp : Vector UInt8 (8192 + 1)) :
    Heap (ListElmt SweetListKv) → (Nat → Allocs) → Nat → Option (Option Int × Option LoadSt) :=
  createHash ⟨8192, 1024 + 1, effect⟩ signed table fpi tmp.toList

/-- Records match when they have the same key. -/
lemma matchSweetListKv_iff {a b : SweetListKv} :
    matchSweetListKv a b = true ↔ a.key = b.key := decide_eq_true_iff

/-- Records do not match when they have different keys. -/
lemma matchSweetListKv_false_iff {a b : SweetListKv} :
    matchSweetListKv a b = false ↔ a.key ≠ b.key :=
  decide_eq_false_iff_not

/-- The hash and the match suit each other. -/
lemma hashOk_hashpjw (signed : Bool) : HashOk (kvKey id) (hashpjw signed) matchSweetListKv where
  nonneg _ := Int.natCast_nonneg _
  refl _ := matchSweetListKv_iff.mpr rfl
  symm _ _ e := matchSweetListKv_iff.mpr (matchSweetListKv_iff.mp e).symm
  trans _ _ _ e e' :=
    matchSweetListKv_iff.mpr ((matchSweetListKv_iff.mp e).trans (matchSweetListKv_iff.mp e'))
  hash_eq _ _ e := congrArg (hashpjw signed) (matchSweetListKv_iff.mp e)

end SweetClib.Bns
