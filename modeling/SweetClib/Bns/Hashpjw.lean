import SweetClib.Bns.Loader
import SweetClib.Hash.Index

/-!
# The range of the hash

A round of the loop of `hashpjw` shifts the value by four bits, adds a character and folds the
upper four bits onto the bits 4 to 7 (`foldUpper_lt`). So the value has 28 bits after every round,
whatever was added, and the next shift loses none of them (`hashpjwLoop_lt`, `shift_exact`). The
hash is less than the number of buckets that the loaders of `bns_hash.c` ask for, and the bucket of
a key is its hash (`hashpjw_in_range`).
-/

namespace SweetClib.Bns
open SweetClib.Lib SweetClib.Linked SweetClib.Hash

/-- The upper four bits are folded onto the bits 4 to 7 and cleared. -/
lemma foldUpper_lt (w : UInt32) :
    ((w ^^^ ((w &&& 0xf0000000) >>> 24)) ^^^ (w &&& 0xf0000000)).toNat < 2 ^ 28 := by
  have size := w.toNat_lt
  have upper : w.toNat >>> 28 &&& 15 = w.toNat >>> 28 := by
    rw [Nat.and_two_pow_sub_one_eq_mod _ 4, Nat.mod_eq_of_lt]
    rw [Nat.shiftRight_eq_div_pow]
    omega
  have mask : (w.toNat &&& 0xf0000000) >>> 28 = w.toNat >>> 28 := by
    rw [Nat.shiftRight_and_distrib]
    exact upper
  have folded : ((w.toNat &&& 0xf0000000) >>> 24) >>> 28 = 0 := by
    rw [← Nat.shiftRight_add, Nat.add_comm, Nat.shiftRight_add, mask, Nat.shiftRight_eq_div_pow,
      Nat.shiftRight_eq_div_pow]
    omega
  -- above bit 28 the value is xored with itself
  have cleared : (w.toNat ^^^ (w.toNat &&& 0xf0000000) >>> 24 ^^^ (w.toNat &&& 0xf0000000)) >>> 28 =
      0 := by
    rw [Nat.shiftRight_xor_distrib, Nat.shiftRight_xor_distrib, folded, mask, Nat.xor_zero,
      Nat.xor_self]
  rw [Nat.shiftRight_eq_div_pow] at cleared
  rw [UInt32.toNat_xor, UInt32.toNat_xor, UInt32.toNat_shiftRight, UInt32.toNat_and]
  exact Nat.lt_of_div_eq_zero (by decide) cleared

/-- The value has 28 bits after every round. -/
lemma hashpjwLoop_lt (signed : Bool) (key : List UInt8) {val : UInt32} (lt : val.toNat < 2 ^ 28) :
    (hashpjwLoop signed key val).toNat < 2 ^ 28 := by
  induction key generalizing val with
  | nil => exact lt
  | cons c key ih =>
    rw [hashpjwLoop]
    apply ih
    have folded := foldUpper_lt ((val <<< 4) + charVal signed c)
    split
    · exact folded
    · -- there is nothing to fold
      rename_i zero
      rw [not_not.mp zero] at folded
      simpa using folded

/-- The shift loses nothing while the upper four bits are clear. -/
lemma shift_exact {val : UInt32} (lt : val.toNat < 2 ^ 28) :
    (val <<< 4).toNat = val.toNat * 16 := by
  rw [UInt32.toNat_shiftLeft, Nat.shiftLeft_eq]
  exact Nat.mod_eq_of_lt (by simp; omega)

/-- The loop over a text in two parts. -/
lemma hashpjwLoop_append (signed : Bool) (s t : List UInt8) (val : UInt32) :
    hashpjwLoop signed (s ++ t) val = hashpjwLoop signed t (hashpjwLoop signed s val) := by
  induction s generalizing val with
  | nil => rfl
  | cons c s ih =>
    rw [List.cons_append, hashpjwLoop, hashpjwLoop]
    exact ih _

/-- The bucket of every key is its hash, and its header is in the table. -/
def PjwTable (signed : Bool) (htbl : CHTbl (List UInt8) SweetListKv) : Prop :=
  ∀ key, chtblBucket htbl key = some (hashpjw signed key) ∧ ∃ list,
    chtblList htbl (hashpjw signed key) = some list

section Tables

variable {signed : Bool}

/-- The hash is an index of the buckets. -/
lemma hashpjw_lt (signed : Bool) (key : List UInt8) :
    0 ≤ hashpjw signed key ∧ hashpjw signed key < PRIME_TBLSIZ := by
  have lt : (hashpjwLoop signed key 0).toNat % PRIME_TBLSIZ < PRIME_TBLSIZ :=
    Nat.mod_lt _ (by decide)
  rw [hashpjw]
  omega

/-- So the remainder of the table operations leaves it as it is. -/
lemma pjwTable_of_indexed {htbl : CHTbl (List UInt8) SweetListKv}
    (ix : Indexed PRIME_TBLSIZ (hashpjw signed) htbl) : PjwTable signed htbl := by
  intro key
  obtain ⟨nonneg, lt⟩ := hashpjw_lt signed key
  refine ⟨?_, ix.list nonneg lt⟩
  rw [chtblBucket, ix.count, ix.hash, if_neg (by decide), Int.tmod_eq_of_lt nonneg lt]

/-- The new table is indexed by the hash function. -/
lemma indexed_init {alloc destroy : Bool} {m : SweetListKv → SweetListKv → Bool}
    {htbl : CHTbl (List UInt8) SweetListKv}
    (init : chtblInit alloc PRIME_TBLSIZ (hashpjw signed) m destroy = some htbl) :
    Indexed PRIME_TBLSIZ (hashpjw signed) htbl := by
  obtain ⟨_, e⟩ := Option.ite_none_right_eq_some.mp init
  cases e
  exact ⟨rfl, rfl, List.length_replicate⟩

/-- A round of a loader inserts at most one record. -/
lemma loadRound_indexed {cfg : Loader} {allocs : Allocs} {s s' : LoadSt} {ret : Option Int}
    (ix : Indexed PRIME_TBLSIZ (hashpjw signed) s.tbl.htbl)
    (e : loadRound cfg allocs s = some (ret, s')) :
    Indexed PRIME_TBLSIZ (hashpjw signed) s'.tbl.htbl := by
  simp only [loadRound] at e
  split at e
  · cases e
    exact ix
  · obtain ⟨row, _, e⟩ := Option.bind_eq_some_iff.mp e
    obtain ⟨data, _, e⟩ := Option.bind_eq_some_iff.mp e
    obtain ⟨⟨r, heap', htbl'⟩, ins, e⟩ := Option.bind_eq_some_iff.mp e
    have step :
        tblStepBy (kvKey id) s.tbl (.insert data allocs.elmt) =
          some ((r, data), ⟨heap', htbl'⟩) := by
      rw [tblStepBy, ← chtblInsertKv, ins]
      rfl
    have ix' := ix.step step
    split at e
    · cases e
      exact ix'
    · cases e
      exact ix'

/-- The loop over the lines of a file keeps the table indexed. -/
lemma loadLoop_indexed {cfg : Loader} {allocs : Nat → Allocs} {rounds : Nat} {s s' : LoadSt}
    {ret : Option Int} (ix : Indexed PRIME_TBLSIZ (hashpjw signed) s.tbl.htbl)
    (e : loadLoop cfg allocs rounds s = some (ret, s')) :
    Indexed PRIME_TBLSIZ (hashpjw signed) s'.tbl.htbl := by
  induction rounds generalizing s with
  | zero =>
    cases e
    exact ix
  | succ rounds ih =>
    rw [loadLoop] at e
    split at e
    · cases e
      exact ix
    · split at e
      · cases e
      · rename_i round
        cases e
        exact loadRound_indexed ix round
      · rename_i round
        exact ih (loadRound_indexed ix round) e

/-- So the table that was loaded is indexed. -/
lemma createHash_indexed {cfg : Loader} {table : Bool} {fpi : Option (List UInt8)} {tmp : Buf}
    {heap : Heap (ListElmt SweetListKv)} {allocs : Nat → Allocs} {rounds : Nat} {ret : Option Int}
    {s : LoadSt} (e : createHash cfg signed table fpi tmp heap allocs rounds = some (ret, some s)) :
    Indexed PRIME_TBLSIZ (hashpjw signed) s.tbl.htbl := by
  unfold createHash at e
  split at e
  · cases e
  · split at e
    · cases e
    · rename_i init
      obtain ⟨r, loop, same⟩ := Option.map_eq_some_iff.mp e
      cases same
      exact loadLoop_indexed (indexed_init init) loop

end Tables

/-- For every string, with `char` signed or not: after every round of the loop the value is less
than 2^28, and the next shift loses no bits; the hash lies between 0 and `PRIME_TBLSIZ`. In a table
of `PRIME_TBLSIZ` buckets, after every run of the operations, and in the tables of the icons and of
the set items, whatever was read so far, the bucket of every key is its hash, and its header is in
the table. -/
theorem hashpjw_in_range (signed : Bool) :
    (∀ (key : CStr) (k : Nat), ∃ val, val = hashpjwLoop signed (key.chars.take k) 0 ∧
      hashpjwLoop signed key.chars 0 = hashpjwLoop signed (key.chars.drop k) val ∧
      val.toNat < 2 ^ 28 ∧ (val <<< 4).toNat = val.toNat * 16) ∧
    (∀ key : CStr, 0 ≤ hashpjw signed key.chars ∧ hashpjw signed key.chars < PRIME_TBLSIZ) ∧
    (∀ {alloc destroy m htbl heap tr s}, chtblInit alloc PRIME_TBLSIZ (hashpjw signed) m destroy =
      some htbl →
      Run (Answers (chtblStepKv id)) ⟨heap, htbl⟩ tr s → PjwTable signed s.htbl) ∧
    (∀ {table fpi tmp heap allocs rounds ret s},
      createIconHash signed table fpi tmp heap allocs rounds = some (ret, some s) →
      PjwTable signed s.tbl.htbl) ∧
    ∀ {effect table fpi tmp heap allocs rounds ret s},
      createSetitemHash effect signed table fpi tmp heap allocs rounds = some (ret, some s) →
        PjwTable signed s.tbl.htbl := by
  refine ⟨fun key k => ?_, fun key => hashpjw_lt signed key.chars, ?_, ?_, ?_⟩
  · have lt : (hashpjwLoop signed (key.chars.take k) 0).toNat < 2 ^ 28 :=
      hashpjwLoop_lt signed _ (by decide)
    refine ⟨_, rfl, ?_, lt, shift_exact lt⟩
    rw [← hashpjwLoop_append, List.take_append_drop]
  · intro alloc destroy m htbl heap tr s init run
    rw [chtblStepKv_eq] at run
    have ix : Indexed PRIME_TBLSIZ (hashpjw signed) s.htbl :=
      run.invariant (fun s => Indexed PRIME_TBLSIZ (hashpjw signed) s.htbl)
        (indexed_init init) fun _ _ _ ix st => ix.step st
    exact pjwTable_of_indexed ix
  · intro table fpi tmp heap allocs rounds ret s e
    exact pjwTable_of_indexed (createHash_indexed e)
  · intro effect table fpi tmp heap allocs rounds ret s e
    exact pjwTable_of_indexed (createHash_indexed e)

/-- A character above 127, whose sign bits reach the upper four bits. -/
example : hashpjwLoop true [0xe5] 0 = 0x0fffff15 ∧ hashpjw true [0xe5] = 0x315 := by decide

end SweetClib.Bns
