import SweetClib.Hash.Owner

/-!
# The index of a bucket

Every operation computes the bucket of its key as `h(key) % buckets`, with the remainder of C, and
nothing checks what `chtbl_init` was given. The number of buckets and the hash function stay those
of `chtbl_init` (`Indexed`), so that an index is inside of the table exactly when the table is not
empty and the hash is not negative, or a multiple of the number of buckets.
-/

namespace SweetClib.Hash
open SweetClib.Lib SweetClib.Linked

variable {K D : Type*} {key : D → K}

/-- The number of buckets of the sample program (C `TBLSIZ`). -/
def TBLSIZ : Int := 11

/-- The hash function of the sample program (C `h_char`); `char` is signed. -/
def hChar (key : UInt8) : Int := key.toInt8.toInt.tmod TBLSIZ

/-- The table has as many headers as `chtbl_init` was asked for, and hashes with the function it
was given. -/
structure Indexed (buckets : Int) (h : K → Int) (htbl : CHTbl K D) : Prop where
  count : htbl.buckets = buckets
  hash : htbl.h = h
  len : htbl.table.length = buckets.toNat

/-- Every operation keeps what the index depends on. -/
lemma Indexed.step {buckets : Int} {h : K → Int} {s s' : TblSt K D} {op : TblOp D} {o}
    (ix : Indexed buckets h s.htbl) (st : tblStepBy key s op = some (o, s')) :
    Indexed buckets h s'.htbl := by
  obtain same | ⟨_, _, _, _, _, _, e⟩ := tblStepBy_htbl st
  · rw [same]
    exact ix
  · rw [e]
    exact ⟨ix.count, ix.hash, by rw [List.length_set, ix.len]⟩

/-- The remainder of C is an index exactly when the divisor is positive and the dividend is not
negative, or a multiple of the divisor. -/
lemma tmod_in_range {a b : Int} :
    0 ≤ a.tmod b ∧ a.tmod b < b ↔ 0 < b ∧ (0 ≤ a ∨ b ∣ a) := by
  constructor
  · rintro ⟨low, high⟩
    refine ⟨by omega, ?_⟩
    by_cases nonneg : 0 ≤ a
    · exact .inl nonneg
    · -- the remainder of a negative dividend is not positive, so that it is zero here
      have nonneg : 0 ≤ (-a).tmod b := Int.tmod_nonneg b (by omega)
      rw [Int.neg_tmod] at nonneg
      exact .inr (Int.dvd_of_tmod_eq_zero (by omega))
  · rintro ⟨pos, hash⟩
    refine ⟨?_, Int.tmod_lt_of_pos a pos⟩
    obtain nonneg | dvd := hash
    · exact Int.tmod_nonneg b nonneg
    · rw [Int.tmod_eq_zero_of_dvd dvd]

section Bucket

variable {buckets : Int} {h : K → Int} {htbl : CHTbl K D}

/-- The bucket of a key is an index of the table exactly for these sizes and hashes. -/
lemma Indexed.bucket_iff (ix : Indexed buckets h htbl) (k : K) :
    (∃ bucket, chtblBucket htbl k = some bucket ∧ 0 ≤ bucket ∧ bucket < buckets) ↔
      0 < buckets ∧ (0 ≤ h k ∨ buckets ∣ h k) := by
  rw [← tmod_in_range, chtblBucket, ix.count, ix.hash]
  constructor
  · rintro ⟨bucket, e, range⟩
    obtain ⟨_, e⟩ := Option.ite_none_left_eq_some.mp e
    cases e
    exact range
  · intro range
    exact ⟨(h k).tmod buckets, if_neg (by omega), range⟩

/-- An index of the table has a header. -/
lemma Indexed.list (ix : Indexed buckets h htbl) {bucket : Int} (low : 0 ≤ bucket)
    (high : bucket < buckets) : ∃ list, chtblList htbl bucket = some list := by
  have lt : bucket.toNat < htbl.table.length := by
    rw [ix.len]
    omega
  exact ⟨htbl.table[bucket.toNat], by
    rw [chtblList, if_neg (by omega), List.getElem?_eq_getElem lt]⟩

end Bucket

/-- After every run of the operations on a table that `chtbl_init` has made, of records or of plain
data: the bucket of a key is computed and lies between 0 and the number of buckets exactly when this
number is positive and the hash of the key is not negative, or a multiple of the number. The header
of such a bucket is in the table. -/
theorem chtbl_index_in_range {alloc : Bool} {buckets : Int} {h : K → Int} {m : D → D → Bool}
    {destroy : Bool} {htbl : CHTbl K D} (init : chtblInit alloc buckets h m destroy = some htbl)
    {heap : Heap (ListElmt D)} {tr : List (TblOp D × (Int × D))} {s : TblSt K D}
    (run : Run (Answers (tblStepBy key)) ⟨heap, htbl⟩ tr s) (d : D) :
    ((∃ bucket, chtblBucket s.htbl (key d) = some bucket ∧ 0 ≤ bucket ∧ bucket < buckets) ↔
      0 < buckets ∧ (0 ≤ h (key d) ∨ buckets ∣ h (key d))) ∧
    ∀ bucket, 0 ≤ bucket → bucket < buckets → ∃ list, chtblList s.htbl bucket = some list := by
  have ix : Indexed buckets h htbl := by
    obtain ⟨_, e⟩ := Option.ite_none_right_eq_some.mp init
    cases e
    exact ⟨rfl, rfl, List.length_replicate⟩
  have ix' : Indexed buckets h s.htbl :=
    run.invariant (fun s : TblSt K D => Indexed buckets h s.htbl) ix fun _ _ _ ix st => ix.step st
  exact ⟨ix'.bucket_iff (key d), fun _ low high => ix'.list low high⟩

/-- The letter `b` is in bucket 10 of the sample table, after it was inserted. -/
theorem chtbl_index_in_range_b :
    let htbl : CHTbl UInt8 UInt8 :=
      { buckets := TBLSIZ, h := hChar, match_ := fun a b => a == b, destroy := false, size := 0,
        table := List.replicate 11 (listInit false) }
    ∃ o s, tblStepBy id ⟨fun _ => none, htbl⟩ (.insert 98 (some 1)) = some (o, s) ∧
      chtblBucket s.htbl 98 = some 10 ∧ ∃ list, chtblList s.htbl 10 = some list := by
  intro htbl
  have init : chtblInit true TBLSIZ hChar (fun a b => a == b) false = some htbl := rfl
  obtain ⟨⟨o, s⟩, st⟩ : ∃ r, tblStepBy id ⟨fun _ => none, htbl⟩ (.insert 98 (some 1)) = some r :=
    ⟨_, rfl⟩
  have run : Run (Answers (tblStepBy id)) ⟨fun _ => none, htbl⟩ [(.insert 98 (some 1), o)] s :=
    .cons .nil st
  obtain ⟨iff, lists⟩ := chtbl_index_in_range init run 98
  obtain ⟨bucket, e, low, high⟩ := iff.mpr ⟨by decide, .inl (by decide)⟩
  have ten : chtblBucket s.htbl 98 = some 10 := by
    cases st
    rfl
  cases Option.some.inj (e.symm.trans ten)
  exact ⟨o, s, st, ten, lists 10 low high⟩

/-- Two tables whose index is bad: without buckets it is a division by zero, and the sample's hash
of the character with the code 255 is -1, so that every operation with that character faults. -/
theorem index_out_of_range :
    (∃ htbl : CHTbl UInt8 UInt8, chtblInit true 0 hChar (fun a b => a == b) false = some htbl ∧
      chtblBucket htbl 98 = none) ∧
    ∃ htbl : CHTbl UInt8 UInt8, chtblInit true TBLSIZ hChar (fun a b => a == b) false = some htbl ∧
      chtblBucket htbl 255 = some (-1) ∧
      chtblInsert (fun _ => none) htbl 255 (some 1) = none ∧
        chtblLookup (fun _ => none) htbl 255 = none ∧
      chtblRemove (fun _ => none) htbl 255 = none :=
  ⟨⟨_, rfl, rfl⟩, _, rfl, rfl, rfl, rfl, rfl⟩

end SweetClib.Hash
