import SweetClib.Hash.Chtbl
import SweetClib.Linked.Rep
import Mathlib.Algebra.BigOperators.Intervals

/-!
# What a hash table represents

`TblRep key h m heap htbl n chains`: the `n` bucket headers of `htbl` represent the sequences
`chains 0`, ..., `chains (n - 1)` of elements in the heap, every element is in the bucket of its
key, no two elements match, and `size` counts them. That the chains share no cell is a consequence:
an element is in one bucket only, the one of its key. The outcomes of the search
(`TblRep.search_cases`) and the exchange of one bucket list (`TblRep.exchange`) carry the
specifications of the four operations.
-/

namespace SweetClib.Hash
open SweetClib.Lib SweetClib.Linked

variable {K D : Type*}

/-- What a map needs of the hash and the match: the hash is non-negative, the match is an
equivalence and matching data hash equally. -/
structure HashOk (key : D → K) (h : K → Int) (m : D → D → Bool) : Prop where
  nonneg : ∀ k, 0 ≤ h k
  refl : ∀ a, m a a = true
  symm : ∀ a b, m a b = true → m b a = true
  trans : ∀ a b c, m a b = true → m b c = true → m a c = true
  hash_eq : ∀ a b, m a b = true → h (key a) = h (key b)

/-- The elements of the buckets. -/
def Stored (chains : Nat → List (Addr × D)) (x : Addr × D) : Prop := ∃ i, x ∈ chains i

/-- The table represents the sequences `chains`. -/
structure TblRep (key : D → K) (h : K → Int) (m : D → D → Bool) (heap : Heap (ListElmt D))
    (htbl : CHTbl K D) (n : Nat) (chains : Nat → List (Addr × D)) : Prop where
  hash : htbl.h = h
  mtch : htbl.match_ = m
  pos : 0 < n
  buckets : htbl.buckets = n
  len : htbl.table.length = n
  outside : ∀ i, n ≤ i → chains i = []
  lists : ∀ i, i < n → ∃ L, htbl.table[i]? = some L ∧ Rep heap L (chains i)
  placed : ∀ i x, x ∈ chains i → (h (key x.2)).tmod n = i
  unique : ∀ x y, Stored chains x → Stored chains y → m x.2 y.2 = true → x = y
  size : htbl.size = ∑ i ∈ Finset.range n, ((chains i).length : Int)

lemma TblRep.init {key : D → K} {h m destroy htbl} {buckets : Int} (heap : Heap (ListElmt D))
    (pos : 0 < buckets) (e : chtblInit true buckets h m destroy = some htbl) :
    TblRep key h m heap htbl buckets.toNat (fun _ => []) := by
  simp only [chtblInit, if_true, Option.some.injEq] at e
  subst e
  refine ⟨rfl,
    rfl, by omega, by simp; omega, by simp, fun _ _ => rfl, fun i hi => ?_, nofun, ?_, by simp⟩
  · exact ⟨listInit destroy, by simp [hi], Rep.init _ _⟩
  · rintro x y ⟨_, mem⟩
    cases mem

/-- The loop over a chain without a match. -/
lemma chtblScan_miss {heap : Heap (ListElmt D)} {p : D → Bool} {l q prev n}
    (ch : Elmts heap q l none) (len : l.length ≤ n) (miss : ∀ x ∈ l, p x.2 = false) :
    chtblScan heap p n prev q = some none := by
  induction l generalizing q prev n with
  | nil =>
    subst ch
    cases n <;> rfl
  | cons x l ih =>
    obtain ⟨rfl, c, hx, hd, ch⟩ := ch
    cases n with
    | zero => simp at len
    | succ n =>
      have px : p c.data = false := by rw [hd]; exact miss x List.mem_cons_self
      simp only [chtblScan, hx, px, Bool.false_eq_true, if_false]
      exact ih ch (by simpa using len) fun y hy => miss y (List.mem_cons_of_mem _ hy)

/-- The loop over a chain stops at the first match, with the element before it. -/
lemma chtblScan_hit {heap : Heap (ListElmt D)} {p : D → Bool} {l₁ x l₂ q prev n}
    (ch : Elmts heap q (l₁ ++ x :: l₂) none) (len : (l₁ ++ x :: l₂).length ≤ n)
    (miss : ∀ y ∈ l₁, p y.2 = false) (hit : p x.2 = true) :
    chtblScan heap p n prev q = some (some ((l₁.getLast?.map Prod.fst).or prev, x.2)) := by
  induction l₁ generalizing q prev n with
  | nil =>
    obtain ⟨rfl, c, hx, hd, _⟩ := ch
    cases n with
    | zero => simp at len
    | succ n =>
      simp [chtblScan, hx, hd, hit]
  | cons y l₁ ih =>
    obtain ⟨rfl, c, hy, hd, ch⟩ := ch
    cases n with
    | zero => simp at len
    | succ n =>
      have py : p c.data = false := by rw [hd]; exact miss y List.mem_cons_self
      simp only [chtblScan, hy, py, Bool.false_eq_true, if_false]
      rw [ih ch (by simpa using len) fun z hz => miss z (List.mem_cons_of_mem _ hz)]
      -- the element before the match is the last one passed over, if any
      cases l₁ with
      | nil => simp
      | cons z l₁ => simp [List.getLast?_cons]

section Rep

variable {key : D → K} {h : K → Int} {m : D → D → Bool} {heap : Heap (ListElmt D)}
  {htbl : CHTbl K D} {n : Nat} {chains : Nat → List (Addr × D)}

lemma TblRep.bucket (rep : TblRep key h m heap htbl n chains) (ok : HashOk key h m) (d : D) :
    ∃ b L, b < n ∧ (h (key d)).tmod n = (b : Int) ∧ chtblBucket htbl (key d) = some (b : Int) ∧
      chtblList htbl b = some L ∧ htbl.table[b]? = some L ∧ Rep heap L (chains b) := by
  have pos := rep.pos
  have e : (h (key d)).tmod n = ((h (key d)).tmod n).toNat := by
    rw [Int.toNat_of_nonneg (Int.tmod_nonneg _ (ok.nonneg _))]
  have lt : ((h (key d)).tmod n).toNat < n := by
    have := Int.tmod_lt_of_pos (h (key d)) (b := (n : Int)) (by omega)
    omega
  obtain ⟨L, hL, repL⟩ := rep.lists _ lt
  refine ⟨_, L, lt, e, ?_, ?_, hL, repL⟩
  · rw [chtblBucket, rep.buckets, rep.hash, if_neg (by omega), ← e]
  · rw [chtblList, if_neg (by omega), Int.toNat_natCast, hL]

/-- What matches a datum is in the bucket of the datum. -/
lemma TblRep.bucket_of_match (rep : TblRep key h m heap htbl n chains) (ok : HashOk key h m)
    {d : D} {b : Nat} (eb : (h (key d)).tmod n = (b : Int)) {i x} (mem : x ∈ chains i)
    (hm : m d x.2 = true) : i = b := by
  have ei := rep.placed i x mem
  rw [← ok.hash_eq _ _ hm, eb] at ei
  omega

/-- The search finds the element that matches, if there is one. -/
lemma TblRep.search_cases (rep : TblRep key h m heap htbl n chains) (ok : HashOk key h m) (d : D) :
    (∃ b L l₁ x l₂, b < n ∧ htbl.table[b]? = some L ∧ Rep heap L (l₁ ++ x :: l₂) ∧
      chains b = l₁ ++ x :: l₂ ∧ m d x.2 = true ∧
      chtblSearch key heap htbl d = some ((b : Int), L, some (l₁.getLast?.map Prod.fst, x.2))) ∨
    ((∀ x, Stored chains x → m d x.2 = false) ∧
      ∃ b L, chtblSearch key heap htbl d = some (b, L, none)) := by
  obtain ⟨b, L, lt, eb, hb, hlist, hL, repL⟩ := rep.bucket ok d
  have fuel : (chains b).length ≤ L.size.toNat := by rw [repL.size]; omega
  have scan : chtblSearch key heap htbl d =
      (chtblScan heap (m d) L.size.toNat none L.head).map fun found => ((b : Int), L, found) := by
    simp only [chtblSearch, hb, hlist, rep.mtch]
    cases chtblScan heap (m d) L.size.toNat none L.head <;> rfl
  cases hf : (chains b).find? (fun x => m d x.2) with
  | some x =>
    left
    obtain ⟨hit, l₁, l₂, spl, miss⟩ := List.find?_eq_some_iff_append.mp hf
    rw [spl] at repL fuel
    refine ⟨b, L, l₁, x, l₂, lt, hL, repL, spl, hit, ?_⟩
    rw [scan, chtblScan_hit repL.chain fuel (fun y hy => by simpa using miss y hy) hit]
    simp
  | none =>
    right
    rw [List.find?_eq_none] at hf
    refine ⟨?_, b, L, ?_⟩
    · rintro x ⟨i, mem⟩
      by_contra hm
      rw [Bool.not_eq_false] at hm
      have := rep.bucket_of_match ok eb mem hm
      subst this
      exact hf x mem hm
    · rw [scan, chtblScan_miss repL.chain fuel fun y hy => by simpa using hf y hy]
      rfl

/-- An element is stored in one bucket only. -/
lemma TblRep.disjoint (rep : TblRep key h m heap htbl n chains) {i j x y} (hi : x ∈ chains i)
    (hj : y ∈ chains j) (ne : i ≠ j) : x.1 ≠ y.1 := by
  have lt : ∀ i x, x ∈ chains i → i < n := by
    intro i x mem
    by_contra le
    rw [rep.outside i (by omega)] at mem
    cases mem
  intro e
  obtain ⟨_, _, repi⟩ := rep.lists i (lt i x hi)
  obtain ⟨_, _, repj⟩ := rep.lists j (lt j y hj)
  obtain ⟨c, hx, hdx⟩ := repi.chain.live hi
  obtain ⟨c', hy, hdy⟩ := repj.chain.live hj
  rw [e, hy] at hx
  cases hx
  -- the same cell holds one datum, whose key has one bucket
  have pi := rep.placed i x hi
  have pj := rep.placed j y hj
  rw [← hdx] at pi
  rw [← hdy, pi] at pj
  exact ne (by omega)

/-- What is stored after a bucket is exchanged. -/
lemma stored_update {b : Nat} {l : List (Addr × D)} {x} :
    Stored (Function.update chains b l) x ↔ x ∈ l ∨ ∃ i, i ≠ b ∧ x ∈ chains i := by
  constructor
  · rintro ⟨i, mem⟩
    by_cases e : i = b
    · subst e
      exact .inl (by simpa using mem)
    · exact .inr ⟨i, e, by simpa [e] using mem⟩
  · rintro (mem | ⟨i, e, mem⟩)
    · exact ⟨b, by simpa using mem⟩
    · exact ⟨i, by simpa [e] using mem⟩

/-- Exchange the list of one bucket, leaving the cells of the others alone. -/
lemma TblRep.exchange (rep : TblRep key h m heap htbl n chains) {b heap' L l size'} (lt : b < n)
    (repL : Rep heap' L l) (agree : ∀ i x, i ≠ b → x ∈ chains i → heap' x.1 = heap x.1)
    (placed : ∀ x ∈ l, (h (key x.2)).tmod n = b)
    (unique : ∀ x y, Stored (Function.update chains b l) x → Stored (Function.update chains b l) y →
      m x.2 y.2 = true → x = y)
    (size : size' = htbl.size - (chains b).length + l.length) :
    TblRep key h m heap' { htbl with table := htbl.table.set b L, size := size' } n
      (Function.update chains b l) where
  hash := rep.hash
  mtch := rep.mtch
  pos := rep.pos
  buckets := rep.buckets
  len := by simp [rep.len]
  outside i hi := by
    rw [Function.update_of_ne (by omega)]
    exact rep.outside i hi
  lists i hi := by
    by_cases e : i = b
    · subst e
      exact ⟨L, by simp [rep.len, hi], by simpa using repL⟩
    · obtain ⟨L', hL', repL'⟩ := rep.lists i hi
      refine ⟨L', by simpa [Ne.symm e] using hL', ?_⟩
      rw [Function.update_of_ne e]
      exact repL'.frame fun x mem => agree i x e mem
  placed i x mem := by
    by_cases e : i = b
    · subst e
      exact placed x (by simpa using mem)
    · exact rep.placed i x (by simpa [e] using mem)
  unique := unique
  size := by
    have sum := rep.size
    have mem : b ∈ Finset.range n := Finset.mem_range.mpr lt
    rw [← Finset.add_sum_erase _ _ mem] at sum ⊢
    have rest : ∑ i ∈ (Finset.range n).erase b, ((Function.update chains b l i).length : Int) =
        ∑ i ∈ (Finset.range n).erase b, ((chains i).length : Int) := by
      refine Finset.sum_congr rfl fun i hi => ?_
      rw [Function.update_of_ne (Finset.ne_of_mem_erase hi)]
    rw [rest, Function.update_self]
    simp only [size]
    omega

/-- Insertion of data that match nothing stored: the allocation decides. -/
lemma TblRep.insert_new (rep : TblRep key h m heap htbl n chains) (ok : HashOk key h m) {d : D}
    (miss : ∀ x, Stored chains x → m d x.2 = false) (offer : Option Addr) :
    (heap.malloc offer = none ∧
      chtblInsertBy key heap htbl d offer = some (-1, heap, htbl)) ∨
    ∃ a b heap' htbl', heap.malloc offer = some a ∧
      chtblInsertBy key heap htbl d offer = some (0, heap', htbl') ∧
      TblRep key h m heap' htbl' n (Function.update chains b ((a, d) :: chains b)) := by
  obtain ⟨b, L, l₁, x, l₂, lt, hL, repL, spl, hit, _⟩ | ⟨_, b₀, L₀, srch⟩ := rep.search_cases ok d
  · have := miss x ⟨b, by rw [spl]; simp⟩
    simp [this] at hit
  have look : chtblLookupBy key heap htbl d = some (-1, d) := by simp [chtblLookupBy, srch]
  obtain ⟨b, L, lt, eb, hb, hlist, hL, repL⟩ := rep.bucket ok d
  cases al : heap.malloc offer with
  | none =>
    refine .inl ⟨rfl, ?_⟩
    have same : htbl.table.set b L = htbl.table := by
      rw [List.getElem?_eq_some_iff] at hL
      obtain ⟨_, rfl⟩ := hL
      simp
    simp [chtblInsertBy, look, hb, hlist, listInsNext_fail al, same]
  | some a =>
    obtain ⟨heap', L', e, repL', frame⟩ := listInsNext_front repL al d
    have fr := Heap.malloc_fresh al
    -- every stored element lives at an address that was taken
    have apart : ∀ i x, x ∈ chains i → x.1 ≠ a := by
      intro i x mem
      by_cases hi : i < n
      · obtain ⟨_, _, repi⟩ := rep.lists i hi
        exact repi.fresh fr mem
      · rw [rep.outside i (by omega)] at mem
        cases mem
    refine .inr ⟨a, b, heap', _, rfl, by simp [chtblInsertBy, look, hb, hlist, e]; rfl, ?_⟩
    have stored : ∀ x, Stored (Function.update chains b ((a, d) :: chains b)) x →
        x = (a, d) ∨ Stored chains x := by
      intro x st
      obtain mem | ⟨i, _, mem⟩ := stored_update.mp st
      · obtain rfl | mem := List.mem_cons.mp mem
        · exact .inl rfl
        · exact .inr ⟨b, mem⟩
      · exact .inr ⟨i, mem⟩
    refine rep.exchange lt repL' (fun i x _ mem => frame _ (apart i x mem)) ?_ ?_ (by simp; omega)
    · intro x mem
      obtain rfl | mem := List.mem_cons.mp mem
      · exact eb
      · exact rep.placed b x mem
    · intro x y sx sy hm
      obtain rfl | sx := stored x sx
      · obtain rfl | sy := stored y sy
        · rfl
        · simp [miss y sy] at hm
      · obtain rfl | sy := stored y sy
        · have hm' := ok.symm _ _ hm
          simp [miss x sx] at hm'
        · exact rep.unique x y sx sy hm

/-- The lookups find the element that matches, if there is one. -/
lemma TblRep.lookup_hit (rep : TblRep key h m heap htbl n chains) (ok : HashOk key h m) {d : D} {x}
    (st : Stored chains x) (hm : m d x.2 = true) :
    chtblLookupBy key heap htbl d = some (0, x.2) ∧ chtblFindBy key heap htbl d = some x.2 := by
  obtain ⟨b, L, l₁, y, l₂, lt, hL, repL, spl, hit, srch⟩ | ⟨miss, _⟩ := rep.search_cases ok d
  · have sy : Stored chains y := ⟨b, by rw [spl]; simp⟩
    have e := rep.unique y x sy st (ok.trans _ _ _ (ok.symm _ _ hit) hm)
    subst e
    simp [chtblLookupBy, chtblFindBy, srch]
  · simp [miss x st] at hm

/-- The lookups hand back the query when nothing matches. -/
lemma TblRep.lookup_miss (rep : TblRep key h m heap htbl n chains) (ok : HashOk key h m) {d : D}
    (miss : ∀ x, Stored chains x → m d x.2 = false) :
    chtblLookupBy key heap htbl d = some (-1, d) ∧ chtblFindBy key heap htbl d = some d := by
  obtain ⟨b, L, l₁, y, l₂, lt, hL, repL, spl, hit, srch⟩ | ⟨_, _, _, srch⟩ := rep.search_cases ok d
  · have := miss y ⟨b, by rw [spl]; simp⟩
    simp [this] at hit
  · simp [chtblLookupBy, chtblFindBy, srch]

/-- Insertion of data that match a stored element. -/
lemma TblRep.insert_dup (rep : TblRep key h m heap htbl n chains) (ok : HashOk key h m) {d : D} {x}
    (st : Stored chains x) (hm : m d x.2 = true) (offer : Option Addr) :
    chtblInsertBy key heap htbl d offer = some (1, heap, htbl) := by
  simp [chtblInsertBy, (rep.lookup_hit ok st hm).1]

/-- Removal from a list at a position found by the loop. -/
lemma listRemNext_at {L l₁ x l₂} (repL : Rep heap L (l₁ ++ x :: l₂)) (d : D) :
    ∃ heap' L', listRemNext heap L (l₁.getLast?.map Prod.fst) d = some (0, heap', L', x.2) ∧
      Rep heap' L' (l₁ ++ l₂) ∧ ∀ y, (∀ z ∈ l₁ ++ x :: l₂, y ≠ z.1) → heap' y = heap y := by
  -- the trailing pointer is null exactly when the match is the front of the list
  cases l₁ using List.reverseRecOn with
  | nil =>
    obtain ⟨heap', L', e, repL', _, frame⟩ := listRemNext_front repL d
    exact ⟨heap', L', e, repL', fun y ne => frame y (ne x (by simp))⟩
  | append_singleton l₁ z =>
    rw [List.append_assoc] at repL
    obtain ⟨heap', L', e, repL', _, frame⟩ := listRemNext_after repL d
    refine ⟨heap', L', by simpa using e, by simpa using repL', fun y ne => ?_⟩
    exact frame y (ne x (by simp)) (ne z (by simp))

/-- Removal hands back the element that matches and takes it out of its bucket. -/
lemma TblRep.remove_hit (rep : TblRep key h m heap htbl n chains) (ok : HashOk key h m) {d : D} {x}
    (st : Stored chains x) (hm : m d x.2 = true) :
    ∃ b l₁ l₂ heap' htbl', chains b = l₁ ++ x :: l₂ ∧
      chtblRemoveBy key heap htbl d = some (0, heap', htbl', x.2) ∧
      TblRep key h m heap' htbl' n (Function.update chains b (l₁ ++ l₂)) := by
  obtain ⟨b, L, l₁, y, l₂, lt, hL, repL, spl, hit, srch⟩ | ⟨miss, _⟩ := rep.search_cases ok d
  · have sy : Stored chains y := ⟨b, by rw [spl]; simp⟩
    have e := rep.unique y x sy st (ok.trans _ _ _ (ok.symm _ _ hit) hm)
    subst e
    obtain ⟨heap', L', e, repL', frame⟩ := listRemNext_at repL d
    have sub : ∀ z ∈ l₁ ++ l₂, z ∈ chains b := by
      intro z mem
      rw [spl]
      simp only [List.mem_append, List.mem_cons] at mem ⊢
      tauto
    have keep : ∀ z, Stored (Function.update chains b (l₁ ++ l₂)) z → Stored chains z := by
      intro z sz
      obtain mem | ⟨i, _, mem⟩ := stored_update.mp sz
      · exact ⟨b, sub z mem⟩
      · exact ⟨i, mem⟩
    refine ⟨b, l₁, l₂, heap', _, spl, by simp [chtblRemoveBy, srch, e]; rfl, ?_⟩
    refine rep.exchange lt repL' (fun i z ne mem => frame _ fun w hw => ?_)
      (fun z mem => rep.placed b z (sub z mem))
      (fun z w sz sw => rep.unique z w (keep z sz) (keep w sw)) (by simp [spl]; omega)
    exact rep.disjoint mem (by rw [spl]; exact hw) ne
  · simp [miss x st] at hm

/-- Removal of what is not stored changes nothing. -/
lemma TblRep.remove_miss (rep : TblRep key h m heap htbl n chains) (ok : HashOk key h m) {d : D}
    (miss : ∀ x, Stored chains x → m d x.2 = false) :
    chtblRemoveBy key heap htbl d = some (-1, heap, htbl, d) := by
  obtain ⟨b, L, l₁, y, l₂, lt, hL, repL, spl, hit, srch⟩ | ⟨_, _, _, srch⟩ := rep.search_cases ok d
  · have := miss y ⟨b, by rw [spl]; simp⟩
    simp [this] at hit
  · simp [chtblRemoveBy, srch]

end Rep

end SweetClib.Hash
