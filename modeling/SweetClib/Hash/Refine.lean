import SweetClib.Lib.Run
import SweetClib.Hash.Rep

/-!
# The hash table is a finite map

The abstract map is a set of data of which no two match; `MapTrans` says what each operation
answers and does to the set. The transition systems of the two families of operations
(`chtblStepKv`, `chtblStep`) never fault and refine it, whatever the allocator answers: the history
of every run is a history of the map, and the set it ends in is what the buckets hold.
-/

namespace SweetClib.Hash
open SweetClib.Lib SweetClib.Linked

variable {K D P : Type*}

/-- The operations on a table; the `find` exists for records only. -/
inductive TblOp (D : Type*) where
  | insert (data : D) (offer : Option Addr)
  | remove (data : D)
  | lookup (data : D)
  | find (data : D)

/-- The datum an operation is called with. -/
def TblOp.arg : TblOp D → D
  | .insert d _ => d
  | .remove d => d
  | .lookup d => d
  | .find d => d

/-- A table and the heap of its elements. -/
structure TblSt (K D : Type*) where
  heap : Heap (ListElmt D)
  htbl : CHTbl K D

/-- One operation; the answer is the return value and `*data` afterwards. For an insertion, which
does not write through its argument, that is the argument, and for a `find` it is the element
returned. -/
def tblStepBy (key : D → K) (s : TblSt K D) : TblOp D → Option ((Int × D) × TblSt K D)
  | .insert data offer =>
    (chtblInsertBy key s.heap s.htbl data offer).map fun r => ((r.1, data), ⟨r.2.1, r.2.2⟩)
  | .remove data =>
    (chtblRemoveBy key s.heap s.htbl data).map fun r => ((r.1, r.2.2.2), ⟨r.2.1, r.2.2.1⟩)
  | .lookup data => (chtblLookupBy key s.heap s.htbl data).map fun r => (r, s)
  | .find data => (chtblFindBy key s.heap s.htbl data).map fun r => ((0, r), s)

/-- One operation on a table of records. -/
def chtblStepKv (kv : P → SweetListKv) (s : TblSt (List UInt8) P) :
    TblOp P → Option ((Int × P) × TblSt (List UInt8) P)
  | .insert data offer =>
    (chtblInsertKv kv s.heap s.htbl data offer).map fun r => ((r.1, data), ⟨r.2.1, r.2.2⟩)
  | .remove data =>
    (chtblRemoveKv kv s.heap s.htbl data).map fun r => ((r.1, r.2.2.2), ⟨r.2.1, r.2.2.1⟩)
  | .lookup data => (chtblLookupKv kv s.heap s.htbl data).map fun r => (r, s)
  | .find data => (chtblFindKv kv s.heap s.htbl data).map fun r => ((0, r), s)

/-- One operation on a table of plain data, for which there is no `find`. -/
def chtblStep (s : TblSt D D) : TblOp D → Option ((Int × D) × TblSt D D)
  | .insert data offer =>
    (chtblInsert s.heap s.htbl data offer).map fun r => ((r.1, data), ⟨r.2.1, r.2.2⟩)
  | .remove data =>
    (chtblRemove s.heap s.htbl data).map fun r => ((r.1, r.2.2.2), ⟨r.2.1, r.2.2.1⟩)
  | .lookup data => (chtblLookup s.heap s.htbl data).map fun r => (r, s)
  | .find _ => none

/-- The abstract map: a set of data, and what every operation answers and does to it. -/
inductive MapTrans (m : D → D → Bool) : Set D → TblOp D × (Int × D) → Set D → Prop where
  | insertDup {S d e offer} :
    e ∈ S → m d e = true →
    MapTrans m S (.insert d offer, (1, d)) S
  | insertFail {S d offer} :
    (∀ e ∈ S, m d e = false) →
    MapTrans m S (.insert d offer, (-1, d)) S
  | insert {S d offer} :
    (∀ e ∈ S, m d e = false) →
    MapTrans m S (.insert d offer, (0, d)) (insert d S)
  | removeMiss {S d} :
    (∀ e ∈ S, m d e = false) →
    MapTrans m S (.remove d, (-1, d)) S
  | remove {S d e} :
    e ∈ S → m d e = true →
    MapTrans m S (.remove d, (0, e)) (S \ {e})
  | lookupMiss {S d} :
    (∀ e ∈ S, m d e = false) →
    MapTrans m S (.lookup d, (-1, d)) S
  | lookup {S d e} :
    e ∈ S → m d e = true →
    MapTrans m S (.lookup d, (0, e)) S
  | findMiss {S d} :
    (∀ e ∈ S, m d e = false) →
    MapTrans m S (.find d, (0, d)) S
  | find {S d e} :
    e ∈ S → m d e = true →
    MapTrans m S (.find d, (0, e)) S

/-- An operation of the map leaves alone what does not match its argument. -/
lemma MapTrans.other {m : D → D → Bool} {S S' a} (st : MapTrans m S a S') {q}
    (refl : ∀ d, m d d = true) (ne : m a.1.arg q = false) : q ∈ S' ↔ q ∈ S := by
  cases st with
  | insert =>
    simp only [Set.mem_insert_iff, or_iff_right_iff_imp]
    rintro rfl
    simp [TblOp.arg, refl] at ne
  | remove _ hm =>
    simp only [Set.mem_sdiff, Set.mem_singleton_iff, and_iff_left_iff_imp]
    rintro _ rfl
    simp [TblOp.arg, hm] at ne
  | _ => rfl

/-- The data in the buckets. -/
def contents (chains : Nat → List (Addr × D)) : Set D := {d | ∃ a, Stored chains (a, d)}

/-- A table that represents a set. -/
def TblIs (key : D → K) (h : K → Int) (m : D → D → Bool) (n : Nat) (s : TblSt K D) (S : Set D) :
    Prop :=
  ∃ chains, TblRep key h m s.heap s.htbl n chains ∧ contents chains = S

/-- The outcome of an operation on a state: it refines the abstract map, an insertion of something
new fails exactly with the allocation, an operation that answers something else than `0` changes
nothing and neither do the lookups, and the answers for data that do not match the argument stay as
they are. -/
structure OpSpec (step : TblSt K D → TblOp D → Option ((Int × D) × TblSt K D)) (key : D → K)
    (h : K → Int) (m : D → D → Bool) (n : Nat) (s : TblSt K D) (S : Set D) (op : TblOp D)
    (o : Int × D) (s' : TblSt K D) (S' : Set D) : Prop where
  step_eq : step s op = some (o, s')
  refines : MapTrans m S (op, o) S'
  rep : TblIs key h m n s' S'
  alloc : ∀ d offer, op = .insert d offer →
    (o.1 = -1 ↔ (∀ e ∈ S, m d e = false) ∧ s.heap.malloc offer = none)
  unchanged : o.1 ≠ 0 → s' = s
  readOnly : ∀ d, op = .lookup d ∨ op = .find d → s' = s
  others : ∀ q, m op.arg q = false →
    (step s' (.lookup q)).map Prod.fst = (step s (.lookup q)).map Prod.fst

section Spec

variable {key : D → K} {h : K → Int} {m : D → D → Bool} {n : Nat} {s s' : TblSt K D} {S S' : Set D}

lemma contents_nil : contents (fun _ => ([] : List (Addr × D))) = ∅ := by
  ext d
  simp [contents, Stored]

/-- The set grows by what is inserted. -/
lemma contents_insert {chains : Nat → List (Addr × D)} {b : Nat} {a : Addr} {d : D} :
    contents (Function.update chains b ((a, d) :: chains b)) = insert d (contents chains) := by
  ext e
  simp only [contents, Set.mem_ofPred_eq, Set.mem_insert_iff, stored_update, List.mem_cons,
    Prod.mk.injEq]
  constructor
  · rintro ⟨a', (⟨_, rfl⟩ | mem) | ⟨i, _, mem⟩⟩
    · exact .inl rfl
    · exact .inr ⟨a', b, mem⟩
    · exact .inr ⟨a', i, mem⟩
  · rintro (rfl | ⟨a', i, mem⟩)
    · exact ⟨a, .inl (.inl ⟨rfl, rfl⟩)⟩
    · by_cases e : i = b
      · subst e
        exact ⟨a', .inl (.inr mem)⟩
      · exact ⟨a', .inr ⟨i, e, mem⟩⟩

/-- The set shrinks by what is removed. -/
lemma contents_remove {heap : Heap (ListElmt D)} {htbl} {chains : Nat → List (Addr × D)}
    (rep : TblRep key h m heap htbl n chains) (refl : ∀ d, m d d = true) {b l₁ x l₂}
    (spl : chains b = l₁ ++ x :: l₂) :
    contents (Function.update chains b (l₁ ++ l₂)) = contents chains \ {x.2} := by
  have sx : Stored chains x := ⟨b, by rw [spl]; simp⟩
  have lt : b < n := by
    by_contra le
    rw [rep.outside b (by omega)] at spl
    simp at spl
  have notin : x ∉ l₁ ++ l₂ := by
    obtain ⟨_, _, repL⟩ := rep.lists b lt
    have nd := repL.nodup.of_map
    rw [spl] at nd
    exact (List.nodup_middle.mp nd).notMem
  ext e
  simp only [contents, Set.mem_ofPred_eq, Set.mem_sdiff, Set.mem_singleton_iff, stored_update]
  constructor
  · rintro ⟨a, mem⟩
    have old : Stored chains (a, e) := by
      obtain mem | ⟨i, _, mem⟩ := mem
      · refine ⟨b, ?_⟩
        rw [spl]
        simp only [List.mem_append, List.mem_cons] at mem ⊢
        tauto
      · exact ⟨i, mem⟩
    refine ⟨⟨a, old⟩, ?_⟩
    -- an element with the data of the removed one would be the removed one
    rintro rfl
    have eq := rep.unique (a, x.2) x old sx (refl _)
    rw [eq] at mem
    obtain mem | ⟨i, ne, mem⟩ := mem
    · exact notin mem
    · exact rep.disjoint (y := x) mem (by rw [spl]; simp) ne rfl
  · rintro ⟨⟨a, i, mem⟩, ne⟩
    refine ⟨a, ?_⟩
    by_cases eb : i = b
    · subst eb
      rw [spl] at mem
      have nx : (a, e) ≠ x := by
        rintro rfl
        exact ne rfl
      simp only [List.mem_append, List.mem_cons, nx, false_or] at mem
      exact .inl (by simpa using mem)
    · exact .inr ⟨i, eb, mem⟩

/-- The answer of a lookup is a matter of the data that match the query. -/
lemma TblIs.lookup_congr (rep : TblIs key h m n s S) (rep' : TblIs key h m n s' S')
    (ok : HashOk key h m) {q : D} (same : ∀ e, m q e = true → (e ∈ S' ↔ e ∈ S)) :
    (tblStepBy key s' (.lookup q)).map Prod.fst = (tblStepBy key s (.lookup q)).map Prod.fst := by
  obtain ⟨chains, rep, rfl⟩ := rep
  obtain ⟨chains', rep', rfl⟩ := rep'
  by_cases ex : ∃ e ∈ contents chains, m q e = true
  · obtain ⟨e, mem, hm⟩ := ex
    obtain ⟨a, st⟩ := mem
    obtain ⟨a', st'⟩ := (same e hm).mpr ⟨a, st⟩
    simp [tblStepBy, (rep.lookup_hit ok st hm).1, (rep'.lookup_hit ok st' hm).1]
  · push Not at ex
    have miss : ∀ x, Stored chains x → m q x.2 = false := fun x st => by
      simpa using ex x.2 ⟨x.1, st⟩
    have miss' : ∀ x, Stored chains' x → m q x.2 = false := fun x st => by
      by_contra hm
      rw [Bool.not_eq_false] at hm
      exact ex x.2 ((same _ hm).mp ⟨x.1, st⟩) hm
    simp [tblStepBy, (rep.lookup_miss ok miss).1, (rep'.lookup_miss ok miss').1]

/-- Data that do not match the argument of an operation match nothing it touches. -/
lemma MapTrans.others {a} (st : MapTrans m S a S') (ok : HashOk key h m) {q : D}
    (ne : m a.1.arg q = false) {e : D} (hm : m q e = true) : e ∈ S' ↔ e ∈ S := by
  refine st.other ok.refl ?_
  by_contra he
  rw [Bool.not_eq_false] at he
  have := ok.trans _ _ _ he (ok.symm _ _ hm)
  simp [this] at ne

/-- Every operation has an outcome, and it is the one of the abstract map. -/
lemma tblStepBy_spec (ok : HashOk key h m) (rep : TblIs key h m n s S) (op : TblOp D) :
    ∃ o s' S', OpSpec (tblStepBy key) key h m n s S op o s' S' := by
  -- the part about other keys is the same for all operations
  suffices main : ∃ o s' S', tblStepBy key s op = some (o, s') ∧ MapTrans m S (op, o) S' ∧
      TblIs key h m n s' S' ∧ (∀ d offer, op = .insert d offer →
        (o.1 = -1 ↔ (∀ e ∈ S, m d e = false) ∧ s.heap.malloc offer = none)) ∧
      (o.1 ≠ 0 → s' = s) ∧ (∀ d, op = .lookup d ∨ op = .find d → s' = s) by
    obtain ⟨o, s', S', e, st, rep', alloc, unch, ro⟩ := main
    exact ⟨o, s', S', e, st, rep', alloc, unch, ro, fun q ne =>
      rep.lookup_congr rep' ok fun _ => st.others ok ne⟩
  have rep₀ := rep
  obtain ⟨chains, rep, rfl⟩ := rep
  by_cases ex : ∃ x, Stored chains x ∧ m op.arg x.2 = true
  · obtain ⟨x, st, hm⟩ := ex
    have mem : x.2 ∈ contents chains := ⟨x.1, st⟩
    cases op with
    | insert d offer =>
      replace hm : m d x.2 = true := hm
      refine ⟨(1, d), s, _, by simp [tblStepBy, rep.insert_dup ok st hm], .insertDup mem hm, rep₀,
        ?_, fun _ => rfl, nofun⟩
      rintro _ _ ⟨⟩
      simp only [Int.reduceNeg, Int.reduceEq, false_iff, not_and]
      intro miss
      simp [miss _ mem] at hm
    | remove d =>
      replace hm : m d x.2 = true := hm
      obtain ⟨b, l₁, l₂, heap', htbl', spl, e, rep'⟩ := rep.remove_hit ok st hm
      exact ⟨(0, x.2), ⟨heap', htbl'⟩, _, by simp [tblStepBy, e], .remove mem hm,
        ⟨_, rep', contents_remove rep ok.refl spl⟩, nofun, fun ne => absurd rfl ne, nofun⟩
    | lookup d =>
      replace hm : m d x.2 = true := hm
      exact ⟨(0, x.2), s, _, by simp [tblStepBy, (rep.lookup_hit ok st hm).1], .lookup mem hm, rep₀,
        nofun, fun _ => rfl, fun _ _ => rfl⟩
    | find d =>
      replace hm : m d x.2 = true := hm
      exact ⟨(0, x.2), s, _, by simp [tblStepBy, (rep.lookup_hit ok st hm).2], .find mem hm, rep₀,
        nofun, fun _ => rfl, fun _ _ => rfl⟩
  · push Not at ex
    have miss : ∀ x, Stored chains x → m op.arg x.2 = false := fun x st => by simpa using ex x st
    have missS : ∀ e ∈ contents chains, m op.arg e = false := fun e ⟨a, st⟩ => miss (a, e) st
    cases op with
    | insert d offer =>
      replace miss : ∀ x, Stored chains x → m d x.2 = false := miss
      obtain ⟨al, e⟩ | ⟨a, b, heap', htbl', al, e, rep'⟩ := rep.insert_new ok miss offer
      · refine ⟨(-1, d), s,
          _, by simp [tblStepBy, e], .insertFail missS, rep₀, ?_, fun _ => rfl, nofun⟩
        rintro _ _ ⟨⟩
        exact ⟨fun _ => ⟨missS, al⟩, fun _ => rfl⟩
      · refine ⟨(0, d), ⟨heap', htbl'⟩, _, by simp [tblStepBy, e], .insert missS,
          ⟨_, rep', contents_insert⟩, ?_, fun ne => absurd rfl ne, nofun⟩
        rintro _ _ ⟨⟩
        simp [al]
    | remove d =>
      replace miss : ∀ x, Stored chains x → m d x.2 = false := miss
      exact ⟨(-1, d), s, _, by simp [tblStepBy, rep.remove_miss ok miss], .removeMiss missS, rep₀,
        nofun, fun _ => rfl, nofun⟩
    | lookup d =>
      replace miss : ∀ x, Stored chains x → m d x.2 = false := miss
      exact ⟨(-1, d), s,
        _, by simp [tblStepBy, (rep.lookup_miss ok miss).1], .lookupMiss missS, rep₀,
        nofun, fun _ => rfl, fun _ _ => rfl⟩
    | find d =>
      replace miss : ∀ x, Stored chains x → m d x.2 = false := miss
      exact ⟨(0, d), s, _, by simp [tblStepBy, (rep.lookup_miss ok miss).2], .findMiss missS, rep₀,
        nofun, fun _ => rfl, fun _ _ => rfl⟩

end Spec

/-- The operations on records are those on data with a key. -/
lemma chtblStepKv_eq (kv : P → SweetListKv) : chtblStepKv kv = tblStepBy (kvKey kv) := by
  funext s op
  cases op <;> rfl

/-- The operations on plain data are those on data that are their own key. -/
lemma chtblStep_eq {s : TblSt D D} {op : TblOp D} (ne : ∀ d, op ≠ .find d) :
    chtblStep s op = tblStepBy id s op := by
  cases op with
  | find d => exact absurd rfl (ne d)
  | _ => rfl

/-- The header sizes add up to the number of elements. -/
lemma TblRep.size_headers {key : D → K} {h m heap htbl n} {chains : Nat → List (Addr × D)}
    (rep : TblRep key h m heap htbl n chains) : htbl.size = (htbl.table.map List_.size).sum := by
  have e : htbl.table.map List_.size = (List.range n).map fun i => ((chains i).length : Int) := by
    apply List.ext_getElem? fun i => ?_
    by_cases lt : i < n
    · obtain ⟨L, hL, repL⟩ := rep.lists i lt
      simp [hL, repL.size, lt]
    · have le : htbl.table.length ≤ i := by rw [rep.len]; omega
      simp [le, lt]
  rw [rep.size, e]
  rfl

/-- The transition system of `step`, started in `s₀`, serves every list of the operations `ok` and
refines the finite map: every state it reaches is a table of `n` buckets, the history is one of the
map, and every further operation does what it does on the map. -/
def RefinesMap (step : TblSt K D → TblOp D → Option ((Int × D) × TblSt K D)) (ok : TblOp D → Prop)
    (key : D → K) (h : K → Int) (m : D → D → Bool) (n : Nat) (s₀ : TblSt K D) : Prop :=
  (∀ ops, (∀ op ∈ ops, ok op) → ∃ tr s, Run (Answers step) s₀ tr s ∧ inputs tr = ops) ∧
  ∀ tr s, Run (Answers step) s₀ tr s →
    ∃ chains, TblRep key h m s.heap s.htbl n chains ∧
      s.htbl.size = (s.htbl.table.map List_.size).sum ∧
      Run (MapTrans m) ∅ tr (contents chains) ∧
      ∀ op, ok op → ∃ o s' S', OpSpec step key h m n s (contents chains) op o s' S'

/-- A family of operations whose every outcome is the one of the map refines the map. -/
lemma refinesMap_of_spec {step : TblSt K D → TblOp D → Option ((Int × D) × TblSt K D)}
    {ok : TblOp D → Prop} {key : D → K} {h : K → Int} {m : D → D → Bool} {n : Nat} {s₀ : TblSt K D}
    (only : ∀ s op r, step s op = some r → ok op) (init : TblIs key h m n s₀ ∅)
    (spec : ∀ s S op, TblIs key h m n s S → ok op →
      ∃ o s' S', OpSpec step key h m n s S op o s' S') :
    RefinesMap step ok key h m n s₀ := by
  constructor
  · refine fun ops all => Run.of_inputs step s₀ ok (fun s => ∃ S, TblIs key h m n s S) ⟨∅, init⟩
      (fun s op ⟨S, rep⟩ hop => ?_) ops all
    obtain ⟨o, s', S', sp⟩ := spec s S op rep hop
    exact ⟨o, s', sp.step_eq, S', sp.rep⟩
  · intro tr s run
    have sim : ∃ S, Run (MapTrans m) ∅ tr S ∧ TblIs key h m n s S := by
      refine run.simulate (TblIs key h m n) init fun s a s' S rep st => ?_
      obtain ⟨op, o⟩ := a
      obtain ⟨o1, s1, S', sp⟩ := spec s S op rep (only _ _ _ st)
      have e := sp.step_eq
      rw [st] at e
      cases e
      exact ⟨S', sp.refines, sp.rep⟩
    obtain ⟨_, runM, rep⟩ := sim
    have rep₀ := rep
    obtain ⟨chains, rep, rfl⟩ := rep
    exact ⟨chains, rep, rep.size_headers, runM, fun op => spec s _ op rep₀⟩

/-- The operations on records refine the map. -/
lemma refinesMap_kv {kv : P → SweetListKv} {h : List UInt8 → Int} {m : P → P → Bool}
    {buckets : Int} {destroy : Bool} {htbl} (heap : Heap (ListElmt P)) (pos : 0 < buckets)
    (ok : HashOk (kvKey kv) h m) (e : chtblInit true buckets h m destroy = some htbl) :
    RefinesMap (chtblStepKv kv) (fun _ => True) (kvKey kv) h m buckets.toNat ⟨heap, htbl⟩ := by
  refine refinesMap_of_spec (fun _ _ _ _ => trivial) ⟨_, TblRep.init heap pos e, contents_nil⟩ ?_
  intro s S op rep _
  rw [chtblStepKv_eq]
  exact tblStepBy_spec ok rep op

/-- The operations on plain data refine the map. -/
lemma refinesMap_plain {h : D → Int} {m : D → D → Bool} {buckets : Int} {destroy : Bool} {htbl}
    (heap : Heap (ListElmt D)) (pos : 0 < buckets) (ok : HashOk id h m)
    (e : chtblInit true buckets h m destroy = some htbl) :
    RefinesMap chtblStep (fun op => ∀ d, op ≠ .find d) id h m buckets.toNat ⟨heap, htbl⟩ := by
  refine refinesMap_of_spec ?_ ⟨_, TblRep.init heap pos e, contents_nil⟩ ?_
  · rintro s op r st d rfl
    simp [chtblStep] at st
  · intro s S op rep ne
    obtain ⟨o, s', S', sp⟩ := tblStepBy_spec ok rep op
    refine ⟨o, s', S', ?_, sp.refines, sp.rep, sp.alloc, sp.unchanged, sp.readOnly, ?_⟩
    · rw [chtblStep_eq ne, sp.step_eq]
    · intro q hq
      rw [chtblStep_eq nofun, chtblStep_eq nofun]
      exact sp.others q hq

/-- Both families of hash table operations refine the finite map, from every successful `chtbl_init`
in whatever heap, for every hash and match that suit each other. -/
theorem chtbl_refines_map (buckets : Int) (destroy : Bool) (pos : 0 < buckets) :
    (∀ (kv : P → SweetListKv) (h : List UInt8 → Int) (m : P → P → Bool) heap htbl,
      HashOk (kvKey kv) h m → chtblInit true buckets h m destroy = some htbl →
      RefinesMap (chtblStepKv kv) (fun _ => True) (kvKey kv) h m buckets.toNat ⟨heap, htbl⟩) ∧
    (∀ (h : D → Int) (m : D → D → Bool) heap htbl,
      HashOk id h m → chtblInit true buckets h m destroy = some htbl →
      RefinesMap chtblStep (fun op => ∀ d, op ≠ .find d) id h m buckets.toNat ⟨heap, htbl⟩) :=
  ⟨fun _ _ _ heap _ ok e => refinesMap_kv heap pos ok e,
    fun _ _ heap _ ok e => refinesMap_plain heap pos ok e⟩

/-- Records can be hashed by the length of their keys. -/
lemma hashOk_length : HashOk (kvKey id) (fun k => (k.length : Int))
    (fun a b : SweetListKv => decide (a.key = b.key)) := by
  refine ⟨fun k => by
    simp, fun a => by simp, fun a b e => ?_, fun a b c e e' => ?_, fun a b e => ?_⟩
  · simpa using (of_decide_eq_true e).symm
  · simpa using (of_decide_eq_true e).trans (of_decide_eq_true e')
  · simp [kvKey, of_decide_eq_true e]

/-- A table of eleven buckets over records hashed by the length of their keys. -/
theorem chtbl_refines_map_eleven :
    (0 : Int) < 11 ∧ HashOk (kvKey id) (fun k => k.length) (fun a b => decide (a.key = b.key)) ∧
    ∃ htbl, chtblInit true 11 (fun k => (k.length : Int))
        (fun a b : SweetListKv => decide (a.key = b.key)) true = some htbl ∧
      RefinesMap (chtblStepKv id) (fun _ => True) (kvKey id) (fun k => k.length)
        (fun a b => decide (a.key = b.key)) 11 ⟨Heap.empty, htbl⟩ := by
  have ok := hashOk_length
  refine ⟨by decide, ok, _, rfl, ?_⟩
  exact (chtbl_refines_map (D := Nat) 11 true (by decide)).1 id _ _ Heap.empty _ ok rfl

end SweetClib.Hash
