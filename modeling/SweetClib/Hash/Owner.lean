import SweetClib.Hash.Refine

/-!
# Ownership of the elements

A table owns the elements it accepted: what its buckets hold (`held`) are the elements accepted so
far that no removal handed back. At the end `chtbl_destroy` passes exactly these to `destroy`: the
bucket lists share no cell, so that emptying one leaves the others as they are
(`chtblDestroyLoop_spec`), and the loop of `list_destroy` ends because the header of a bucket
counts its elements. `chtbl_ownership` puts this together for whole runs of both families of
operations.
-/

namespace SweetClib.Hash
open SweetClib.Lib SweetClib.Linked

variable {K D P : Type*}

/-- The elements a call accepts: that of an insertion that returns 0. -/
def accepted : TblOp D × (Int × D) → Multiset D
  | (.insert data _, o) => if o.1 = 0 then {data} else 0
  | _ => 0

/-- The elements a call hands back: that of a removal that returns 0. -/
def handedBack : TblOp D × (Int × D) → Multiset D
  | (.remove _, o) => if o.1 = 0 then {o.2} else 0
  | _ => 0

/-- The elements in the first `n` buckets. -/
def held (n : Nat) (chains : Nat → List (Addr × D)) : Multiset D :=
  ∑ i ∈ Finset.range n, ((chains i).map Prod.snd : Multiset D)

/-- Every bucket list has the callback. -/
def Callbacks (htbl : CHTbl K D) : Prop :=
  ∀ L ∈ htbl.table, L.destroy = true

section Run

variable {key : D → K} {h : K → Int} {m : D → D → Bool} {n : Nat} {s s' : TblSt K D}
  {chains : Nat → List (Addr × D)}

lemma held_update (chains : Nat → List (Addr × D)) {b : Nat} (l : List (Addr × D)) (lt : b < n) :
    held n (Function.update chains b l) + ((chains b).map Prod.snd : Multiset D) =
      held n chains + (l.map Prod.snd : Multiset D) := by
  have mem : b ∈ Finset.range n := Finset.mem_range.mpr lt
  have rest : ∑ i ∈ (Finset.range n).erase b,
    ((Function.update chains b l i).map Prod.snd : Multiset D) =
      ∑ i ∈ (Finset.range n).erase b, ((chains i).map Prod.snd : Multiset D) := by
    refine Finset.sum_congr rfl fun i hi => ?_
    rw [Function.update_of_ne (Finset.ne_of_mem_erase hi)]
  rw [held, held, ← Finset.add_sum_erase _ _ mem, ← Finset.add_sum_erase _ _ mem, rest,
    Function.update_self]
  abel

/-- A bucket that is not empty is one of the table. -/
lemma TblRep.lt_of_mem {heap : Heap (ListElmt D)} {htbl} (rep : TblRep key h m heap htbl n chains)
    {b x} (mem : x ∈ chains b) : b < n := by
  by_contra le
  rw [rep.outside b (by omega)] at mem
  cases mem

lemma callbacks_set {htbl : CHTbl K D} {b : Int} {list list' : List_} (all : Callbacks htbl)
    (e : chtblList htbl b = some list) (same : list'.destroy = list.destroy) :
    ∀ L ∈ htbl.table.set b.toNat list', L.destroy = true := by
  intro L mem
  obtain mem | rfl := List.mem_or_eq_of_mem_set mem
  · exact all L mem
  · obtain ⟨_, found⟩ := Option.ite_none_left_eq_some.mp e
    rw [same]
    exact all list (List.mem_of_getElem? found)

/-- What a search finds is in a bucket of the table. -/
lemma chtblSearch_list {heap : Heap (ListElmt D)} {htbl : CHTbl K D} {d : D} {b list found}
    (e : chtblSearch key heap htbl d = some (b, list, found)) : chtblList htbl b = some list := by
  unfold chtblSearch at e
  split at e
  · cases e
  · split at e
    · cases e
    next list₁ e₁ =>
      split at e
      · cases e
      · cases e
        exact e₁

/-- An operation changes the table in the header of one bucket at most, and in the size. -/
lemma tblStepBy_htbl {op : TblOp D} {o} (st : tblStepBy key s op = some (o, s')) :
    s'.htbl = s.htbl ∨ ∃ bucket list list' size, chtblList s.htbl bucket = some list ∧
      list'.destroy = list.destroy ∧
      s'.htbl = { s.htbl with table := s.htbl.table.set bucket.toNat list', size := size } := by
  cases op with
  | insert d offer =>
    obtain ⟨r, e, h⟩ := Option.map_eq_some_iff.mp st
    cases h
    unfold chtblInsertBy at e
    split at e
    · cases e
    · split at e
      · cases e
        exact .inl rfl
      · split at e
        · cases e
        · split at e
          · cases e
          next list found =>
            split at e
            · cases e
            next ret heap list' ins =>
              cases e
              exact .inr ⟨_, list, list', _, found, listInsNext_destroy ins, rfl⟩
  | remove d =>
    obtain ⟨r, e, h⟩ := Option.map_eq_some_iff.mp st
    cases h
    unfold chtblRemoveBy at e
    split at e
    · cases e
    · cases e
      exact .inl rfl
    next b list prev _ srch =>
      split at e
      · cases e
      next ret heap list' data rem =>
        split at e
        · cases e
          exact .inr ⟨b, list, list', _, chtblSearch_list srch, listRemNext_destroy rem, rfl⟩
        · cases e
          exact .inr ⟨b, list, list', _, chtblSearch_list srch, listRemNext_destroy rem, rfl⟩
  | lookup d =>
    obtain ⟨r, _, h⟩ := Option.map_eq_some_iff.mp st
    cases h
    exact .inl rfl
  | find d =>
    obtain ⟨r, _, h⟩ := Option.map_eq_some_iff.mp st
    cases h
    exact .inl rfl

lemma tblStepBy_callbacks {op : TblOp D} {o} (st : tblStepBy key s op = some (o, s'))
    (all : Callbacks s.htbl) : Callbacks s'.htbl := by
  obtain same | ⟨bucket, list, list', size, found, destroy, e⟩ := tblStepBy_htbl st
  · rw [same]
    exact all
  · rw [e]
    exact callbacks_set all found destroy

/-- What a table with callbacks holds. -/
structure Owns (key : D → K) (h : K → Int) (m : D → D → Bool) (n : Nat) (s : TblSt K D)
    (c : Multiset D) : Prop where
  rep : ∃ chains, TblRep key h m s.heap s.htbl n chains ∧ held n chains = c
  callbacks : Callbacks s.htbl

/-- An operation hands out what it hands back and takes in what it accepts. -/
lemma Owns.step (ok : HashOk key h m) {c : Multiset D} {a : TblOp D × (Int × D)}
    (own : Owns key h m n s c) (st : Answers (tblStepBy key) s a s') :
    ∃ c', Owns key h m n s' c' ∧ c' + handedBack a = c + accepted a := by
  have callbacks := tblStepBy_callbacks st own.callbacks
  obtain ⟨chains, rep, rfl⟩ := own.rep
  obtain ⟨op, o⟩ := a
  have st : tblStepBy key s op = some (o, s') := st
  have same : s' = s → accepted (op, o) = 0 → handedBack (op, o) = 0 →
      ∃ c', Owns key h m n s' c' ∧ c' + handedBack (op, o) = held n chains + accepted (op, o) := by
    intro e none_in none_out
    exact ⟨held n chains, ⟨⟨chains, e ▸ rep, rfl⟩, callbacks⟩, by rw [none_in, none_out]⟩
  cases op with
  | insert d offer =>
    by_cases ex : ∃ x, Stored chains x ∧ m d x.2 = true
    · obtain ⟨x, stored, hm⟩ := ex
      rw [tblStepBy, rep.insert_dup ok stored hm] at st
      cases st
      exact same rfl rfl rfl
    · push Not at ex
      have miss : ∀ x, Stored chains x → m d x.2 = false := fun x stored => by
        simpa using ex x stored
      obtain ⟨_, e⟩ | ⟨a, b, heap', htbl', _, e, rep'⟩ := rep.insert_new ok miss offer
      · rw [tblStepBy, e] at st
        cases st
        exact same rfl rfl rfl
      · rw [tblStepBy, e] at st
        cases st
        refine ⟨_, ⟨⟨_, rep', rfl⟩, callbacks⟩, ?_⟩
        have lt : b < n := rep'.lt_of_mem (x := (a, d)) (by simp)
        have total := held_update chains ((a, d) :: chains b) lt
        have parts : (((a, d) :: chains b).map Prod.snd : Multiset D) =
            ({d} : Multiset D) + ((chains b).map Prod.snd : Multiset D) := by
          simp
        rw [parts, ← add_assoc] at total
        simpa [handedBack, accepted] using add_right_cancel total
  | remove d =>
    by_cases ex : ∃ x, Stored chains x ∧ m d x.2 = true
    · obtain ⟨x, stored, hm⟩ := ex
      obtain ⟨b, l₁, l₂, heap', htbl', spl, e, rep'⟩ := rep.remove_hit ok stored hm
      rw [tblStepBy, e] at st
      cases st
      refine ⟨_, ⟨⟨_, rep', rfl⟩, callbacks⟩, ?_⟩
      have lt : b < n := rep.lt_of_mem (x := x) (by simp [spl])
      have total := held_update chains (l₁ ++ l₂) lt
      -- the bucket without the element, and the element
      have parts : ((chains b).map Prod.snd : Multiset D) =
          {x.2} + ((l₁ ++ l₂).map Prod.snd : Multiset D) := by
        rw [spl]
        simp
      rw [parts, ← add_assoc] at total
      simpa [handedBack, accepted] using add_right_cancel total
    · push Not at ex
      have miss : ∀ x, Stored chains x → m d x.2 = false := fun x stored => by
        simpa using ex x stored
      rw [tblStepBy, rep.remove_miss ok miss] at st
      cases st
      exact same rfl rfl rfl
  | lookup d =>
    obtain ⟨r, _, h⟩ := Option.map_eq_some_iff.mp st
    cases h
    exact same rfl rfl rfl
  | find d =>
    obtain ⟨r, _, h⟩ := Option.map_eq_some_iff.mp st
    cases h
    exact same rfl rfl rfl

end Run

section Destroy

variable {heap : Heap (ListElmt D)} {lists : List List_} {ls : List (List (Addr × D))}

/-- Bucket lists that share no cell are emptied one after the other. -/
lemma chtblDestroyLoop_spec (reps : List.Forall₂ (Rep heap) lists ls)
    (all : ∀ L ∈ lists, L.destroy = true)
    (apart : ls.Pairwise fun l l' => ∀ x ∈ l, ∀ y ∈ l', x.1 ≠ y.1) (d : D) :
    ∃ heap' lists',
      chtblDestroyLoop d heap lists = some (heap', lists', ls.flatMap (List.map Prod.snd)) ∧
      lists'.length = lists.length ∧ ∀ L ∈ lists', L.size = 0 ∧ L.head = none ∧ L.tail = none := by
  induction lists generalizing heap ls with
  | nil =>
    cases reps
    exact ⟨heap, [], rfl, rfl, nofun⟩
  | cons L lists ih =>
    cases reps with
    | @cons _ l _ ls rep reps =>
      obtain ⟨away, apart⟩ := List.pairwise_cons.mp apart
      obtain ⟨heap₁, L', e, rep', frame⟩ := listDestroy_spec rep (all L List.mem_cons_self) d
      -- the other lists do not notice
      have reps₁ : List.Forall₂ (Rep heap₁) lists ls := by
        obtain ⟨len, each⟩ := List.forall₂_iff_zip.mp reps
        refine List.forall₂_iff_zip.mpr
          ⟨len, fun {L₂ l₂} mem => (each mem).frame fun x hx => frame x.1 fun hm => ?_⟩
        obtain ⟨y, hy, eq⟩ := List.mem_map.mp hm
        exact away l₂ (List.of_mem_zip mem).2 y hy x hx eq
      obtain ⟨heap', lists', loop, len, empty⟩ :=
        ih reps₁ (fun M hM => all M (List.mem_cons_of_mem _ hM)) apart
      refine ⟨heap', L' :: lists',
        ?_, by rw [List.length_cons, len, List.length_cons], fun M hM => ?_⟩
      · simp only [chtblDestroyLoop, e, loop, Option.map_some, List.flatMap_cons]
      · obtain rfl | hM := List.mem_cons.mp hM
        · exact ⟨rep'.size, rep'.chain, rep'.tail⟩
        · exact empty M hM

end Destroy

section Ownership

variable {key : D → K} {h : K → Int} {m : D → D → Bool} {n : Nat}

/-- The elements of the buckets, one bucket after the other. -/
lemma held_eq (chains : Nat → List (Addr × D)) (n : Nat) :
    ((((List.range n).map chains).flatMap (List.map Prod.snd) : List D) : Multiset D) =
      held n chains := by
  induction n with
  | zero => rfl
  | succ n ih =>
    rw [held, Finset.sum_range_succ, ← held, ← ih, List.range_succ, List.map_append,
      List.flatMap_append, ← Multiset.coe_add]
    simp

/-- At the end everything is destroyed and every bucket is empty. -/
lemma Owns.chtblDestroy {s : TblSt K D} {c : Multiset D} (own : Owns key h m n s c) (d : D) :
    ∃ heap' lists destroyed, chtblDestroy s.heap s.htbl d = some (heap', lists, destroyed) ∧
      (destroyed : Multiset D) = c ∧ lists.length = n ∧
      ∀ L ∈ lists, L.size = 0 ∧ L.head = none ∧ L.tail = none := by
  obtain ⟨chains, rep, rfl⟩ := own.rep
  have reps : List.Forall₂ (Rep s.heap) s.htbl.table ((List.range n).map chains) := by
    refine List.forall₂_iff_get.mpr ⟨by simp [rep.len], fun i lt lt' => ?_⟩
    obtain ⟨L, found, repL⟩ := rep.lists i (by simpa using lt')
    obtain ⟨_, rfl⟩ := List.getElem?_eq_some_iff.mp found
    simpa using repL
  have apart : ((List.range n).map chains).Pairwise fun l l' => ∀ x ∈ l, ∀ y ∈ l', x.1 ≠ y.1 := by
    refine List.pairwise_map.mpr (List.nodup_range.imp fun {i j} ne x hx y hy => ?_)
    exact rep.disjoint hx hy ne
  obtain ⟨heap', lists, e, len, empty⟩ := chtblDestroyLoop_spec reps own.callbacks apart d
  refine ⟨heap', lists, _, ?_, held_eq chains n, len.trans rep.len, empty⟩
  have count : s.htbl.buckets.toNat = s.htbl.table.length := by
    rw [rep.buckets, rep.len, Int.toNat_natCast]
  rw [Hash.chtblDestroy, count, if_neg (lt_irrefl _), List.take_length, e]

lemma tblStepBy_empty {s : TblSt K D} (empty : s.htbl.table = []) (op : TblOp D) :
    tblStepBy key s op = none := by
  have search : ∀ d, chtblSearch key s.heap s.htbl d = none := by
    intro d
    have list : ∀ b, chtblList s.htbl b = none := by simp [chtblList, empty]
    simp only [chtblSearch, list]
    split <;> rfl
  cases op <;>
    simp [tblStepBy, chtblInsertBy, chtblRemoveBy, chtblLookupBy, chtblFindBy, search]

/-- The elements of a table are accounted for: with at least one bucket every sequence of calls is
answered, and when `chtbl_destroy` ends a run, it returns, the elements accepted are those handed
back and those destroyed, and every bucket is empty. -/
structure Accounted (step : TblSt K D → TblOp D → Option ((Int × D) × TblSt K D))
    (ok : TblOp D → Prop) (buckets : Int) (s₀ : TblSt K D) : Prop where
  answered : 0 < buckets → ∀ ops, (∀ op ∈ ops, ok op) → ∃ tr s, Run (Answers step) s₀ tr s ∧
    inputs tr = ops
  balance : ∀ tr s, Run (Answers step) s₀ tr s → ∀ d, ∃ heap' lists destroyed,
    chtblDestroy s.heap s.htbl d = some (heap', lists, destroyed) ∧
    (tr.map accepted).sum = (tr.map handedBack).sum + destroyed ∧
    lists.length = buckets.toNat ∧ ∀ L ∈ lists, L.size = 0 ∧ L.head = none ∧ L.tail = none

/-- A family of operations that are those on data with a key accounts for the elements. -/
lemma balance_of_step {step : TblSt K D → TblOp D → Option ((Int × D) × TblSt K D)}
    (sub : ∀ s op r, step s op = some r → tblStepBy key s op = some r) (ok : HashOk key h m)
    {buckets : Int} {heap : Heap (ListElmt D)} {htbl}
    (e : chtblInit true buckets h m true = some htbl) {tr s}
    (run : Run (Answers step) ⟨heap, htbl⟩ tr s) (d : D) :
    ∃ heap' lists destroyed, chtblDestroy s.heap s.htbl d = some (heap', lists, destroyed) ∧
      (tr.map accepted).sum = (tr.map handedBack).sum + destroyed ∧
      lists.length = buckets.toNat ∧ ∀ L ∈ lists, L.size = 0 ∧ L.head = none ∧ L.tail = none := by
  by_cases pos : 0 < buckets
  · have callbacks : Callbacks htbl := by
      cases e
      intro L mem
      rw [List.eq_of_mem_replicate mem]
      rfl
    have init : Owns key h m buckets.toNat ⟨heap, htbl⟩ 0 :=
      ⟨⟨_, TblRep.init heap pos e, by simp [held]⟩, callbacks⟩
    obtain ⟨c, own, total⟩ := run.conserve (Owns key h m buckets.toNat) accepted handedBack init
      fun s a s' c own st => own.step ok (sub _ _ _ st)
    obtain ⟨heap', lists, destroyed, e', all, len, empty⟩ := own.chtblDestroy d
    exact ⟨heap', lists, destroyed, e', by rw [all, add_comm, total], len, empty⟩
  · -- without buckets the run is empty
    have none : buckets.toNat = 0 := by omega
    have bare : htbl.table = [] ∧ htbl.buckets.toNat = 0 := by
      cases e
      simp [none]
    have start : tr = [] ∧ s = ⟨heap, htbl⟩ := by
      refine run.history (fun tr s => tr = [] ∧ s = ⟨heap, htbl⟩)
        ⟨rfl, rfl⟩ fun tr s a s' ⟨_, eq⟩ st => ?_
      have st := sub _ _ _ st
      rw [eq, tblStepBy_empty bare.1] at st
      cases st
    obtain ⟨rfl, rfl⟩ := start
    exact ⟨heap, [],
      [], by simp [Hash.chtblDestroy, bare, chtblDestroyLoop], rfl, by simp [none], nofun⟩

end Ownership

/-- Both families of hash table operations account for their elements, from every successful
`chtbl_init` with a `destroy` callback, for every hash and match that suit each other. -/
theorem chtbl_ownership (buckets : Int) :
    (∀ (kv : P → SweetListKv) (h : List UInt8 → Int) (m : P → P → Bool) heap htbl,
      HashOk (kvKey kv) h m → chtblInit true buckets h m true = some htbl →
      Accounted (chtblStepKv kv) (fun _ => True) buckets ⟨heap, htbl⟩) ∧
    (∀ (h : D → Int) (m : D → D → Bool) heap htbl,
      HashOk id h m → chtblInit true buckets h m true = some htbl →
      Accounted chtblStep (fun op => ∀ d, op ≠ .find d) buckets ⟨heap, htbl⟩) := by
  constructor
  · intro kv h m heap htbl ok e
    refine ⟨fun pos => (refinesMap_kv heap pos ok e).1, fun tr s run => balance_of_step ?_ ok e run⟩
    intro s op r st
    rwa [← chtblStepKv_eq]
  · intro h m heap htbl ok e
    refine ⟨fun pos => (refinesMap_plain heap pos ok e).1,
      fun tr s run => balance_of_step ?_ ok e run⟩
    intro s op r st
    rw [← chtblStep_eq ?_]
    · exact st
    · rintro d rfl
      cases st

/-- Three records are accepted, one is handed back and the others are destroyed. -/
theorem chtbl_ownership_three : ∃ htbl s,
    chtblInit true 2 (fun k : List UInt8 => (k.length : Int))
      (fun a b : SweetListKv => decide (a.key = b.key)) true = some htbl ∧
    Run (Answers (chtblStepKv id)) ⟨Heap.empty, htbl⟩
      [(.remove ⟨[1], []⟩, (0, ⟨[1], [7]⟩)), (.insert ⟨[1], [9]⟩ (some 4), (1, ⟨[1], [9]⟩)),
        (.insert ⟨[], []⟩ (some 3), (0, ⟨[], []⟩)), (.insert ⟨[2], [8]⟩ (some 2), (0, ⟨[2], [8]⟩)),
        (.insert ⟨[1], [7]⟩ (some 1), (0, ⟨[1], [7]⟩))] s ∧
    ∃ heap' lists destroyed, chtblDestroy s.heap s.htbl ⟨[], []⟩ = some (heap', lists, destroyed) ∧
      ({⟨[], []⟩, ⟨[2], [8]⟩, ⟨[1], [7]⟩} : Multiset SweetListKv) = {⟨[1], [7]⟩} + destroyed := by
  have run : Run (Answers (chtblStepKv id))
      ⟨Heap.empty,
        { buckets := 2, h := fun k => k.length, match_ := fun a b => decide (a.key = b.key),
          destroy := true, size := 0, table := [listInit true, listInit true] }⟩
      [(.remove ⟨[1], []⟩, (0, ⟨[1], [7]⟩)), (.insert ⟨[1], [9]⟩ (some 4), (1, ⟨[1], [9]⟩)),
        (.insert ⟨[], []⟩ (some 3), (0, ⟨[], []⟩)), (.insert ⟨[2], [8]⟩ (some 2), (0, ⟨[2], [8]⟩)),
        (.insert ⟨[1], [7]⟩ (some 1), (0, ⟨[1], [7]⟩))] _ :=
    .cons (.cons (.cons (.cons (.cons .nil rfl) rfl) rfl) rfl) rfl
  obtain ⟨heap', lists, destroyed, e, total, _⟩ :=
    ((chtbl_ownership (D := Nat) 2).1 id _ _ Heap.empty _ hashOk_length rfl).balance _ _ run
      ⟨[], []⟩
  exact ⟨_, _, rfl, run, heap', lists, destroyed, e, total⟩

end SweetClib.Hash
