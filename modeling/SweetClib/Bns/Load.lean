import SweetClib.Bns.Loader
import Mathlib.Data.List.TakeWhile

/-!
# What the tables hold

The loop stops at the first line whose first column it has seen before, since `chtbl_insert_kv`
then returns 1. `loaded` are the lines before that one; the table holds exactly their records
(`loadLoop_spec`).
-/

namespace SweetClib.Bns
open SweetClib.Lib SweetClib.Linked SweetClib.Hash

/-- The text of a file of lines that end in a newline. -/
def fileOf (lines : List Line) : List UInt8 := lines.flatMap fun line => line.chars ++ [10]

/-- A column of a line, which is empty if there is none. -/
def column (n : Nat) (line : Line) : List UInt8 := (columns line.chars)[n]?.getD []

/-- The column that the row loop has read. -/
lemma column_eq {n : Nat} {line : Line} {f : List UInt8}
    (found : (columns line.chars)[n]? = some f) : column n line = f := by
  rw [column, found]
  rfl

/-- A column is not longer than its line. -/
lemma column_length_le (n : Nat) (line : Line) : (column n line).length ≤ line.chars.length := by
  rw [column]
  cases found : (columns line.chars)[n]? with
  | none => exact Nat.zero_le _
  | some f => exact (sublist_of_columns (List.mem_of_getElem? found)).length_le

lemma column_plain (n : Nat) (line : Line) : 0 ∉ column n line := by
  rw [column]
  cases found : (columns line.chars)[n]? with
  | none => exact List.not_mem_nil
  | some f =>
    exact fun zero =>
      line.terminated ((sublist_of_columns (List.mem_of_getElem? found)).subset zero)

/-- The record of a line. -/
def entry (n : Nat) (line : Line) : SweetListKv := { key := column 0 line, value := column n line }

/-- The lines before the first one whose first column was seen before. -/
def loaded (seen : List (List UInt8)) : List Line → List Line
  | [] => []
  | line :: lines =>
    if column 0 line ∈ seen then [] else line :: loaded (seen ++ [column 0 line]) lines

/-- The lines a loader reads as they are: they fit its buffers, have the column of the value, and
that one and the first one are shorter than the part of `tmp` that is cleared. -/
structure Readable (cfg : Loader) (size : Nat) (line : Line) : Prop where
  length : line.chars.length < cfg.lineSize - 1
  room : line.chars.length ≤ size
  cleared : cfg.clear ≤ size
  exists_column : cfg.column < (columns line.chars).length
  short : ∀ n, n = 0 ∨ n = cfg.column → (column n line).length < cfg.clear

section Round

variable {cfg : Loader} {line : Line} {tmp : Buf}

lemma fgets_line {size : Nat} (fits : line.chars.length < size - 1) (rest : List UInt8)
    (eof : Bool) :
    fgets size ⟨line.chars ++ 10 :: rest, eof⟩ = (line.chars ++ [10], ⟨rest, eof⟩) := by
  have take : ∀ (l : List UInt8) n, l.length < n → 10 ∉ l →
      takeLine n (l ++ 10 :: rest) = l ++ [10] := by
    intro l
    induction l with
    | nil =>
      intro n lt _
      obtain ⟨m, rfl⟩ := Nat.exists_eq_succ_of_ne_zero (Nat.ne_of_gt lt)
      rfl
    | cons c l ih =>
      intro n lt single
      obtain ⟨m, rfl⟩ := Nat.exists_eq_succ_of_ne_zero (Nat.ne_of_gt (Nat.zero_lt_of_lt lt))
      have newline : c ≠ 10 := fun e => single (by rw [e]; exact List.mem_cons_self)
      rw [List.cons_append, takeLine, if_neg newline,
        ih m (Nat.lt_of_succ_lt_succ lt) fun mem => single (List.mem_cons_of_mem c mem)]
      rfl
  have whole : (line.chars ++ [10]).takeWhile (· ≠ 0) = line.chars ++ [10] := by
    apply List.takeWhile_eq_self_iff.mpr
    intro c mem
    simp only [ne_eq, decide_not, Bool.not_eq_eq_eq_not, Bool.not_true, decide_eq_false_iff_not]
    rintro rfl
    rcases List.mem_append.mp mem with mem | mem
    · exact line.terminated mem
    · simp at mem
  simp only [fgets, take line.chars (size - 1) fits line.single, whole]
  simp

lemma storeColumn_eq (col : Nat) {n : Nat} {f : List UInt8} {data : Entry}
    (read : n = 0 ∨ n = col → tmp.str = some f) :
    storeColumn col n tmp data =
      some { key := if n = 0 then some f else data.key, value := if n = col then some f
        else data.value } := by
  rw [storeColumn]
  by_cases zero : n = 0
  · by_cases same : n = col
    · simp [zero, ← same, read (.inl zero)]
    · rw [zero] at same
      simp [zero, same, read (.inl zero)]
  · by_cases same : n = col
    · rw [same] at zero
      simp [zero, same, read (.inr same)]
    · simp [zero, same]

/-- The row loop sets the key and the value to the columns of the line. -/
lemma load_row (readable : Readable cfg tmp.length line) :
    ∃ tmp', rowLoop cfg.clear (storeColumn cfg.column) ((line.chars ++ [10]).length + 1) 0
      (line.chars ++ [10]) tmp
        ⟨none, none⟩ = some (⟨some (column 0 line), some (column cfg.column line)⟩, tmp') ∧
          tmp'.length = tmp.length := by
  have fits : ∀ f ∈ columns line.chars, f.length ≤ tmp.length := by
    intro f mem
    exact (sublist_of_columns mem).length_le.trans readable.room
  obtain ⟨data, tmp', loop, ⟨key, value⟩, len⟩ := rowLoop_invariant (storeColumn cfg.column)
    (fun n data => data.key = (if n = 0 then none else some (column 0 line)) ∧
      data.value = if n ≤ cfg.column then none else some (column cfg.column line))
    ((line.chars ++ [10]).length + 1) 0 tmp ⟨none, none⟩ line.single readable.cleared fits
      ⟨rfl, by simp⟩
    (fun i f b data found same inv => by
      have col : column i line = f := column_eq found
      have plain : 0 ∉ f :=
        fun zero => line.terminated ((sublist_of_columns (List.mem_of_getElem? found)).subset zero)
      rw [Nat.zero_add] at inv ⊢
      refine ⟨_, storeColumn_eq cfg.column (f := f) fun picked => str_refill plain ?_, ?_, ?_⟩
      · rw [← col]
        exact readable.short i picked
      · by_cases zero : i = 0
        · subst zero
          simp [col]
        · simp [zero, inv.1]
      · rcases Nat.lt_trichotomy i cfg.column with lt | eq | gt
        · simp [inv.2, Nat.ne_of_lt lt, Nat.le_of_lt lt, Nat.succ_le_of_lt lt]
        · simp [← eq, col]
        · simp [inv.2, Nat.ne_of_gt gt, Nat.not_le_of_gt gt,
            Nat.not_le_of_gt (Nat.lt_succ_of_lt gt)])
    (by simp)
  have some_column := readable.exists_column
  rw [Nat.zero_add, if_neg (by omega)] at key
  rw [Nat.zero_add, if_neg (by omega)] at value
  refine ⟨tmp', ?_, len⟩
  rw [loop, ← key, ← value]

/-- No terminator in the part of the buffer that is not cleared. -/
def Stale (clear : Nat) (tmp : Buf) : Prop := 0 ∉ tmp.drop clear

/-- A row leaves a stale buffer stale: its fields hold no terminator. -/
lemma Stale.refill {clear : Nat} {f : List UInt8} (stale : Stale clear tmp) (plain : 0 ∉ f) :
    Stale clear (refill clear f tmp) := by
  rw [Stale]
  rcases Nat.le_total f.length clear with le | le
  · rw [drop_refill le_rfl le]
    exact stale
  · rw [refill_of_le le]
    intro mem
    rcases List.mem_append.mp (List.mem_of_mem_drop mem) with mem | mem
    · exact plain mem
    · exact stale (List.drop_subset_drop_left tmp le mem)

/-- A field behind which a stale buffer is not cleared is not terminated. -/
lemma Stale.str_refill {clear : Nat} {f : List UInt8} (stale : Stale clear tmp) (plain : 0 ∉ f)
    (long : clear ≤ f.length) : (Bns.refill clear f tmp).str = none := by
  rw [refill_of_le long]
  apply if_neg
  intro mem
  rcases List.mem_append.mp mem with mem | mem
  · exact plain mem
  · exact stale (List.drop_subset_drop_left tmp long mem)

/-- A row that ends on a stale buffer has a short key and a short value, and leaves the buffer
stale. -/
lemma of_load_row {rounds : Nat} {r : Entry × Buf} (cleared : cfg.clear ≤ tmp.length)
    (stale : Stale cfg.clear tmp)
    (row : rowLoop cfg.clear (storeColumn cfg.column) rounds 0 (line.chars ++ [10]) tmp
      ⟨none, none⟩ = some r) :
    (∀ n f, n = 0 ∨ n = cfg.column → (columns line.chars)[n]? = some f → f.length < cfg.clear) ∧
    Stale cfg.clear r.2 := by
  have plain (f) (mem : f ∈ columns line.chars) : 0 ∉ f :=
    fun zero => line.terminated ((sublist_of_columns mem).subset zero)
  obtain ⟨each, stale'⟩ := of_rowLoop line.single cleared
    (fun f mem b stale => stale.refill (plain f mem)) stale row
  refine ⟨fun n f picked found => ?_, stale'⟩
  obtain ⟨_, b, data, data', stale, stored⟩ := each n f found
  by_contra long
  have none_read := stale.str_refill (plain f (List.mem_of_getElem? found)) (Nat.le_of_not_lt long)
  rw [Nat.zero_add, storeColumn, none_read] at stored
  rcases picked with zero | same
  · simp [zero] at stored
  · simp [same] at stored

/-- The table of the exporters that holds the records `S`. -/
abbrev Table (signed : Bool) (tbl : TblSt (List UInt8) SweetListKv) (S : Set SweetListKv) : Prop :=
  TblIs (kvKey id) (hashpjw signed) matchSweetListKv PRIME_TBLSIZ tbl S

/-- An insertion writes the new element only. -/
lemma chtblInsertKv_frame {heap heap' : Heap (ListElmt SweetListKv)} {htbl htbl'}
    {data : SweetListKv} {offer : Option Addr} {ret : Int}
    (e : chtblInsertKv id heap htbl data offer = some (ret, heap', htbl')) {x : Addr}
    (other : offer ≠ some x) : heap' x = heap x := by
  rw [chtblInsertKv, chtblInsertBy] at e
  split at e
  · cases e
  · split at e
    · cases e
      rfl
    · split at e
      · cases e
      · split at e
        · cases e
        next list _ =>
          split at e
          · cases e
          next ret' heap₁ list' ins =>
            cases e
            rw [listInsNext] at ins
            split at ins
            · cases ins
              rfl
            next new found =>
              cases ins
              apply Heap.set_other
              rintro rfl
              cases offer with
              | none => cases found
              | some a =>
                obtain ⟨_, same⟩ := Option.ite_none_right_eq_some.mp found
                exact other same

/-- The allocations succeed from the round `n` on: no two list elements get the same address, and
none is in use. -/
def Supply (allocs : Nat → Allocs) (n : Nat) (heap : Heap (ListElmt SweetListKv)) : Prop :=
  ∀ i ≥ n, (allocs i).data = true ∧
    ∃ a, (allocs i).elmt = some a ∧ heap a = none ∧ ∀ j ≥ n, (allocs j).elmt = some a → j = i

/-- What a round did to the table: there is a record with the key and the function returns, or the
record was inserted and the loop goes on. -/
inductive Outcome (signed : Bool) (S : Set SweetListKv) (data : SweetListKv) (s s' : LoadSt) :
    Option Int → Prop where
  | present {e} :
    e ∈ S → data.key = e.key →
    Table signed s'.tbl S →
    Outcome signed S data s s' (some 1)
  | inserted :
    (∀ e ∈ S, data.key ≠ e.key) →
    Table signed s'.tbl (insert data S) →
    s'.lineNum = s.lineNum + 1 →
    Outcome signed S data s s' none

/-- One round on a line whose row yields the record `data`. -/
lemma loadRound_row (cfg : Loader) (line : Line) (data : SweetListKv) {signed : Bool}
    {allocs : Nat → Allocs} {s : LoadSt} {S : Set SweetListKv} {rest : List UInt8} {tmp' : Buf}
    (holds : Table signed s.tbl S) (file : s.file = ⟨line.chars ++ 10 :: rest, false⟩)
    (length : line.chars.length < cfg.lineSize - 1) (supply : Supply allocs s.lineNum s.tbl.heap)
    (row : rowLoop cfg.clear (storeColumn cfg.column) ((line.chars ++ [10]).length + 1) 0
      (line.chars ++ [10]) s.tmp ⟨none, none⟩ = some (⟨some data.key, some data.value⟩, tmp')) :
    ∃ ret s', loadRound cfg (allocs s.lineNum) s = some (ret, s') ∧ Outcome signed S data s s' ret ∧
      s'.file = ⟨rest, false⟩ ∧ s'.tmp = tmp' ∧ Supply allocs (s.lineNum + 1) s'.tbl.heap := by
  obtain ⟨alloc, a, elmt, free, distinct⟩ := supply s.lineNum le_rfl
  obtain ⟨o, tbl', S', spec⟩ :=
    tblStepBy_spec (hashOk_hashpjw signed) holds (.insert data (allocs s.lineNum).elmt)
  obtain ⟨⟨ret, heap', htbl'⟩, ins, e⟩ := Option.map_eq_some_iff.mp spec.step_eq
  cases e
  have ins' :
    chtblInsertKv id s.tbl.heap s.tbl.htbl data (allocs s.lineNum).elmt =
      some (ret, heap', htbl') := ins
  have round : loadRound cfg (allocs s.lineNum) s =
      some (if ret ≠ 0 then (some 1, ⟨⟨rest, false⟩, tmp', ⟨heap', htbl'⟩, s.lineNum⟩)
        else (none, ⟨⟨rest, false⟩, tmp', ⟨heap', htbl'⟩, s.lineNum + 1⟩)) := by
    simp only [loadRound, file, fgets_line length, alloc, row, Entry.record]
    change (chtblInsertKv id s.tbl.heap s.tbl.htbl data (allocs s.lineNum).elmt).bind _ = _
    rw [ins', Option.bind_some]
    by_cases zero : ret = 0 <;> simp [zero]
  have supply' : Supply allocs (s.lineNum + 1) heap' := by
    intro i le
    obtain ⟨alloc, b, elmt', free, distinct'⟩ := supply i (by omega)
    refine ⟨alloc, b, elmt', ?_, fun j le => distinct' j (by omega)⟩
    rw [chtblInsertKv_frame ins' ?_, free]
    intro same
    have := distinct' s.lineNum le_rfl same
    omega
  have rep := spec.rep
  cases spec.refines with
  | insertDup mem same =>
    exact ⟨some 1, _, round, .present mem (matchSweetListKv_iff.mp same) rep, rfl, rfl, supply'⟩
  | insertFail none_same =>
    have fails := ((spec.alloc _ _ rfl).mp rfl).2
    simp [elmt, Heap.malloc, free] at fails
  | insert none_same =>
    refine ⟨none, _, round, .inserted ?_ rep rfl, rfl, rfl, supply'⟩
    intro e mem
    exact matchSweetListKv_false_iff.mp (none_same e mem)

/-- The records of lines. -/
def records (n : Nat) (lines : List Line) : Set SweetListKv :=
  {e | ∃ line ∈ lines, entry n line = e}

lemma insert_records (n : Nat) (lines : List Line) (line : Line) :
    insert (entry n line) (records n lines) = records n (lines ++ [line]) := by
  ext e
  simp only [records, Set.mem_insert_iff, Set.mem_ofPred_eq, List.mem_append, List.mem_singleton]
  constructor
  · rintro (rfl | ⟨line', mem, rfl⟩)
    · exact ⟨line, .inr rfl, rfl⟩
    · exact ⟨line', .inl mem, rfl⟩
  · rintro ⟨line', mem | rfl, rfl⟩
    · exact .inr ⟨line', mem, rfl⟩
    · exact .inl rfl

/-- As many rounds as there are lines: the table holds the records of the lines before the first
one whose first column was seen before. -/
lemma loadLoop_spec {signed : Bool} {allocs : Nat → Allocs} {lines before : List Line}
    {s : LoadSt} (readable : ∀ line ∈ lines, Readable cfg s.tmp.length line)
    (holds : Table signed s.tbl (records cfg.column before))
    (file : s.file = ⟨fileOf lines, false⟩) (supply : Supply allocs s.lineNum s.tbl.heap) :
    ∃ ret s', loadLoop cfg allocs lines.length s = some (ret, s') ∧
      Table signed s'.tbl
        (records cfg.column (before ++ loaded (before.map (column 0)) lines)) := by
  induction lines generalizing before s with
  | nil => exact ⟨none, s, rfl, by simpa [loaded] using holds⟩
  | cons line lines ih =>
    have this_line := readable line List.mem_cons_self
    obtain ⟨tmp', row, len⟩ := load_row this_line
    obtain ⟨ret, s₁, round, outcome, file₁, rfl, supply₁⟩ :=
      loadRound_row cfg line (entry cfg.column line) holds
      (by rw [file, fileOf, List.flatMap_cons, List.append_assoc]; rfl) this_line.length supply row
    cases outcome with
    | present mem same holds₁ =>
      obtain ⟨line', mem, rfl⟩ := mem
      have seen : column 0 line ∈ before.map (column 0) := List.mem_map.mpr ⟨line', mem, same.symm⟩
      refine ⟨some 1, s₁, ?_, ?_⟩
      · rw [List.length_cons, loadLoop, file, if_neg Bool.false_ne_true, round]
      · rw [loaded, if_pos seen, List.append_nil]
        exact holds₁
    | inserted fresh holds₁ num =>
      have unseen : column 0 line ∉ before.map (column 0) := by
        intro mem
        obtain ⟨line', mem, same⟩ := List.mem_map.mp mem
        exact fresh _ ⟨line', mem, rfl⟩ same.symm
      rw [insert_records] at holds₁
      rw [← num] at supply₁
      obtain ⟨ret, s', loop, holds'⟩ := ih
        (fun line' mem => by rw [len]; exact readable line' (List.mem_cons_of_mem line mem)) holds₁
          file₁ supply₁
      refine ⟨ret, s', ?_, ?_⟩
      · rw [List.length_cons, loadLoop, file, if_neg Bool.false_ne_true, round]
        exact loop
      · rw [List.map_append, List.map_singleton, List.append_assoc, List.singleton_append] at holds'
        rw [loaded, if_neg unseen]
        exact holds'

/-- A round that does not fault has read its row. -/
lemma of_loadRound {allocs : Allocs} {s : LoadSt} {rest : List UInt8} {r : Option Int × LoadSt}
    (file : s.file = ⟨line.chars ++ 10 :: rest, false⟩)
    (length : line.chars.length < cfg.lineSize - 1) (alloc : allocs.data = true)
    (round : loadRound cfg allocs s = some r) :
    ∃ row, rowLoop cfg.clear (storeColumn cfg.column) ((line.chars ++ [10]).length + 1) 0
      (line.chars ++ [10]) s.tmp ⟨none, none⟩ = some row := by
  simp only [loadRound, file, fgets_line length, alloc] at round
  obtain ⟨row, read, _⟩ := Option.bind_eq_some_iff.mp round
  exact ⟨row, read⟩

/-- Lines with different first columns that are all read, although the buffer is stale: their first
columns and their values are shorter than the part of the buffer that is cleared. -/
lemma loadLoop_stale (cfg : Loader) (before : List Line) {signed : Bool} {allocs : Nat → Allocs}
    {lines : List Line} {s : LoadSt} {size : Nat} (len : s.tmp.length = size)
    (cleared : cfg.clear ≤ size)
    (length : ∀ line ∈ lines, line.chars.length < cfg.lineSize - 1 ∧ line.chars.length ≤ size)
    (enough : ∀ line ∈ lines, cfg.column < (columns line.chars).length)
    (distinct : (before.map (column 0) ++ lines.map (column 0)).Nodup)
    (holds : Table signed s.tbl (records cfg.column before))
    (file : s.file = ⟨fileOf lines, false⟩) (supply : Supply allocs s.lineNum s.tbl.heap)
    (stale : Stale cfg.clear s.tmp) {r : Option Int × LoadSt}
    (loop : loadLoop cfg allocs lines.length s = some r) :
    ∀ line ∈ lines, ∀ n, n = 0 ∨ n = cfg.column → (column n line).length < cfg.clear := by
  induction lines generalizing before s with
  | nil =>
    intro line mem
    cases mem
  | cons line lines ih =>
    have read : s.file = ⟨line.chars ++ 10 :: fileOf lines, false⟩ := by
      rw [file, fileOf, List.flatMap_cons, List.append_assoc]
      rfl
    obtain ⟨fits, room⟩ := length line List.mem_cons_self
    have some_column := enough line List.mem_cons_self
    rw [List.length_cons, loadLoop, file, if_neg Bool.false_ne_true] at loop
    obtain ⟨ret, round⟩ : ∃ ret, loadRound cfg (allocs s.lineNum) s = some ret := by
      apply Option.ne_none_iff_exists'.mp
      intro fault
      rw [fault] at loop
      cases loop
    -- the row was read, so that its key and its value are short
    obtain ⟨row, e⟩ := of_loadRound read fits (supply s.lineNum le_rfl).1 round
    obtain ⟨short, stale'⟩ := of_load_row (len ▸ cleared) stale e
    have this_line (n) (picked : n = 0 ∨ n = cfg.column) : (column n line).length < cfg.clear := by
      have lt : n < (columns line.chars).length := by
        rcases picked with rfl | rfl <;> omega
      exact short n _ picked ((List.getElem?_eq_getElem lt).trans
        (congrArg some (column_eq (List.getElem?_eq_getElem lt)).symm))
    have readable : Readable cfg s.tmp.length line :=
      ⟨fits, len ▸ room, len ▸ cleared, some_column, this_line⟩
    obtain ⟨tmp', row', len'⟩ := load_row readable
    cases Option.some.inj (e.symm.trans row')
    obtain ⟨ret', s₁, round', outcome, file₁, rfl, supply₁⟩ :=
      loadRound_row cfg line (entry cfg.column line) holds read fits supply row'
    rw [round'] at loop
    rw [List.map_cons] at distinct
    cases outcome with
    | present mem same _ =>
      obtain ⟨line', mem, rfl⟩ := mem
      have seen : column 0 line ∈ before.map (column 0) := List.mem_map.mpr ⟨line', mem, same.symm⟩
      exact absurd rfl ((List.nodup_append.mp distinct).2.2 _ seen _ List.mem_cons_self)
    | inserted _ holds₁ num =>
      rw [insert_records] at holds₁
      rw [← num] at supply₁
      have rest := ih _ (len'.trans len)
        (fun line' mem => length line' (List.mem_cons_of_mem line mem))
        (fun line' mem => enough line' (List.mem_cons_of_mem line mem))
        (by rw [List.map_append, List.map_singleton, List.append_assoc]; exact distinct)
        holds₁ file₁ supply₁ stale' loop
      exact List.forall_mem_cons.mpr ⟨this_line, rest⟩

end Round

section Find

variable {signed : Bool} {tbl : TblSt (List UInt8) SweetListKv} {S : Set SweetListKv}

/-- `chtbl_find_kv` returns a record with the key of the query, if the table holds one. -/
lemma Table.find_hit (holds : Table signed tbl S) {e : SweetListKv} (mem : e ∈ S)
    (query : SweetListKv) (same : query.key = e.key) :
    ∃ e' ∈ S, e'.key = query.key ∧ chtblFindKv id tbl.heap tbl.htbl query = some e' := by
  obtain ⟨o, tbl', S', spec⟩ := tblStepBy_spec (hashOk_hashpjw signed) holds (.find query)
  obtain ⟨r, found, e⟩ := Option.map_eq_some_iff.mp spec.step_eq
  cases e
  cases spec.refines with
  | findMiss miss => exact absurd same (matchSweetListKv_false_iff.mp (miss _ mem))
  | find mem' same' => exact ⟨r, mem', (matchSweetListKv_iff.mp same').symm, found⟩

/-- `chtbl_find_kv` returns the query, if the table holds no record with its key. -/
lemma Table.find_miss (holds : Table signed tbl S) {query : SweetListKv}
    (miss : ∀ e ∈ S, query.key ≠ e.key) : chtblFindKv id tbl.heap tbl.htbl query = some query := by
  obtain ⟨o, tbl', S', spec⟩ := tblStepBy_spec (hashOk_hashpjw signed) holds (.find query)
  obtain ⟨r, found, e⟩ := Option.map_eq_some_iff.mp spec.step_eq
  cases e
  cases spec.refines with
  | findMiss _ => exact found
  | find mem same => exact absurd (matchSweetListKv_iff.mp same) (miss _ mem)

end Find

/-- The lines that are loaded have different first columns, none of which was seen before. -/
lemma loaded_nodup {seen : List (List UInt8)} (lines : List Line) (nodup : seen.Nodup) :
    (seen ++ (loaded seen lines).map (column 0)).Nodup := by
  induction lines generalizing seen with
  | nil =>
    rw [loaded, List.map_nil, List.append_nil]
    exact nodup
  | cons line lines ih =>
    rw [loaded]
    split
    · rw [List.map_nil, List.append_nil]
      exact nodup
    next unseen =>
      have grown : (seen ++ [column 0 line]).Nodup := by
        apply List.nodup_append.mpr
        refine ⟨nodup, List.nodup_singleton _, ?_⟩
        intro k mem k' mem' e
        rw [e, List.mem_singleton.mp mem'] at mem
        exact unseen mem
      have := ih grown
      rw [List.append_assoc, List.singleton_append] at this
      exact this

/-- The lines that are loaded come first, and the next one repeats a first column. -/
lemma loaded_split (seen : List (List UInt8)) (lines : List Line) :
    ∃ rest, lines = loaded seen lines ++ rest ∧
      ∀ line ∈ rest.head?, column 0 line ∈ seen ++ (loaded seen lines).map (column 0) := by
  induction lines generalizing seen with
  | nil =>
    refine ⟨[], rfl, ?_⟩
    intro line mem
    cases mem
  | cons line lines ih =>
    rw [loaded]
    split
    next mem =>
      refine ⟨line :: lines, rfl, ?_⟩
      intro line' first
      cases first
      rw [List.map_nil, List.append_nil]
      exact mem
    next unseen =>
      obtain ⟨rest, all, next⟩ := ih (seen ++ [column 0 line])
      refine ⟨rest, ?_, ?_⟩
      · rw [List.cons_append, ← all]
      · intro line' first
        have := next line' first
        rw [List.append_assoc, List.singleton_append] at this
        exact this

/-- The table that a loader starts with holds no record. -/
lemma createHash_start (cfg : Loader) (signed : Bool) (bytes : List UInt8) (tmp : Buf)
    (heap : Heap (ListElmt SweetListKv)) :
    ∃ s : LoadSt, s.file = ⟨bytes, false⟩ ∧ s.tmp = tmp ∧ s.tbl.heap = heap ∧ s.lineNum = 1 ∧
      Table signed s.tbl (records cfg.column []) ∧
      ∀ allocs rounds, createHash cfg signed true (some bytes) tmp heap allocs rounds =
        (loadLoop cfg allocs rounds s).map fun r => (r.1, some r.2) := by
  obtain ⟨htbl, init⟩ :
      ∃ htbl, chtblInit true PRIME_TBLSIZ (hashpjw signed) matchSweetListKv true = some htbl :=
    ⟨_, rfl⟩
  refine ⟨⟨⟨bytes, false⟩, tmp, ⟨heap, htbl⟩, 1⟩, rfl, rfl, rfl, rfl, ?_, fun allocs rounds => ?_⟩
  · refine ⟨_, TblRep.init heap (by decide) init, ?_⟩
    rw [contents_nil]
    ext e
    simp [records]
  · rw [createHash]
    simp only [init]

/-- What a loader leaves in the table. -/
lemma createHash_spec {cfg : Loader} (signed : Bool) {lines : List Line} {tmp : Buf}
    {heap : Heap (ListElmt SweetListKv)} {allocs : Nat → Allocs}
    (readable : ∀ line ∈ lines, Readable cfg tmp.length line) (supply : Supply allocs 1 heap) :
    ∃ ret s, createHash cfg signed true (some (fileOf lines)) tmp heap allocs lines.length =
        some (ret, some s) ∧
      Table signed s.tbl (records cfg.column (loaded [] lines)) := by
  obtain ⟨s₀, file, buffer, same_heap, num, empty, start⟩ :=
    createHash_start cfg signed (fileOf lines) tmp heap
  obtain ⟨ret, s, loop, holds⟩ := loadLoop_spec (by rw [buffer]; exact readable) empty file
    (by rw [num, same_heap]; exact supply)
  exact ⟨ret, s, by rw [start, loop]; rfl, holds⟩

/-- A query for the first column of a loaded line. -/
lemma Table.find_loaded {signed : Bool} {tbl : TblSt (List UInt8) SweetListKv} {n : Nat}
    {lines : List Line} (holds : Table signed tbl (records n (loaded [] lines))) {line : Line}
    (mem : line ∈ loaded [] lines) (value : List UInt8) :
    chtblFindKv id tbl.heap tbl.htbl { key := column 0 line, value } = some (entry n line) := by
  obtain ⟨e, ⟨line', mem', rfl⟩, same, found⟩ :=
    holds.find_hit (e := entry n line) ⟨line, mem, rfl⟩ { key := column 0 line, value } rfl
  have nodup : ((loaded [] lines).map (column 0)).Nodup := loaded_nodup lines List.nodup_nil
  rw [List.inj_on_of_nodup_map nodup mem' mem same] at found
  exact found

/-- Lines with different first columns are all loaded. -/
lemma loaded_of_nodup {lines : List Line} (distinct : (lines.map (column 0)).Nodup) :
    loaded [] lines = lines := by
  obtain ⟨rest, split, next⟩ := loaded_split [] lines
  cases rest with
  | nil =>
    rw [List.append_nil] at split
    exact split.symm
  | cons line rest =>
    -- the line after those that are loaded would repeat a first column
    rw [split, List.map_append, List.nodup_append] at distinct
    exact absurd rfl (distinct.2.2 _ (next line rfl) _ List.mem_cons_self)

/-- For every file of lines of fewer than 8191 characters with different first columns and more
than `effect` columns: once `create_setitem_hash` has read the lines, `chtbl_find_kv` returns the
record of each line for its first column, whatever the buffer held at first, exactly when the first
column and the column `effect` of every line have at most 1024 characters each. -/
theorem setitem_hash_exact (effect : Nat) (signed : Bool) (lines : List Line)
    (heap : Heap (ListElmt SweetListKv)) (allocs : Nat → Allocs) (supply : Supply allocs 1 heap)
    (length : ∀ line ∈ lines, line.chars.length < 8191)
    (enough : ∀ line ∈ lines, effect < (columns line.chars).length)
    (distinct : (lines.map (column 0)).Nodup) :
    (∀ tmp : Vector UInt8 (8192 + 1), ∃ ret s,
      createSetitemHash effect signed true (some (fileOf lines)) tmp heap allocs lines.length =
        some (ret, some s) ∧
      ∀ line ∈ lines, ∀ value, ∃ e,
        chtblFindKv id s.tbl.heap s.tbl.htbl { key := column 0 line, value } = some e ∧
        e.key = column 0 line ∧ e.value = column effect line) ↔
    ∀ line ∈ lines, (column 0 line).length ≤ 1024 ∧ (column effect line).length ≤ 1024 := by
  constructor
  · -- with a buffer that holds no terminator a longer column is not terminated
    intro exact
    obtain ⟨ret, s, run, _⟩ := exact (Vector.replicate _ 120)
    obtain ⟨s₀, file, buffer, same_heap, num, empty, start⟩ := createHash_start
      ⟨8192, 1024 + 1, effect⟩ signed (fileOf lines) (Vector.replicate (8192 + 1) 120).toList heap
    rw [createSetitemHash, start] at run
    obtain ⟨r, loop, _⟩ := Option.map_eq_some_iff.mp run
    have short := loadLoop_stale ⟨8192, 1024 + 1, effect⟩ [] (by rw [buffer, Vector.length_toList])
      (Nat.le_of_ble_eq_true rfl)
        (fun line mem => ⟨length line mem, by have := length line mem; omega⟩)
      enough distinct
      empty file (by rw [num, same_heap]; exact supply)
      (by
        rw [Stale, buffer, Vector.toList_replicate]
        intro mem
        have := (List.mem_replicate.mp (List.mem_of_mem_drop mem)).2
        revert this
        decide) loop
    intro line mem
    exact ⟨Nat.le_of_lt_succ (short line mem 0 (.inl rfl)),
      Nat.le_of_lt_succ (short line mem effect (.inr rfl))⟩
  · intro short tmp
    have readable : ∀ line ∈ lines, Readable ⟨8192, 1024 + 1, effect⟩ tmp.toList.length line := by
      intro line mem
      have := length line mem
      refine ⟨by simpa using this, by simp; omega, by simp, enough line mem, ?_⟩
      rintro n (rfl | rfl)
      · exact Nat.lt_succ_of_le (short line mem).1
      · exact Nat.lt_succ_of_le (short line mem).2
    obtain ⟨ret, s, run, holds⟩ := createHash_spec signed readable supply
    refine ⟨ret, s, run, ?_⟩
    intro line mem value
    exact ⟨_, holds.find_loaded (by rw [loaded_of_nodup distinct]; exact mem) value, rfl, rfl⟩

/-- Addresses for the list elements: the number of the line. -/
def lineAllocs (i : Nat) : Allocs := ⟨true, some i⟩

/-- These addresses are free in an empty heap. -/
lemma supply_lineAllocs (n : Nat) : Supply lineAllocs n Heap.empty := by
  intro i _
  refine ⟨rfl, i, rfl, rfl, ?_⟩
  intro j _ e
  exact Option.some.inj e

/-- The line `"a\tx"`, with its second column as the value. -/
theorem setitem_hash_exact_one :
    Supply lineAllocs 1 Heap.empty ∧
    ∃ ret s,
      createSetitemHash 1 true true (some [97, 9, 120, 10]) (Vector.replicate _ 0) Heap.empty
          lineAllocs 1 =
        some (ret, some s) ∧
      ∃ e, chtblFindKv id s.tbl.heap s.tbl.htbl { key := [97], value := [] } = some e ∧
        e.value = [120] := by
  refine ⟨supply_lineAllocs 1, ?_⟩
  obtain ⟨ret, s, run, found⟩ := (setitem_hash_exact 1 true [⟨[97, 9, 120], by decide, by decide⟩]
    Heap.empty lineAllocs (supply_lineAllocs 1) (by decide) (by decide) (by decide)).mpr (by decide)
    (Vector.replicate _ 0)
  obtain ⟨e, hit, _, value⟩ := found _ List.mem_cons_self []
  exact ⟨ret, s, run, e, hit, value⟩

/-- A row of two columns, and what the buffer holds after each of them. -/
lemma row_two {clear : Nat} {key value : List UInt8} {tmp : Buf} {k v : List UInt8}
    (plain : ∀ c ∈ key, isSep c = false) (plain' : ∀ c ∈ value, isSep c = false)
    (single : 10 ∉ key) (single' : 10 ∉ value) (ne : value ≠ []) (le : clear ≤ tmp.length)
    (room : key.length ≤ tmp.length) (room' : value.length ≤ tmp.length)
    (read₁ : (refill clear key tmp).str = some k)
    (read₂ : (refill clear value (refill clear key tmp)).str = some v) (rounds : Nat) :
    rowLoop clear (storeColumn 1) (rounds + 3) 0 (key ++ 9 :: (value ++ [10])) tmp ⟨none, none⟩ =
      some (⟨some k, some v⟩, refill clear value (refill clear key tmp)) := by
  have len : (refill clear key tmp).length = tmp.length := length_refill le room
  rw [rowLoop_field plain single (.inr rfl) (fun _ => by decide) le room,
    storeColumn_eq 1 (f := k) fun _ => read₁, Option.bind_some, if_neg (by decide),
    rowLoop_field plain' single' (.inl rfl) (fun e => absurd e ne) (by rw [len]; exact le)
    (by rw [len]; exact room'), storeColumn_eq 1 (f := v) fun _ => read₂, Option.bind_some]
  rfl

/-- A line of two columns: one letter, and a letter so many times. -/
def letterLine (k c : UInt8) (n : Nat) (letters : k ≠ 0 ∧ k ≠ 10 ∧ c ≠ 0 ∧ c ≠ 10) : Line where
  chars := [k] ++ 9 :: List.replicate n c
  terminated := by
    simp only [List.singleton_append, List.mem_cons, List.mem_replicate, not_or]
    exact ⟨letters.1.symm, by decide, fun e => letters.2.2.1 e.2.symm⟩
  single := by
    simp only [List.singleton_append, List.mem_cons, List.mem_replicate, not_or]
    exact ⟨letters.2.1.symm, by decide, fun e => letters.2.2.2 e.2.symm⟩

lemma columns_letterLine {k c : UInt8} {n : Nat} {letters} (plain : isSep k = false)
    (plain' : isSep c = false) (pos : n ≠ 0) :
    columns (letterLine k c n letters).chars = [[k], List.replicate n c] := by
  have all : ∀ x ∈ List.replicate n c, isSep x = false := by
    intro x mem
    rw [(List.mem_replicate.mp mem).2]
    exact plain'
  have ne : List.replicate n c ≠ [] := by simpa using pos
  rw [letterLine, columns_append (List.forall_mem_singleton.mpr plain) rfl, columns_single all,
    if_neg ne]

/-- A buffer that is zero from some place on. -/
lemma str_zeros {f : List UInt8} {n : Nat} (plain : 0 ∉ f) (pos : 0 < n) :
    Buf.str (f ++ List.replicate n 0) = some f := by
  obtain ⟨m, rfl⟩ := Nat.exists_eq_succ_of_ne_zero (Nat.ne_of_gt pos)
  rw [Buf.str_append plain, List.replicate_succ, Buf.str_zero, Option.map_some, List.append_nil]

/-- The row of such a line, when the second column reaches behind the part of the buffer that is
cleared: the value goes on with what the buffer held there. -/
lemma row_letterLine {k c : UInt8} {n : Nat} (letters) {clear : Nat} {tmp : Buf} {v : List UInt8}
    (plain : isSep k = false) (plain' : isSep c = false) (some_clear : 1 < clear)
    (long : clear ≤ n) (room : n ≤ tmp.length)
    (read : Buf.str (List.replicate n c ++ tmp.drop n) = some v) :
    rowLoop clear (storeColumn 1) (((letterLine k c n letters).chars ++ [10]).length + 1) 0
        ((letterLine k c n letters).chars ++ [10]) tmp ⟨none, none⟩ =
      some (⟨some [k], some v⟩, List.replicate n c ++ tmp.drop n) := by
  have buffer :
      refill clear (List.replicate n c) (refill clear [k] tmp) = List.replicate n c ++
        tmp.drop n := by
    rw [refill_of_le (by rw [List.length_replicate]; exact long), List.length_replicate,
      drop_refill long (by rw [List.length_singleton]; omega)]
  obtain ⟨rounds, len⟩ : ∃ rounds,
      ((letterLine k c n letters).chars ++ [10]).length + 1 = rounds + 3 :=
    ⟨n + 1, by simp [letterLine]⟩
  rw [len, letterLine, List.append_assoc, List.cons_append]
  rw [← buffer] at read ⊢
  refine row_two (List.forall_mem_singleton.mpr plain) ?_ ?_ ?_ ?_ (by omega) (by simp; omega)
    (by simp; omega) ?_ read
    rounds
  · intro x mem
    rw [(List.mem_replicate.mp mem).2]
    exact plain'
  · rw [List.mem_singleton]
    exact letters.2.1.symm
  · intro mem
    exact letters.2.2.2 (List.mem_replicate.mp mem).2.symm
  · rw [ne_eq, List.replicate_eq_nil_iff]
    omega
  · apply str_refill _ (by simpa using some_clear)
    rw [List.mem_singleton]
    exact letters.1.symm

/-- One round of `create_setitem_hash` on such a line with a key that the table does not hold. -/
lemma loadLoop_letterLine {k c : UInt8} {n : Nat} {letters} (lines : List Line) {signed : Bool}
    {allocs : Nat → Allocs} {s : LoadSt} {S : Set SweetListKv} {v : List UInt8} (rounds : Nat)
    (plain : isSep k = false) (plain' : isSep c = false) (long : 1024 + 1 ≤ n) (fits : n < 8188)
    (holds : Table signed s.tbl S)
    (file : s.file = ⟨fileOf (letterLine k c n letters :: lines), false⟩)
    (supply : Supply allocs s.lineNum s.tbl.heap) (room : n ≤ s.tmp.length)
    (read : Buf.str (List.replicate n c ++ s.tmp.drop n) = some v) (fresh : ∀ e ∈ S, e.key ≠ [k]) :
    ∃ s', loadLoop ⟨8192, 1024 + 1, 1⟩ allocs (rounds + 1) s =
      loadLoop ⟨8192, 1024 + 1, 1⟩ allocs rounds s' ∧
      Table signed s'.tbl (insert ⟨[k], v⟩ S) ∧ s'.file = ⟨fileOf lines, false⟩ ∧
      s'.tmp = List.replicate n c ++ s.tmp.drop n ∧ Supply allocs s'.lineNum s'.tbl.heap := by
  have read_file : s.file = ⟨(letterLine k c n letters).chars ++ 10 :: fileOf lines, false⟩ := by
    rw [file, fileOf, List.flatMap_cons, List.append_assoc]
    rfl
  have row := row_letterLine letters plain plain' (by omega : 1 < 1024 + 1) long room read
  obtain ⟨ret, s', round, outcome, file', tmp', supply'⟩ :=
    loadRound_row ⟨8192, 1024 + 1, 1⟩ (letterLine k c n letters) ⟨[k], v⟩ holds read_file
      (by simp [letterLine]; omega) supply row
  cases outcome with
  | present mem same _ => exact absurd same.symm (fresh _ mem)
  | inserted _ holds' num =>
    rw [← num] at supply'
    refine ⟨s', ?_, holds', file', tmp', supply'⟩
    rw [loadLoop, file, if_neg Bool.false_ne_true, round]

/-- Two lines of this kind with second columns that are too long for the part of the buffer that is
cleared, the second one not longer than the first one: what the first one left behind the second
one becomes part of its value. -/
lemma stale_value {a b x y : UInt8} {n m : Nat} {la lb} (sa : isSep a = false)
    (sb : isSep b = false) (sx : isSep x = false) (sy : isSep y = false) (ab : a ≠ b)
    (long : 1024 + 1 ≤ m) (le : m ≤ n) (fits : n < 8188) :
    ∃ ret s,
      createSetitemHash 1 true true (some (fileOf [letterLine a x n la, letterLine b y m lb]))
      (Vector.replicate _ 0)
        Heap.empty lineAllocs 2 = some (ret, some s) ∧
      ∃ e, chtblFindKv id s.tbl.heap s.tbl.htbl { key := [b], value := [] } = some e ∧
        e.value = List.replicate m y ++ List.replicate (n - m) x := by
  obtain ⟨htbl, init⟩ : ∃ htbl,
    chtblInit true PRIME_TBLSIZ (hashpjw true) matchSweetListKv true = some htbl := ⟨_, rfl⟩
  have empty : Table true ⟨Heap.empty, htbl⟩ ∅ := ⟨_, TblRep.init _ (by decide) init, contents_nil⟩
  have no_x : 0 ∉ List.replicate n x := fun mem => la.2.2.1 (List.mem_replicate.mp mem).2.symm
  have no_yx : 0 ∉ List.replicate m y ++ List.replicate (n - m) x := by
    intro mem
    rcases List.mem_append.mp mem with mem | mem
    · exact lb.2.2.1 (List.mem_replicate.mp mem).2.symm
    · exact la.2.2.1 (List.mem_replicate.mp mem).2.symm
  have read₁ :
      Buf.str (List.replicate n x ++ (List.replicate (8192 + 1) 0).drop n) =
        some (List.replicate n x) := by
    rw [List.drop_replicate]
    exact str_zeros no_x (by omega)
  obtain ⟨s₁, loop₁, holds₁, file₁, tmp₁, supply₁⟩ := loadLoop_letterLine [letterLine b y m lb]
    (s := ⟨⟨fileOf [letterLine a x n la, letterLine b y m lb], false⟩, List.replicate (8192 + 1) 0,
      ⟨Heap.empty, htbl⟩, 1⟩)
    1 sa sx (long.trans le) fits empty rfl (supply_lineAllocs 1)
      (by rw [List.length_replicate]; omega) read₁
    (fun _ mem => absurd mem (Set.notMem_empty _))
  -- the second line is written over a part of the first one
  have behind : s₁.tmp.drop m = List.replicate (n - m) x ++ List.replicate (8192 + 1 - n) 0 := by
    rw [tmp₁, List.drop_append_of_le_length (by rw [List.length_replicate]; exact le),
      List.drop_replicate, List.drop_replicate]
  have read₂ :
      Buf.str (List.replicate m y ++ s₁.tmp.drop m) =
        some (List.replicate m y ++ List.replicate (n - m) x) := by
    rw [behind, ← List.append_assoc]
    exact str_zeros no_yx (by omega)
  obtain ⟨s₂, loop₂, holds₂, _⟩ :=
    loadLoop_letterLine [] 0 sb sy long (by omega) holds₁ file₁ supply₁
    (by rw [tmp₁, List.length_append, List.length_replicate]; omega) read₂ (by
      intro e mem same
      rw [insert_empty_eq, Set.mem_singleton_iff] at mem
      rw [mem] at same
      exact ab (List.cons.inj same).1)
  obtain ⟨e, mem, same, found⟩ := holds₂.find_hit (Set.mem_insert _ _) ⟨[b], []⟩ rfl
  rw [loop₂, loadLoop] at loop₁
  refine ⟨none, s₂, ?_, e, found, ?_⟩
  · rw [createSetitemHash, createHash]
    simp only [init, Vector.toList_replicate, loop₁, Option.map_some]
  · rcases mem with rfl | rfl | none
    · rfl
    · exact absurd (List.cons.inj same).1 ab
    · exact absurd none (Set.notMem_empty _)

/-- `create_setitem_hash` on two lines with 1026 times `'x'` and 1025 times `'y'` in the second
column: it stores one `'x'` more than the second column of the second line. -/
theorem stale_character_stored :
    let first := letterLine 97 120 1026 (by decide)
    let second := letterLine 98 121 1025 (by decide)
    columns first.chars = [[97], List.replicate 1026 120] ∧
      columns second.chars = [[98], List.replicate 1025 121] ∧
      ∃ ret s, createSetitemHash 1 true true (some (fileOf [first, second]))
        (Vector.replicate _ 0) Heap.empty lineAllocs 2 =
          some (ret, some s) ∧
        ∃ e, chtblFindKv id s.tbl.heap s.tbl.htbl { key := [98], value := [] } = some e ∧
          e.value = List.replicate 1025 121 ++ [120] := by
  refine ⟨columns_letterLine rfl rfl (by decide), columns_letterLine rfl rfl (by decide), ?_⟩
  exact stale_value rfl rfl rfl rfl (by decide) (by decide) (by decide) (by decide)

/-- The first line with a key is among the first lines, if those behind them bring no new first
column. -/
lemma mem_of_find?_covered {lines rest : List Line}
    (covered : ∀ line ∈ rest, column 0 line ∈ lines.map (column 0)) {k : List UInt8} {line : Line}
    (first : (lines ++ rest).find? (fun line => column 0 line = k) = some line) :
    line ∈ lines ∧ column 0 line = k := by
  have same : column 0 line = k := by simpa using List.find?_some first
  refine ⟨?_, same⟩
  rw [List.find?_append] at first
  cases found : lines.find? (fun line => column 0 line = k) with
  | some line' =>
    rw [found, Option.some_or, Option.some.injEq] at first
    rw [← first]
    exact List.mem_of_find?_eq_some found
  | none =>
    -- the line is one of the rest, but none of the first lines has its first column
    rw [found, Option.none_or] at first
    obtain ⟨line', mem, same'⟩ := List.mem_map.mp (covered line (List.mem_of_find?_eq_some first))
    have other := List.find?_eq_none.mp found line' mem
    rw [same', same] at other
    exact absurd (decide_eq_true rfl) other

/-- No line behind one that repeats a first column is loaded. -/
lemma loaded_of_repeat {s : List (List UInt8)} {seen : List Line} {line : Line} (rest : List Line)
    (repeated : column 0 line ∈ s ++ seen.map (column 0)) :
    loaded s (seen ++ line :: rest) <+: seen := by
  induction seen generalizing s with
  | nil =>
    rw [List.map_nil, List.append_nil] at repeated
    rw [List.nil_append, loaded, if_pos repeated]
  | cons x seen ih =>
    rw [List.cons_append, loaded]
    split
    · exact List.nil_prefix
    · refine List.cons_prefix_cons.mpr ⟨rfl, ih ?_⟩
      rw [List.append_assoc]
      exact repeated

/-- After the first line that repeats a first column, no line has a new one. -/
def Settled (lines : List Line) : Prop :=
  ∀ seen line rest, lines = seen ++ line :: rest → column 0 line ∈ seen.map (column 0) →
    ∀ line' ∈ rest, column 0 line' ∈ seen.map (column 0)

/-- Then, and only then, the lines that are loaded have all first columns. -/
lemma settled_iff (lines : List Line) :
    Settled lines ↔ ∀ line ∈ lines, column 0 line ∈ (loaded [] lines).map (column 0) := by
  constructor
  · intro settled
    obtain ⟨rest, split, next⟩ := loaded_split [] lines
    rw [List.nil_append] at next
    intro line mem
    rw [split] at mem
    rcases List.mem_append.mp mem with mem | mem
    · exact List.mem_map_of_mem mem
    · cases rest with
      | nil => cases mem
      | cons line₁ rest =>
        have repeated := next line₁ rfl
        rcases List.mem_cons.mp mem with rfl | mem
        · exact repeated
        · exact settled _ line₁ rest split repeated line mem
  · rintro all seen line rest rfl repeated line' mem
    have start : loaded [] (seen ++ line :: rest) <+: seen := loaded_of_repeat rest repeated
    have found := all line' (List.mem_append_right seen (List.mem_cons_of_mem line mem))
    exact (start.map (column 0)).subset found

/-- The table answers for all lines exactly when the lines that are loaded have all first
columns. -/
lemma Table.answers_iff {signed : Bool} {tbl : TblSt (List UInt8) SweetListKv} {n : Nat}
    {lines : List Line} (holds : Table signed tbl (records n (loaded [] lines))) :
    (∀ k value,
      (∀ line, lines.find? (fun line => column 0 line = k) = some line →
        ∃ e, chtblFindKv id tbl.heap tbl.htbl { key := k, value } = some e ∧
          e.key = k ∧ e.value = column n line) ∧
      ((∀ line ∈ lines, column 0 line ≠ k) →
        chtblFindKv id tbl.heap tbl.htbl { key := k, value } = some { key := k, value })) ↔
    ∀ line ∈ lines, column 0 line ∈ (loaded [] lines).map (column 0) := by
  constructor
  · intro answers line mem
    by_contra lost
    have hit : (lines.find? fun line' => column 0 line' = column 0 line).isSome := by
      rw [List.find?_isSome]
      exact ⟨line, mem, decide_eq_true rfl⟩
    obtain ⟨line₁, first⟩ := Option.isSome_iff_exists.mp hit
    -- the query comes back, with whatever value it has
    obtain ⟨e, found, _, value⟩ := (answers (column 0 line) (0 :: column n line₁)).1 line₁ first
    rw [holds.find_miss] at found
    · cases found
      exact absurd (congrArg List.length value) (by simp)
    · rintro _ ⟨line', mem', rfl⟩ same
      exact lost (List.mem_map.mpr ⟨line', mem', same.symm⟩)
  · intro all k value
    obtain ⟨rest, split, _⟩ := loaded_split [] lines
    constructor
    · intro line first
      have covered : ∀ line ∈ rest, column 0 line ∈ (loaded [] lines).map (column 0) := by
        intro line mem
        exact all line (by rw [split]; exact List.mem_append_right _ mem)
      rw [split] at first
      obtain ⟨mem, rfl⟩ := mem_of_find?_covered covered first
      exact ⟨_, holds.find_loaded mem value, rfl, rfl⟩
    · intro other
      apply holds.find_miss
      rintro _ ⟨line, mem, rfl⟩ same
      apply other line _ same.symm
      rw [split]
      exact List.mem_append_left rest mem

/-- For every file of lines of fewer than 1023 characters with at least three columns, whatever the
buffer held before: once the loop has read the lines or returned, `chtbl_find_kv` returns for every
first column the record of the first line with it, and for every other key the query, exactly when
no line brings a new first column once one has been repeated. -/
theorem icon_hash_loads (signed : Bool) (lines : List Line) (tmp : Vector UInt8 (1024 + 1))
    (heap : Heap (ListElmt SweetListKv)) (allocs : Nat → Allocs) (supply : Supply allocs 1 heap)
    (length : ∀ line ∈ lines, line.chars.length < 1023)
    (enough : ∀ line ∈ lines, 3 ≤ (columns line.chars).length) :
    ∃ ret s, createIconHash signed true (some (fileOf lines)) tmp heap allocs lines.length =
        some (ret, some s) ∧
      ((∀ k value,
        (∀ line, lines.find? (fun line => column 0 line = k) = some line →
          ∃ e, chtblFindKv id s.tbl.heap s.tbl.htbl { key := k, value } = some e ∧
            e.key = k ∧ e.value = column 2 line) ∧
        ((∀ line ∈ lines, column 0 line ≠ k) →
          chtblFindKv id s.tbl.heap s.tbl.htbl { key := k, value } = some { key := k, value })) ↔
      ∀ seen line rest, lines = seen ++ line :: rest → column 0 line ∈ seen.map (column 0) →
        ∀ line' ∈ rest, column 0 line' ∈ seen.map (column 0)) := by
  have readable : ∀ line ∈ lines, Readable ⟨1024, 1024 + 1, 2⟩ tmp.toList.length line := by
    intro line mem
    have := length line mem
    refine ⟨by simpa using this, by simp; omega, by simp, enough line mem, ?_⟩
    intro n _
    have := column_length_le n line
    show (column n line).length < 1024 + 1
    omega
  obtain ⟨ret, s, run, holds⟩ := createHash_spec signed readable supply
  exact ⟨ret, s, run, holds.answers_iff.trans (settled_iff lines).symm⟩

/-- The lines `"a\tb\tc"` and `"a\tb\td"`: the record is that of the first one. -/
theorem icon_hash_loads_two :
    Supply lineAllocs 1 Heap.empty ∧
    ∃ ret s, createIconHash true true (some [97, 9, 98, 9, 99, 10, 97, 9, 98, 9, 100, 10])
      (Vector.replicate _ 0) Heap.empty
        lineAllocs 2 = some (ret, some s) ∧
      ∃ e, chtblFindKv id s.tbl.heap s.tbl.htbl { key := [97], value := [] } = some e ∧
        e.value = [99] := by
  refine ⟨supply_lineAllocs 1, ?_⟩
  obtain ⟨ret, s, run, iff⟩ := icon_hash_loads true
    [⟨[97, 9, 98, 9, 99], by decide, by decide⟩, ⟨[97, 9, 98, 9, 100], by decide, by decide⟩]
    (Vector.replicate _ 0) Heap.empty lineAllocs (supply_lineAllocs 1) (by decide) (by decide)
  have found := iff.mpr (by
    intro seen line rest split mem
    rcases seen with _ | ⟨x, _ | ⟨y, seen⟩⟩
    · cases mem
    · cases split
      intro line' mem'
      cases mem'
    · simp at split)
  obtain ⟨e, hit, _, value⟩ := (found [97] []).1 _ rfl
  exact ⟨ret, s, run, e, hit, value⟩

/-- The lines `"a\tb\tc"`, `"a\tb\td"` and `"b\tb\te"`: the second one repeats a first column, the
function returns 1, and the table has no record for `"b"`. -/
theorem repeated_key_stops_load :
    ((createIconHash true true
      (some [97, 9, 98, 9, 99, 10, 97, 9, 98, 9, 100, 10, 98, 9, 98, 9, 101, 10])
        (Vector.replicate _ 0) Heap.empty lineAllocs 3).map fun r =>
      (r.1, r.2.map fun s => chtblFindKv id s.tbl.heap s.tbl.htbl { key := [98], value := [] })) =
    some (some 1, some (some { key := [98], value := [] })) := by
  decide +kernel

end SweetClib.Bns
