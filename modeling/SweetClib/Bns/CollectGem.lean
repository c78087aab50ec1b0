import SweetClib.Lib.OrderedMap
import SweetClib.Lib.Print

/-!
# The main and the range entries of a group of gems

`collect_gem.php` puts the documents of one name and category together. For each of seven
attributes it lists the distinct values other than `"0"` (`collectDocs`), and prints every list as
one entry: one of them as the `main` entry of the group, the others as its `range` entries. The
selection of the main entry compares the number of values of an attribute with the number of
candidates so far (`select`), so it can find several; the last one is printed, and all of them are
taken out before the range entries are printed (`collect`).

Values are compared with `==`, which is not the equality of strings, and printed by their
conversion to a string. Both are a parameter (`Php`), of which nothing is assumed.

With at most one candidate the entries are those of the attributes that have values; with two or
more, all candidates but the last one are in no entry (`filter_entries`). A second candidate is an
attribute with two values behind one that has a value.
-/

namespace SweetClib.Bns.CollectGem
open SweetClib.Lib SweetClib.Lib.OrderedMap

/-- The keys of `$attr`. -/
inductive Attr where
  | hit
  | pierce
  | critical
  | criticalDefence
  | dodge
  | block
  | maxLife
  deriving DecidableEq

/-- The name of an attribute in the documents. -/
def Attr.name : Attr → String
  | .hit => "命中"
  | .pierce => "穿刺"
  | .critical => "暴击"
  | .criticalDefence => "暴击防御"
  | .dodge => "闪避"
  | .block => "格挡"
  | .maxLife => "最大生命"

/-- The order of `$attr`. -/
def Attr.all : List Attr := [.hit, .pierce, .critical, .criticalDefence, .dodge, .block, .maxLife]

/-- What PHP does with a value: `$v == "0"`, `$v == $w`, and the conversion to a string. -/
structure Php (V : Type) where
  isZero : V → Bool
  looseEq : V → V → Bool
  str : V → List UInt8

/-- What is read of a document. -/
structure Doc (Id V : Type) where
  id : Id
  attr : Attr → V

/-- What a group adds to `$real_res[$key]`. -/
structure Group (Id : Type) where
  main : List UInt8
  range : List (List UInt8)
  realId : List Id

variable {Id V : Type} (php : Php V)

/-- The test of a value, and its push (`array_push($attr[$k], $doc[$k])`). -/
def pushValue (vs : List V) (v : V) : List V :=
  if !php.isZero v && !vs.any (php.looseEq v) then vs ++ [v] else vs

/-- One document: every attribute is looked at. -/
def collectDoc (attr : List (Attr × List V)) (doc : Doc Id V) : List (Attr × List V) :=
  -- the loop runs over a copy of `$attr`, and its round for a key changes the entry of this key
  -- only
  attr.map fun e => (e.1, pushValue php e.2 (doc.attr e.1))

/-- The loop over the documents. -/
def collectDocs (docs : List (Doc Id V)) : List (Attr × List V) :=
  docs.foldl (collectDoc php) (Attr.all.map fun k => (k, []))

/-- The candidates for the main entry (`if (count($v) > count($main)) $main[$k] = $v`). -/
def select (attr : List (Attr × List V)) : List (Attr × List V) :=
  attr.foldl (fun main e => if main.length < e.2.length then put e.1 e.2 main else main) []

/-- The text of an entry (`$k.' '.implode('|',$v)`). -/
def entryText (e : Attr × List V) : List UInt8 :=
  text e.1.name ++ [32] ++ List.intercalate [124] (e.2.map php.str)

/-- The loop over the candidates: each one is printed over the one before, and taken out of
`$attr`. -/
def printMain (main : List (Attr × List V)) (out : List UInt8 × List (Attr × List V)) :
    List UInt8 × List (Attr × List V) :=
  main.foldl (fun out e => (entryText php e, unset e.1 out.2)) out

/-- The loop over the attributes that are left. -/
def printRange (attr : List (Attr × List V)) : List (List UInt8) :=
  attr.foldl (fun range e => if !e.2.isEmpty then range ++ [entryText php e] else range) []

/-- The attributes of a group, from its documents. -/
def collect (docs : List (Doc Id V)) : Group Id :=
  let attr := collectDocs php docs
  -- `main` is `''` before the loop
  let (main, attr) := printMain php (select attr) ([], attr)
  { main, range := printRange php attr, realId := docs.map Doc.id }

/-- The entries that are printed; the main one is empty where there is no candidate. -/
def Group.entries (g : Group Id) :
    List (List UInt8) := (if g.main = [] then [] else [g.main]) ++ g.range

/-- The entry is one of the attribute. -/
def names (k : Attr) (entry : List UInt8) : Bool := (text k.name ++ [32]).isPrefixOf entry

/-- The values of an attribute that are collected. -/
def valuesOf (k : Attr) (docs : List (Doc Id V)) : List V :=
  docs.foldl (fun vs doc => pushValue php vs (doc.attr k)) []

/-- The distinct values other than `"0"`. -/
structure DistinctValues (k : Attr) (docs : List (Doc Id V)) (vs : List V) : Prop where
  /-- Nothing else is listed. -/
  sound : ∀ v ∈ vs, php.isZero v = false ∧ ∃ doc ∈ docs, doc.attr k = v
  /-- Nothing is left out. -/
  complete : ∀ doc ∈ docs, php.isZero (doc.attr k) = false →
    ∃ v ∈ vs, v = doc.attr k ∨ php.looseEq (doc.attr k) v = true
  /-- Nothing is listed twice. -/
  distinct : vs.Pairwise fun v w => php.looseEq w v = false

/-- Every attribute that has values is in one entry, with all of them, and the others are in
none. -/
def NothingLost (docs : List (Doc Id V)) : Prop :=
  ∀ k, (collect php docs).entries.filter (names k) =
    if valuesOf php k docs = [] then [] else [entryText php (k, valuesOf php k docs)]

/-- No attribute behind one that has a value has two. -/
def OneCandidate (docs : List (Doc Id V)) : Prop :=
  Attr.all.Pairwise fun j k => valuesOf php j docs ≠ [] → (valuesOf php k docs).length ≤ 1

section Values

variable {php} {vs : List V} {k : Attr} {docs : List (Doc Id V)}

/-- One more document. -/
lemma DistinctValues.push (h : DistinctValues php k docs vs) (doc : Doc Id V) :
    DistinctValues php k (docs ++ [doc]) (pushValue php vs (doc.attr k)) := by
  rw [pushValue]
  -- the value is pushed when it is neither `"0"` nor equal to one of the list
  split
  · rename_i new
    simp only [Bool.and_eq_true, Bool.not_eq_true', List.any_eq_false, Bool.not_eq_true] at new
    refine ⟨fun v mem => ?_, fun d mem nonzero => ?_, ?_⟩
    · obtain mem | mem := List.mem_append.mp mem
      · obtain ⟨nonzero, d, mem', e⟩ := h.sound v mem
        exact ⟨nonzero, d, List.mem_append_left _ mem', e⟩
      · obtain rfl := List.mem_singleton.mp mem
        exact ⟨new.1, doc, by simp, rfl⟩
    · obtain mem | mem := List.mem_append.mp mem
      · obtain ⟨v, mem', e⟩ := h.complete d mem nonzero
        exact ⟨v, List.mem_append_left _ mem', e⟩
      · obtain rfl := List.mem_singleton.mp mem
        exact ⟨d.attr k, by simp, .inl rfl⟩
    · rw [List.pairwise_append]
      refine ⟨h.distinct, List.pairwise_singleton _ _, fun v mem w mem' => ?_⟩
      obtain rfl := List.mem_singleton.mp mem'
      exact new.2 v mem
  · rename_i old
    simp only [Bool.and_eq_true, Bool.not_eq_true', List.any_eq_false, Bool.not_eq_true,
      not_and] at old
    refine ⟨fun v mem => ?_, fun d mem nonzero => ?_, h.distinct⟩
    · obtain ⟨nonzero, d, mem', e⟩ := h.sound v mem
      exact ⟨nonzero, d, List.mem_append_left _ mem', e⟩
    · obtain mem | mem := List.mem_append.mp mem
      · exact h.complete d mem nonzero
      · obtain rfl := List.mem_singleton.mp mem
        have listed := old nonzero
        push Not at listed
        obtain ⟨v, mem', e⟩ := listed
        exact ⟨v, mem', .inr (by simpa using e)⟩

/-- What was collected for an attribute are its distinct values. -/
lemma distinctValues_valuesOf (k : Attr) (docs : List (Doc Id V)) :
    DistinctValues php k docs (valuesOf php k docs) := by
  induction docs using List.reverseRecOn with
  | nil => exact ⟨by simp [valuesOf], by simp, by simp [valuesOf]⟩
  | append_singleton docs doc ih =>
    rw [valuesOf, List.foldl_append]
    exact ih.push doc

/-- The loop over the documents, attribute by attribute. -/
lemma collectDocs_eq (docs : List (Doc Id V)) :
    collectDocs php docs = Attr.all.map fun k => (k, valuesOf php k docs) := by
  induction docs using List.reverseRecOn with
  | nil => rfl
  | append_singleton docs doc ih =>
    rw [collectDocs, List.foldl_append]
    simp only [List.foldl_cons, List.foldl_nil]
    rw [← collectDocs, ih, collectDoc, List.map_map]
    apply List.map_congr_left
    intro k _
    simp only [Function.comp, valuesOf, List.foldl_append, List.foldl_cons, List.foldl_nil]

end Values

/-- The candidates among the attributes when `n` were found before them. -/
def picked : Nat → List (Attr × List V) → List (Attr × List V)
  | _, [] => []
  | n, e :: es => if n < e.2.length then e :: picked (n + 1) es else picked n es

section Picked

variable {es main : List (Attr × List V)} {n : Nat}

/-- The attributes are picked in their order. -/
lemma picked_sublist (n : Nat) (es : List (Attr × List V)) : (picked n es).Sublist es := by
  induction es generalizing n with
  | nil => exact .slnil
  | cons e es ih =>
    rw [picked]
    split
    · exact (ih _).cons_cons e
    · exact (ih _).cons e

/-- An attribute that was picked has values. -/
lemma ne_nil_of_mem_picked {e : Attr × List V} (mem : e ∈ picked n es) : e.2 ≠ [] := by
  induction es generalizing n with
  | nil => cases mem
  | cons e' es ih =>
    rw [picked] at mem
    split at mem
    · rename_i more
      obtain rfl | mem := List.mem_cons.mp mem
      · exact List.ne_nil_of_length_pos (by omega)
      · exact ih mem
    · exact ih mem

/-- Behind one candidate there is no other when no attribute has two values. -/
lemma picked_one_eq_nil : picked 1 es = [] ↔ ∀ e ∈ es, e.2.length ≤ 1 := by
  induction es with
  | nil => simp [picked]
  | cons e es ih =>
    rw [picked, List.forall_mem_cons]
    split
    · rename_i two
      simp only [List.cons_ne_nil, false_iff, not_and]
      omega
    · rename_i one
      rw [ih]
      exact ⟨fun h => ⟨by omega, h⟩, fun h => h.2⟩

/-- At most one candidate: no attribute behind one that has a value has two. -/
lemma length_picked_le_one :
    (picked 0 es).length ≤ 1 ↔ es.Pairwise fun d e => d.2 ≠ [] → e.2.length ≤ 1 := by
  induction es with
  | nil => simp [picked]
  | cons e es ih =>
    rw [picked, List.pairwise_cons]
    -- the first attribute with a value is the first candidate
    split
    · rename_i value
      have some : e.2 ≠ [] := List.ne_nil_of_length_pos value
      rw [List.length_cons, Nat.add_le_add_iff_right, Nat.le_zero, List.length_eq_zero_iff,
        zero_add, picked_one_eq_nil]
      refine ⟨fun h => ⟨fun e' mem _ => h e' mem, ?_⟩, fun h e' mem => h.1 e' mem some⟩
      exact List.pairwise_of_forall_mem_list fun d _ e mem _ => h e mem
    · rename_i empty
      have none : e.2 = [] := List.length_eq_zero_iff.mp (by omega)
      rw [ih]
      exact ⟨fun h => ⟨fun _ _ some => absurd none some, h⟩, fun h => h.2⟩

/-- The loop puts what it picks behind what was there. -/
lemma foldl_select (distinct : (keys (main ++ es)).Nodup) :
    es.foldl (fun main e => if main.length < e.2.length then put e.1 e.2 main else main) main =
      main ++ picked main.length es := by
  induction es generalizing main with
  | nil => simp [picked]
  | cons e es ih =>
    rw [List.foldl_cons, picked]
    split
    · have new : e.1 ∉ keys main := by
        intro mem
        rw [keys, List.map_append, List.nodup_append] at distinct
        exact distinct.2.2 _ mem _ (List.mem_map_of_mem List.mem_cons_self) rfl
      rw [put_new new, ih (by simpa using distinct), List.length_append, List.append_assoc,
        List.singleton_append, List.length_singleton]
    · apply ih
      have sub : (main ++ es).Sublist (main ++ e :: es) :=
        (List.sublist_cons_self e es).append_left main
      exact distinct.sublist (sub.map Prod.fst)

/-- The loop that picks the main attributes. -/
lemma select_eq (distinct : (keys es).Nodup) :
    select es = picked 0 es := @foldl_select V es [] distinct

end Picked

section Entries

variable {php} {es main : List (Attr × List V)}

/-- The last main attribute is printed, and all of them are taken out. -/
lemma printMain_eq (old : List UInt8) :
    printMain php main (old, es) =
      ((main.getLast?.map (entryText php)).getD old, es.filter fun e => e.1 ∉ keys main) := by
  induction main generalizing old es with
  | nil => simp [printMain, keys]
  | cons e main ih =>
    have rest := @ih (unset e.1 es) (entryText php e)
    rw [printMain] at rest ⊢
    rw [List.foldl_cons, rest, ← foldl_unset, ← foldl_unset (e :: main), List.foldl_cons]
    cases main with
    | nil => rfl
    | cons e' main =>
      rw [List.getLast?_cons_cons, List.getLast?_cons]
      rfl

/-- Every other attribute that has values is printed. -/
lemma printRange_eq :
    printRange php es = (es.filter fun e => !e.2.isEmpty).map (entryText php) := by
  have loop :
    ∀ range,
    es.foldl (fun range e => if !e.2.isEmpty then range ++ [entryText php e] else range) range =
      range ++ (es.filter fun e => !e.2.isEmpty).map (entryText php) := by
    induction es with
    | nil => simp
    | cons e es ih =>
      intro range
      rw [List.foldl_cons, ih, List.filter_cons]
      split <;> simp
  exact loop []

/-- The text of an attribute is not empty. -/
lemma entryText_ne_nil (e : Attr × List V) : entryText php e ≠ [] := by simp [entryText]

/-- No name of an attribute, with the blank behind it, starts another one. -/
lemma eq_of_name_start :
    ∀ j ∈ Attr.all, ∀ k ∈ Attr.all, text j.name ++ [32] <+: text k.name ++ [32] → j = k := by decide

/-- The list of the attributes is complete. -/
lemma Attr.mem_all (k : Attr) : k ∈ Attr.all := by cases k <;> decide

/-- A text names the attribute it was printed for. -/
lemma names_entryText (k : Attr) (e : Attr × List V) :
    names k (entryText php e) = decide (e.1 = k) := by
  -- two names that start the same entry start each other
  have own : text e.1.name ++ [32] <+: entryText php e := List.prefix_append _ _
  rw [names, Bool.eq_iff_iff, List.isPrefixOf_iff_prefix, decide_eq_true_eq]
  constructor
  · intro other
    obtain h | h := List.prefix_or_prefix_of_prefix own other
    · exact eq_of_name_start _ e.1.mem_all _ k.mem_all h
    · exact (eq_of_name_start _ k.mem_all _ e.1.mem_all h).symm
  · rintro rfl
    exact own

/-- The texts that name an attribute were printed for it. -/
lemma filter_names (k : Attr) (es : List (Attr × List V)) :
    (es.map (entryText php)).filter (names k) = (es.filter fun e => e.1 = k).map
      (entryText php) := by
  rw [List.filter_map]
  congr 1
  apply List.filter_congr
  intro e _
  exact names_entryText k e

end Entries

section Group

variable {php} {docs : List (Doc Id V)}

/-- The seven lists behind the loop over the documents. -/
def table (php : Php V) (docs : List (Doc Id V)) : List (Attr × List V) :=
  Attr.all.map fun k => (k, valuesOf php k docs)

/-- The table has all attributes, in their order. -/
lemma keys_table : keys (table php docs) = Attr.all := by simp [keys, table, Function.comp_def]

/-- And each of them once. -/
lemma nodup_table : (keys (table php docs)).Nodup := by
  rw [keys_table]
  decide

/-- The entry of an attribute. -/
lemma filter_table (k : Attr) :
    ((table php docs).filter fun e => e.1 = k) = [(k, valuesOf php k docs)] := by
  have one : (Attr.all.filter fun j => j = k) = [k] := by cases k <;> rfl
  rw [table, List.filter_map]
  exact congrArg (List.map _) one

/-- The attributes that are picked as main ones. -/
def candidates (php : Php V) (docs : List (Doc Id V)) :
    List (Attr × List V) := picked 0 (table php docs)

/-- A candidate is an entry of the table that has values. -/
lemma mem_candidates {e : Attr × List V} (mem : e ∈ candidates php docs) :
    e = (e.1, valuesOf php e.1 docs) ∧ valuesOf php e.1 docs ≠ [] := by
  obtain ⟨k, _, rfl⟩ := List.mem_map.mp ((picked_sublist 0 _).subset mem)
  exact ⟨rfl, ne_nil_of_mem_picked mem⟩

/-- Each attribute is a candidate once. -/
lemma nodup_candidates : (keys (candidates php docs)).Nodup :=
  nodup_table.sublist ((picked_sublist 0 _).map Prod.fst)

/-- The entries that are printed: the last candidate, and the attributes with values that are not
candidates. -/
lemma entries_collect :
    (collect php docs).entries =
      ((candidates php docs).getLast?.toList ++
        ((table php docs).filter fun e => e.1 ∉ keys (candidates php docs)).filter fun e =>
          !e.2.isEmpty).map
        (entryText php) := by
  have selected : select (table php docs) = candidates php docs := select_eq nodup_table
  have main : (if ((candidates php docs).getLast?.map (entryText php)).getD [] = [] then []
      else [((candidates php docs).getLast?.map (entryText php)).getD []]) =
      (candidates php docs).getLast?.toList.map (entryText php) := by
    cases (candidates php docs).getLast? with
    | none => rfl
    | some e => simp [entryText_ne_nil]
  rw [Group.entries, collect, collectDocs_eq, ← table, selected, printMain_eq]
  simp only [printRange_eq]
  rw [main, List.map_append]

/-- The entries of one attribute. A candidate is in an entry if it is the last one. -/
lemma filter_entries (k : Attr) :
    (collect php docs).entries.filter (names k) =
      if k ∈ keys (candidates php docs) then
        if (keys (candidates php docs)).getLast? = some k then
          [entryText php (k, valuesOf php k docs)] else []
      else if valuesOf php k docs = [] then [] else [entryText php (k, valuesOf php k docs)] := by
  have range : (((table php docs).filter fun e => e.1 ∉ keys (candidates php docs)).filter
      fun e => !e.2.isEmpty).filter (fun e => e.1 = k) =
      if k ∈ keys (candidates php docs) ∨ valuesOf php k docs = [] then []
      else [(k, valuesOf php k docs)] := by
    rw [List.filter_comm, List.filter_comm (fun e : Attr × List V => decide (e.1 = k)),
      filter_table]
    by_cases mem : k ∈ keys (candidates php docs) <;> by_cases empty : valuesOf php k docs = [] <;>
      simp [mem, empty]
  have main : (candidates php docs).getLast?.toList.filter (fun e => e.1 = k) =
      if (keys (candidates php docs)).getLast? = some k then [(k, valuesOf php k docs)]
      else [] := by
    rw [keys, List.getLast?_map]
    cases last : (candidates php docs).getLast? with
    | none => rfl
    | some e =>
      have same := (mem_candidates (List.mem_of_getLast? last)).1
      by_cases own : e.1 = k
      · subst own
        simp [← same]
      · simp [own]
  rw [entries_collect, filter_names, List.filter_append, main, range]
  by_cases mem : k ∈ keys (candidates php docs)
  · rw [if_pos (Or.inl mem : _ ∨ valuesOf php k docs = []), if_pos mem, List.append_nil]
    split <;> rfl
  · -- what is not a candidate is not the last one
    have last : (keys (candidates php docs)).getLast? ≠ some k :=
      fun h => mem (List.mem_of_getLast? h)
    rw [if_neg last, if_neg mem, List.nil_append]
    by_cases empty : valuesOf php k docs = [] <;> simp [mem, empty]

/-- All are the last one: there is at most one. -/
lemma forall_getLast?_iff {ks : List Attr} (distinct : ks.Nodup) :
    (∀ k ∈ ks, ks.getLast? = some k) ↔ ks.length ≤ 1 := by
  match ks with
  | [] => simp
  | [k] => simp
  | j :: k :: ks =>
    -- the first of two or more would be among those behind it
    refine iff_of_false (fun last => ?_) (by simp)
    have first := last j List.mem_cons_self
    rw [List.getLast?_cons_cons] at first
    exact (List.nodup_cons.mp distinct).1 (List.mem_of_getLast? first)

/-- Nothing is lost exactly when there is one candidate at most. -/
lemma nothingLost_iff : NothingLost php docs ↔ (candidates php docs).length ≤ 1 := by
  have length : (keys (candidates php docs)).length = (candidates php docs).length :=
    List.length_map ..
  rw [← length, ← forall_getLast?_iff nodup_candidates]
  constructor
  · intro kept k mem
    obtain ⟨e, mem', rfl⟩ := List.mem_map.mp mem
    have one := kept e.1
    rw [filter_entries, if_pos mem, if_neg (mem_candidates mem').2] at one
    by_contra other
    rw [if_neg other] at one
    cases one
  · intro last k
    rw [filter_entries]
    by_cases mem : k ∈ keys (candidates php docs)
    · obtain ⟨e, mem', rfl⟩ := List.mem_map.mp mem
      rw [if_pos mem, if_pos (last _ mem), if_neg (mem_candidates mem').2]
    · rw [if_neg mem]

end Group

/-- The lists are those of the distinct values other than `"0"`, and nothing is lost exactly when
no attribute behind one that has a value has two. -/
theorem collect_keeps_attributes (docs : List (Doc Id V)) :
    (∀ k, DistinctValues php k docs (valuesOf php k docs)) ∧
      (NothingLost php docs ↔ OneCandidate php docs) := by
  refine ⟨fun k => distinctValues_valuesOf k docs, ?_⟩
  rw [nothingLost_iff, candidates, length_picked_le_one, table, List.pairwise_map, OneCandidate]

/-- Strings that `==` compares as it compares `"0"`, `"5"`, `"10"` and `"20"`. -/
def decimals : Php (List UInt8) where
  isZero v := v == text "0"
  looseEq v w := v == w
  str v := v

/-- A document with a value for two attributes. -/
def sampleDoc (id : Nat) (hit pierce : String) : Doc Nat (List UInt8) where
  id := id
  attr
    | .hit => text hit
    | .pierce => text pierce
    | _ => text "0"

/-- Two values of the first attribute and one of the second: one is the main entry, the other one a
range entry. -/
theorem collect_keeps_two :
    OneCandidate decimals [sampleDoc 1 "5" "20", sampleDoc 2 "10" "20"] ∧
      NothingLost decimals [sampleDoc 1 "5" "20", sampleDoc 2 "10" "20"] ∧
      (collect decimals [sampleDoc 1 "5" "20", sampleDoc 2 "10" "20"]).entries =
        [text "命中 5|10", text "穿刺 20"] := by
  have one : OneCandidate decimals [sampleDoc 1 "5" "20", sampleDoc 2 "10" "20"] := by
    unfold OneCandidate
    decide
  exact ⟨one, (collect_keeps_attributes decimals _).2.mpr one, by decide⟩

/-- One value of the first attribute and two of the second: both are candidates, the second one is
printed, and the first one is in no entry. -/
theorem first_candidate_lost :
    valuesOf decimals .hit [sampleDoc 1 "5" "10", sampleDoc 2 "5" "20"] = [text "5"] ∧
      (collect decimals [sampleDoc 1 "5" "10", sampleDoc 2 "5" "20"]).main = text "穿刺 10|20" ∧
      (collect decimals [sampleDoc 1 "5" "10", sampleDoc 2 "5" "20"]).range = [] ∧
      ¬ NothingLost decimals [sampleDoc 1 "5" "10", sampleDoc 2 "5" "20"] := by
  refine ⟨by decide, by decide, by decide, fun kept => ?_⟩
  have hit := kept .hit
  revert hit
  decide

end SweetClib.Bns.CollectGem
