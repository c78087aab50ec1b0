import Mathlib.Data.List.Nodup

/-!
# Maps in insertion order

An array of PHP is a list of entries with distinct keys, in the order in which the keys were
inserted. A store under a key that is there keeps its place, a store under a new key appends
(`put`), and a key can be taken out (`unset`). The entry under a key is the one `List.lookup`
finds; since the keys are distinct, it does not depend on the order (`lookup_perm`).
-/

namespace SweetClib.Lib.OrderedMap

variable {K V : Type*}

/-- The keys, in the order of the entries. -/
def keys (es : List (K × V)) : List K := es.map Prod.fst

section Lookup

variable {es fs : List (K × V)} {k : K} {v : V}

/-- The key of an entry is a key. -/
lemma mem_keys {e : K × V} (mem : e ∈ es) : e.1 ∈ keys es := List.mem_map_of_mem mem

variable [BEq K] [LawfulBEq K]

/-- With distinct keys, what is found under a key is its entry. -/
lemma lookup_eq_some_iff (distinct : (keys es).Nodup) : es.lookup k = some v ↔ (k, v) ∈ es := by
  induction es with
  | nil => simp
  | cons e es ih =>
    rw [keys, List.map_cons, List.nodup_cons] at distinct
    obtain ⟨k', v'⟩ := e
    rw [List.lookup_cons, List.mem_cons, Prod.mk.injEq]
    by_cases same : k = k'
    · subst same
      have alone : (k, v) ∉ es := fun mem => distinct.1 (mem_keys (e := (k, v)) mem)
      simp [alone, eq_comm]
    · rw [beq_false_of_ne same, ih distinct.2]
      simp [same]

/-- What is found in a map whose values were mapped. -/
lemma lookup_map {W : Type*} (f : K × V → W) (k : K) :
    (es.map fun e => (e.1, f e)).lookup k = (es.lookup k).map fun v => f (k, v) := by
  induction es with
  | nil => rfl
  | cons e es ih =>
    obtain ⟨k', v⟩ := e
    rw [List.map_cons, List.lookup_cons, List.lookup_cons]
    by_cases same : k = k'
    · subst same
      simp
    · rw [beq_false_of_ne same]
      exact ih

/-- The order of the entries does not matter to what is found. -/
lemma lookup_perm (distinct : (keys es).Nodup) (perm : es.Perm fs) (k : K) :
    es.lookup k = fs.lookup k := by
  have distinct' : (keys fs).Nodup := (perm.map Prod.fst).nodup_iff.mp distinct
  apply Option.ext
  intro v
  rw [lookup_eq_some_iff distinct, lookup_eq_some_iff distinct', perm.mem_iff]

end Lookup

section Update

variable [DecidableEq K]

/-- Store under a key (PHP `$es[$k] = $v`). -/
def put (k : K) (v : V) : List (K × V) → List (K × V)
  | [] => [(k, v)]
  | e :: es => if e.1 = k then (k, v) :: es else e :: put k v es

/-- Take a key out (PHP `unset($es[$k])`). -/
def unset (k : K) (es : List (K × V)) : List (K × V) := es.filter fun e => e.1 ≠ k

variable {es fs : List (K × V)} {k : K} {v : V}

/-- A store keeps the keys in their order, and a new one comes last. -/
lemma keys_put : keys (put k v es) = if k ∈ keys es then keys es else keys es ++ [k] := by
  induction es with
  | nil => rfl
  | cons e es ih =>
    rw [put]
    by_cases here : e.1 = k
    · rw [if_pos here, if_pos (by simp [keys, here])]
      simp [keys, here]
    · have there : k ∈ keys (e :: es) ↔ k ∈ keys es := by simp [keys, Ne.symm here]
      rw [if_neg here, keys, List.map_cons, ← keys, ih]
      simp only [there]
      split <;> rfl

/-- A store under a new key makes the map longer by one. -/
lemma length_put : (put k v es).length = if k ∈ keys es then es.length else es.length + 1 := by
  have lengths := congrArg List.length (@keys_put K V _ es k v)
  rw [keys, List.length_map] at lengths
  rw [lengths]
  split <;> simp [keys]

/-- What is in a map behind a store. -/
lemma mem_put (distinct : (keys es).Nodup) {e : K × V} (mem : e ∈ put k v es) :
    e = (k, v) ∨ e ∈ es ∧ e.1 ≠ k := by
  induction es with
  | nil => exact .inl (List.mem_singleton.mp mem)
  | cons d es ih =>
    rw [keys, List.map_cons, List.nodup_cons] at distinct
    rw [put] at mem
    split at mem
    next here =>
      obtain rfl | mem := List.mem_cons.mp mem
      · exact .inl rfl
      · exact .inr ⟨List.mem_cons_of_mem _ mem, fun same => distinct.1 (here ▸ same ▸ mem_keys mem)⟩
    next other =>
      obtain rfl | mem := List.mem_cons.mp mem
      · exact .inr ⟨List.mem_cons_self, other⟩
      · exact (ih distinct.2 mem).imp_right (And.imp_left (List.mem_cons_of_mem _))

/-- A store keeps the keys distinct. -/
lemma nodup_put (distinct : (keys es).Nodup) : (keys (put k v es)).Nodup := by
  rw [keys_put]
  split
  · exact distinct
  next new => exact distinct.append (List.nodup_singleton k) (List.disjoint_singleton.mpr new)

/-- The entries that are left when a key was taken out. -/
lemma mem_unset {e : K × V} : e ∈ unset k es ↔ e ∈ es ∧ e.1 ≠ k := by simp [unset]

/-- The keys that are left when one was taken out, in their order. -/
lemma keys_unset : keys (unset k es) = (keys es).filter fun j => j ≠ k := by
  rw [keys, keys, unset, List.filter_map]
  rfl

/-- The keys that are left are distinct. -/
lemma nodup_unset (distinct : (keys es).Nodup) : (keys (unset k es)).Nodup := by
  rw [keys_unset]
  exact distinct.filter _

/-- A key that is taken out is one entry. -/
lemma length_unset (distinct : (keys es).Nodup) (mem : k ∈ keys es) :
    (unset k es).length + 1 = es.length := by
  have once : (keys es).count k = 1 := List.count_eq_one_of_mem distinct mem
  have both : es.length = (keys es).count k + (unset k es).length := by
    rw [unset, ← List.countP_eq_length_filter, keys, List.count, List.countP_map,
      List.length_eq_countP_add_countP (fun e => e.1 == k)]
    simp [Function.comp_def]
  omega

/-- A store under a new key appends. -/
lemma put_new (new : k ∉ keys es) : put k v es = es ++ [(k, v)] := by
  induction es with
  | nil => rfl
  | cons e es ih =>
    rw [keys, List.map_cons, List.mem_cons, not_or] at new
    rw [put, if_neg (Ne.symm new.1), ih new.2, List.cons_append]

/-- Taking out several keys leaves the entries with none of them. -/
lemma foldl_unset (ks : List (K × V)) :
    ks.foldl (fun es e => unset e.1 es) es = es.filter fun e => e.1 ∉ keys ks := by
  induction ks generalizing es with
  | nil => simp [keys]
  | cons e ks ih =>
    rw [List.foldl_cons, ih, unset, List.filter_filter]
    apply List.filter_congr
    intro e' _
    rw [Bool.eq_iff_iff]
    simp only [Bool.and_eq_true, decide_eq_true_eq]
    simp [keys, and_comm]

end Update

end SweetClib.Lib.OrderedMap
