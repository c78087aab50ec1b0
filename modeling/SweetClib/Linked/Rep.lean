import SweetClib.Linked.List

/-!
# What a list represents

`Rep heap list l`: the header `list` represents the sequence `l` of elements, each given by its
address and its data. The chain from `head` visits exactly these elements and ends in the null
pointer, `size` is their number and `tail` points to the last one. Each operation of `list.c` has
one lemma for each of its outcomes, which says what is represented afterwards and which cells of
the heap were touched; the developments on top of lists use these and never unfold the operations.
-/

namespace SweetClib.Linked
open SweetClib.Lib

variable {D : Type*}

/-- Chains of list elements. -/
abbrev Elmts (heap : Heap (ListElmt D)) (p : Option Addr) (l : List (Addr × D)) (q : Option Addr) :
    Prop :=
  Chain ListElmt.data ListElmt.next heap p l q

/-- The header `list` represents the sequence `l`. -/
structure Rep (heap : Heap (ListElmt D)) (list : List_) (l : List (Addr × D)) : Prop where
  chain : Elmts heap list.head l none
  size : list.size = l.length
  tail : list.tail = l.getLast?.map Prod.fst

/-- A fresh header represents the empty sequence. -/
lemma Rep.init (heap : Heap (ListElmt D)) (destroy : Bool) : Rep heap (listInit destroy) [] :=
  ⟨rfl, rfl, rfl⟩

/-- The elements are distinct. -/
lemma Rep.nodup {heap : Heap (ListElmt D)} {list l} (rep : Rep heap list l) :
    (l.map Prod.fst).Nodup :=
  rep.chain.nodup

/-- The elements are allocated. -/
lemma Rep.live {heap : Heap (ListElmt D)} {list l} (rep : Rep heap list l) {x : Addr × D}
    (mem : x ∈ l) : heap x.1 ≠ none := by
  obtain ⟨c, hx, _⟩ := rep.chain.live mem
  simp [hx]

/-- An address that is free holds no represented element. -/
lemma Rep.fresh {heap : Heap (ListElmt D)} {list l a} (rep : Rep heap list l) (fr : heap a = none)
    {x : Addr × D} (mem : x ∈ l) : x.1 ≠ a := by
  intro e
  exact rep.live mem (by rw [e, fr])

/-- A list is unaffected by changes to cells that are not its own. -/
lemma Rep.frame {heap heap' : Heap (ListElmt D)} {list l} (rep : Rep heap list l)
    (agree : ∀ x ∈ l, heap' x.1 = heap x.1) : Rep heap' list l :=
  ⟨rep.chain.frame agree, rep.size, rep.tail⟩

/-- The null tail is the mark of the empty list. -/
lemma Rep.tail_eq_none {heap : Heap (ListElmt D)} {list l} (rep : Rep heap list l) :
    list.tail = none ↔ l = [] := by
  rw [rep.tail, Option.map_eq_none_iff, List.getLast?_eq_none_iff]

/-- Without memory nothing is inserted. -/
lemma listInsNext_fail {heap : Heap (ListElmt D)} {list e offer} {d : D}
    (m : heap.malloc offer = none) : listInsNext heap list e d offer = some (-1, heap, list) := by
  simp [listInsNext, m]

/-- An insertion at the front. -/
lemma listInsNext_front {heap : Heap (ListElmt D)} {list l offer a}
    (rep : Rep heap list l) (m : heap.malloc offer = some a) (d : D) :
    ∃ heap' list', listInsNext heap list none d offer = some (0, heap', list') ∧
      Rep heap' list' ((a, d) :: l) ∧ ∀ x, x ≠ a → heap' x = heap x := by
  have fr := Heap.malloc_fresh m
  refine ⟨heap.set a ⟨d, list.head⟩, _, by simp only [listInsNext, m]; rfl, ⟨?_, ?_, ?_⟩,
    fun x ne => Heap.set_other _ _ ne⟩
  · refine ⟨rfl, ⟨d, list.head⟩, Heap.set_same _ _ _, rfl, rep.chain.frame fun x mem => ?_⟩
    exact Heap.set_other _ _ (rep.fresh fr mem)
  · simp [rep.size]
  · -- the first element of an empty list is its last one
    cases l with
    | nil => simp [rep.size]
    | cons y l =>
      have ne : list.size ≠ 0 := by rw [rep.size]; simp; omega
      simp [ne, rep.tail]

/-- An insertion after an element. -/
lemma listInsNext_after {heap : Heap (ListElmt D)} {list l₁ l₂ e de offer a}
    (rep : Rep heap list (l₁ ++ (e, de) :: l₂)) (m : heap.malloc offer = some a) (d : D) :
    ∃ heap' list', listInsNext heap list (some e) d offer = some (0, heap', list') ∧
      Rep heap' list' (l₁ ++ (e, de) :: (a, d) :: l₂) ∧
      ∀ x, x ≠ a → x ≠ e → heap' x = heap x := by
  have fr := Heap.malloc_fresh m
  have nd := rep.nodup
  simp only [List.map_append, List.map_cons, List.nodup_append, List.nodup_cons] at nd
  obtain ⟨_, ⟨nd₂, _⟩, nd₁⟩ := nd
  obtain ⟨p, ch₁, ch₂⟩ := Chain.append_iff.mp rep.chain
  obtain ⟨_, elmt, he, hde, ch₂⟩ := ch₂
  have ea : e ≠ a := rep.fresh fr (x := (e, de)) (by simp)
  refine ⟨(heap.set a ⟨d, elmt.next⟩).set e { elmt with next := some a }, _,
    by simp only [listInsNext, m, he]; rfl, ⟨?_, ?_, ?_⟩, ?_⟩
  · refine rep.chain.splice (c := { elmt with next := some a }) (fun x mem => ?_)
      (Heap.set_same _ _ _) hde ⟨rfl, ⟨d, elmt.next⟩, ?_, rfl, ?_⟩
    · have ne : x.1 ≠ e := nd₁ x.1 (List.mem_map_of_mem mem) e (by simp)
      rw [Heap.set_other _ _ ne, Heap.set_other _ _ (rep.fresh fr (by simp [mem]))]
    · rw [Heap.set_other _ _ ea.symm, Heap.set_same]
    · refine ch₂.frame fun x mem => ?_
      have ne : x.1 ≠ e := fun eq => nd₂ (eq ▸ List.mem_map_of_mem mem)
      rw [Heap.set_other _ _ ne, Heap.set_other _ _ (rep.fresh fr (by simp [mem]))]
  · simp [rep.size]
    omega
  · -- the new element is the last one exactly when `e` was
    cases l₂ with
    | nil =>
      have nx : elmt.next = none := ch₂
      simp [nx]
    | cons y l₂ =>
      have nx : elmt.next = some y.1 := ch₂.1
      simp [nx, rep.tail]
  · intro x xa xe
    rw [Heap.set_other _ _ xe, Heap.set_other _ _ xa]

/-- Nothing can be removed from an empty list. -/
lemma listRemNext_nil {heap : Heap (ListElmt D)} {list e} {d : D} (rep : Rep heap list []) :
    listRemNext heap list e d = some (-1, heap, list, d) := by
  simp [listRemNext, rep.size]

/-- Nothing can be removed after the last element. -/
lemma listRemNext_last {heap : Heap (ListElmt D)} {list l₁ e de} {d : D}
    (rep : Rep heap list (l₁ ++ [(e, de)])) :
    listRemNext heap list (some e) d = some (-1, heap, list, d) := by
  have ne : list.size ≠ 0 := by rw [rep.size]; simp; omega
  obtain ⟨p, _, ch₂⟩ := Chain.append_iff.mp rep.chain
  obtain ⟨_, elmt, he, _, nx⟩ := ch₂
  have nx : elmt.next = none := nx
  simp [listRemNext, ne, he, nx]

/-- A removal at the front. -/
lemma listRemNext_front {heap : Heap (ListElmt D)} {list l a d}
    (rep : Rep heap list ((a, d) :: l)) (d₀ : D) :
    ∃ heap' list', listRemNext heap list none d₀ = some (0, heap', list', d) ∧
      Rep heap' list' l ∧ heap' a = none ∧ ∀ x, x ≠ a → heap' x = heap x := by
  have sz := rep.size
  have ne : list.size ≠ 0 := by rw [sz]; simp; omega
  have nd := rep.nodup
  rw [List.map_cons, List.nodup_cons] at nd
  obtain ⟨hd, old, ha, hold, ch⟩ := rep.chain
  refine ⟨heap.free a, _, by simp only [listRemNext, ne, hd, ha, hold]; rfl, ⟨?_, ?_, ?_⟩,
    Heap.free_same _ _, fun x xa => Heap.free_other _ xa⟩
  · refine ch.frame fun x mem => Heap.free_other _ ?_
    rintro rfl
    exact nd.1 (List.mem_map.mpr ⟨x, mem, rfl⟩)
  · simp [sz]
  · -- removing the only element leaves no last one
    cases l with
    | nil => simp [sz]
    | cons y l =>
      have n1 : list.size ≠ 1 := by rw [sz]; simp; omega
      simp [n1, rep.tail]

/-- Removal of the element right after `e`. -/
lemma listRemNext_after {heap : Heap (ListElmt D)} {list l₁ l₂ e de a d}
    (rep : Rep heap list (l₁ ++ (e, de) :: (a, d) :: l₂)) (d₀ : D) :
    ∃ heap' list', listRemNext heap list (some e) d₀ = some (0, heap', list', d) ∧
      Rep heap' list' (l₁ ++ (e, de) :: l₂) ∧ heap' a = none ∧
      ∀ x, x ≠ a → x ≠ e → heap' x = heap x := by
  have sz := rep.size
  have ne : list.size ≠ 0 := by rw [sz]; simp; omega
  have nd := rep.nodup
  simp only [List.map_append, List.map_cons, List.nodup_append, List.nodup_cons, List.mem_cons,
    not_or] at nd
  obtain ⟨_, ⟨⟨ea, nde⟩, nda, _⟩, nd₁⟩ := nd
  obtain ⟨p, ch₁, ch₂⟩ := Chain.append_iff.mp rep.chain
  obtain ⟨_, elmt, he, hde, nx, old, ha, hold, ch₂⟩ := ch₂
  refine ⟨(heap.set e { elmt with next := old.next }).free a, _,
    by simp only [listRemNext, ne, he, nx, ha, hold]; rfl, ⟨?_, ?_, ?_⟩, Heap.free_same _ _, ?_⟩
  · refine rep.chain.splice (c := { elmt with next := old.next }) (fun x mem => ?_)
      (by rw [Heap.free_other _ ea, Heap.set_same]) hde (ch₂.frame fun x mem => ?_)
    · have xe : x.1 ≠ e := nd₁ x.1 (List.mem_map_of_mem mem) e (by simp)
      have xa : x.1 ≠ a := nd₁ x.1 (List.mem_map_of_mem mem) a (by simp)
      rw [Heap.free_other _ xa, Heap.set_other _ _ xe]
    · have xe : x.1 ≠ e := fun eq => nde (eq ▸ List.mem_map_of_mem mem)
      have xa : x.1 ≠ a := fun eq => nda (eq ▸ List.mem_map_of_mem mem)
      rw [Heap.free_other _ xa, Heap.set_other _ _ xe]
  · simp [sz]
    omega
  · -- `e` becomes the last element exactly when the removed one was
    cases l₂ with
    | nil =>
      have nx' : old.next = none := ch₂
      simp [nx']
    | cons y l₂ =>
      have nx' : old.next = some y.1 := ch₂.1
      simp [nx', rep.tail]
  · intro x xa xe
    rw [Heap.free_other _ xa, Heap.set_other _ _ xe]

/-- An insertion keeps the callback. -/
lemma listInsNext_destroy {heap heap' : Heap (ListElmt D)} {list list' e offer ret} {d : D}
    (st : listInsNext heap list e d offer = some (ret, heap', list')) :
    list'.destroy = list.destroy := by
  unfold listInsNext at st
  split at st
  · cases st
    rfl
  · split at st
    · cases st
      rfl
    · split at st
      · cases st
      · cases st
        rfl

/-- A removal keeps the callback. -/
lemma listRemNext_destroy {heap heap' : Heap (ListElmt D)} {list list' e ret} {d d' : D}
    (st : listRemNext heap list e d = some (ret, heap', list', d')) :
    list'.destroy = list.destroy := by
  unfold listRemNext at st
  split at st
  · cases st
    rfl
  · cases e with
    | none =>
      simp only at st
      split at st
      · cases st
      · split at st
        · cases st
        · cases st
          rfl
    | some e =>
      simp only at st
      split at st
      · cases st
      · split at st
        · cases st
          rfl
        · split at st
          · cases st
          · cases st
            rfl

/-- The loop of `list_destroy` ends after as many rounds as there are elements: the list is empty,
all data went to `destroy` and only its own cells were touched. -/
lemma listDestroyLoop_spec {heap : Heap (ListElmt D)} {list l} (rep : Rep heap list l)
    (destroy : list.destroy = true) (d : D) :
    ∃ heap' list', listDestroyLoop l.length heap list d = some (heap', list', l.map Prod.snd) ∧
      Rep heap' list' [] ∧ ∀ x, x ∉ l.map Prod.fst → heap' x = heap x := by
  induction l generalizing heap list d with
  | nil =>
    have done : ¬ list.size > 0 := by simp [rep.size]
    exact ⟨heap, list, by simp [listDestroyLoop, done], rep, fun _ _ => rfl⟩
  | cons x l ih =>
    obtain ⟨heap₁, list₁, rem, rep₁, _, frame₁⟩ := listRemNext_front rep d
    have destroy₁ : list₁.destroy = true := (listRemNext_destroy rem).trans destroy
    obtain ⟨heap', list', loop, rep', frame⟩ := ih rep₁ destroy₁ x.2
    have more : list.size > 0 := by simp [rep.size]
    refine ⟨heap', list', ?_, rep', fun y ne => ?_⟩
    · rw [List.length_cons, listDestroyLoop, if_pos more]
      simp [rem, loop, destroy₁]
    · rw [List.map_cons, List.mem_cons, not_or] at ne
      rw [frame y ne.2, frame₁ y ne.1]

/-- `list_destroy` ends and leaves an empty list. -/
lemma listDestroy_spec {heap : Heap (ListElmt D)} {list l} (rep : Rep heap list l)
    (destroy : list.destroy = true) (d : D) :
    ∃ heap' list', listDestroy heap list d = some (heap', list', l.map Prod.snd) ∧
      Rep heap' list' [] ∧ ∀ x, x ∉ l.map Prod.fst → heap' x = heap x := by
  have rounds : list.size.toNat = l.length := by simp [rep.size]
  rw [listDestroy, rounds]
  exact listDestroyLoop_spec rep destroy d

end SweetClib.Linked
