import Mathlib.Tactic

/-!
# Heaps and linked chains

A heap maps addresses to cells; a pointer is an optional address, `none` being the null pointer.
The allocator is under the control of its environment: `Heap.malloc` is given the address the
environment offers and hands it out unless it is in use, so that the answers over all offers are
exactly the null pointer and the addresses that are free.

`Chain data next h p l q` says that following `next` from the pointer `p` visits the cells at the
addresses of `l`, which hold the data of `l`, and ends at the pointer `q`. The lemmas:
* `Chain.append_iff`: a chain splits wherever its list does.
* `Chain.frame`: a chain only depends on the cells it visits.
* `Chain.functional`, `Chain.nodup`: a chain that ends in the null pointer is determined by its
  start and visits no cell twice.
* `Chain.splice`: the part of a chain after an element can be exchanged by rewriting that element.
* `Chain.reach_iff`: the cells that can be reached from the start are the cells of the chain.
-/

namespace SweetClib.Lib

/-- Addresses of cells. -/
abbrev Addr := Nat

/-- A heap of cells `ν`. -/
def Heap (ν : Type*) := Addr → Option ν

variable {ν δ : Type*}

/-- The heap without cells. -/
def Heap.empty : Heap ν := fun _ => none

/-- Write the cell at an address. -/
def Heap.set (h : Heap ν) (a : Addr) (c : ν) : Heap ν := fun x => if x = a then some c else h x

/-- Release the cell at an address. -/
def Heap.free (h : Heap ν) (a : Addr) : Heap ν := fun x => if x = a then none else h x

/-- Allocation: the offered address, unless there is none or it is in use. -/
def Heap.malloc (h : Heap ν) (offer : Option Addr) : Option Addr :=
  match offer with
  | none => none
  | some a => if (h a).isNone then some a else none

@[simp] lemma Heap.set_same (h : Heap ν) (a : Addr) (c : ν) : h.set a c a = some c := by
  simp [Heap.set]

@[simp] lemma Heap.set_other (h : Heap ν) {a x : Addr} (c : ν) (ne : x ≠ a) :
    h.set a c x = h x := by
  simp [Heap.set, ne]

@[simp] lemma Heap.free_same (h : Heap ν) (a : Addr) : h.free a a = none := by
  simp [Heap.free]

@[simp] lemma Heap.free_other (h : Heap ν) {a x : Addr} (ne : x ≠ a) : h.free a x = h x := by
  simp [Heap.free, ne]

lemma Heap.malloc_fresh {h : Heap ν} {offer a} (e : h.malloc offer = some a) : h a = none := by
  cases offer with
  | none => simp [Heap.malloc] at e
  | some b =>
    simp only [Heap.malloc, Option.isNone_iff_eq_none, Option.ite_none_right_eq_some,
      Option.some.injEq] at e
    obtain ⟨fr, rfl⟩ := e
    exact fr

/-- A chain of cells from the pointer `p` to the pointer `q`. -/
def Chain (data : ν → δ) (next : ν → Option Addr) (h : Heap ν) :
    Option Addr → List (Addr × δ) → Option Addr → Prop
  | p, [], q => p = q
  | p, (a, d) :: l, q =>
    p = some a ∧ ∃ c, h a = some c ∧ data c = d ∧ Chain data next h (next c) l q

/-- The cells that can be reached from a pointer. -/
inductive Reach (next : ν → Option Addr) (h : Heap ν) : Option Addr → Addr → Prop where
  | here {a c} :
    h a = some c →
    Reach next h (some a) a
  | there {a c e} :
    h a = some c →
    Reach next h (next c) e →
    Reach next h (some a) e

section Chain

variable {data : ν → δ} {next : ν → Option Addr} {h h' : Heap ν}

/-- A chain splits wherever its list does. -/
lemma Chain.append_iff {p q : Option Addr} {l₁ l₂ : List (Addr × δ)} :
    Chain data next h p (l₁ ++ l₂) q ↔
      ∃ m, Chain data next h p l₁ m ∧ Chain data next h m l₂ q := by
  induction l₁ generalizing p with
  | nil => simp [Chain]
  | cons x l₁ ih =>
    obtain ⟨a, d⟩ := x
    simp only [List.cons_append, Chain]
    constructor
    · rintro ⟨rfl, c, ha, hd, ch⟩
      obtain ⟨m, ch₁, ch₂⟩ := ih.mp ch
      exact ⟨m, ⟨rfl, c, ha, hd, ch₁⟩, ch₂⟩
    · rintro ⟨m, ⟨rfl, c, ha, hd, ch₁⟩, ch₂⟩
      exact ⟨rfl, c, ha, hd, ih.mpr ⟨m, ch₁, ch₂⟩⟩

/-- A chain only depends on the cells it visits. -/
lemma Chain.frame {p q : Option Addr} {l : List (Addr × δ)} (ch : Chain data next h p l q)
    (agree : ∀ x ∈ l, h' x.1 = h x.1) : Chain data next h' p l q := by
  induction l generalizing p with
  | nil => exact ch
  | cons x l ih =>
    obtain ⟨a, d⟩ := x
    obtain ⟨rfl, c, ha, hd, ch⟩ := ch
    refine ⟨rfl, c, ?_, hd, ih ch fun y hy => agree y (List.mem_cons_of_mem _ hy)⟩
    rw [agree (a, d) List.mem_cons_self, ha]

/-- The cells of a chain are allocated and hold its data. -/
lemma Chain.live {p q : Option Addr} {l : List (Addr × δ)} {x : Addr × δ}
    (ch : Chain data next h p l q) (mem : x ∈ l) : ∃ c, h x.1 = some c ∧ data c = x.2 := by
  obtain ⟨l₁, l₂, rfl⟩ := List.append_of_mem mem
  obtain ⟨m, _, ch₂⟩ := Chain.append_iff.mp ch
  obtain ⟨_, c, ha, hd, _⟩ := ch₂
  exact ⟨c, ha, hd⟩

/-- A chain to the null pointer is determined by its start. -/
lemma Chain.functional {p : Option Addr} {l l' : List (Addr × δ)}
    (ch : Chain data next h p l none) (ch' : Chain data next h p l' none) : l = l' := by
  induction l generalizing p l' with
  | nil =>
    subst ch
    cases l' with
    | nil => rfl
    | cons x l' => exact absurd ch'.1 (by simp)
  | cons x l ih =>
    obtain ⟨a, d⟩ := x
    obtain ⟨rfl, c, ha, hd, ch⟩ := ch
    cases l' with
    | nil => exact absurd ch' (by simp [Chain])
    | cons y l' =>
      obtain ⟨b, d'⟩ := y
      obtain ⟨e, c', hb, hd', ch'⟩ := ch'
      cases e
      rw [ha] at hb
      cases hb
      rw [ih ch ch', ← hd, ← hd']

/-- A chain to the null pointer visits no cell twice. -/
lemma Chain.nodup {p : Option Addr} {l : List (Addr × δ)} (ch : Chain data next h p l none) :
    (l.map Prod.fst).Nodup := by
  induction l generalizing p with
  | nil => exact List.nodup_nil
  | cons x l ih =>
    obtain ⟨a, d⟩ := x
    have ch₀ := ch
    obtain ⟨rfl, c, ha, hd, ch⟩ := ch
    rw [List.map_cons, List.nodup_cons]
    refine ⟨?_, ih ch⟩
    -- a second visit would start the same chain again, and a chain is no proper part of itself
    intro mem
    obtain ⟨⟨a', d'⟩, hm, e⟩ := List.mem_map.mp mem
    simp only at e
    subst e
    obtain ⟨l₁, l₂, rfl⟩ := List.append_of_mem hm
    obtain ⟨m, _, ch₂⟩ := Chain.append_iff.mp ch
    obtain ⟨em, c', ha', hd', ch₂⟩ := ch₂
    have ch₁ : Chain data next h (some a') ((a', d') :: l₂) none := ⟨rfl, c', ha', hd', ch₂⟩
    have same := Chain.functional ch₀ ch₁
    have len := congrArg List.length same
    simp only [List.length_cons, List.length_append] at len
    omega

/-- Exchange what follows the element `e` of a chain by rewriting the cell of `e`. -/
lemma Chain.splice {p q q' : Option Addr} {l₁ l₂ l₂' : List (Addr × δ)} {e : Addr} {d : δ} {c : ν}
    (ch : Chain data next h p (l₁ ++ (e, d) :: l₂) q) (agree : ∀ x ∈ l₁, h' x.1 = h x.1)
    (he : h' e = some c) (hd : data c = d) (ch' : Chain data next h' (next c) l₂' q') :
    Chain data next h' p (l₁ ++ (e, d) :: l₂') q' := by
  obtain ⟨m, ch₁, ch₂⟩ := Chain.append_iff.mp ch
  obtain ⟨rfl, _, _, _, _⟩ := ch₂
  exact Chain.append_iff.mpr ⟨some e, ch₁.frame agree, rfl, c, he, hd, ch'⟩

/-- The cells reached from the start of a chain are the cells of the chain. -/
lemma Chain.reach_iff {p : Option Addr} {l : List (Addr × δ)} (ch : Chain data next h p l none)
    {e : Addr} : Reach next h p e ↔ e ∈ l.map Prod.fst := by
  induction l generalizing p with
  | nil =>
    subst ch
    simp only [List.map_nil, List.not_mem_nil, iff_false]
    intro r
    cases r
  | cons x l ih =>
    obtain ⟨a, d⟩ := x
    obtain ⟨rfl, c, ha, hd, ch⟩ := ch
    simp only [List.map_cons, List.mem_cons]
    constructor
    · intro r
      cases r with
      | here _ => exact .inl rfl
      | there ha' r =>
        rw [ha] at ha'
        cases ha'
        exact .inr ((ih ch).mp r)
    · rintro (rfl | mem)
      · exact .here ha
      · exact .there ha ((ih ch).mpr mem)

end Chain

end SweetClib.Lib
