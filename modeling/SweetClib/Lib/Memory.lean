import SweetClib.Lib.Heap

/-!
# Memory of bytes

The heap of `Lib/Heap.lean` with a byte in every cell: an address that holds nothing belongs to no
object, and an access there is a fault. `Holds h p v` says that the bytes of `v` lie at `p`,
`HoldsAll h p l` that the blocks of `l` lie there one after the other. A block of an array is
exchanged by copying over it (`HoldsAll.memcpy`), which leaves the other blocks and everything
outside of the array as it was.
-/

namespace SweetClib.Lib

variable {n : Nat}

/-- An address among the `n` that start at `p`. -/
abbrev Inside (p n x : Nat) : Prop := p ≤ x ∧ x < p + n

/-- Allocation of `n` bytes, which hold `junk`; they are those at the offered address, unless one
is in use. -/
def mallocBytes (h : Heap UInt8) (offer : Option Addr) (n : Nat) (junk : Nat → UInt8) :
    Option (Addr × Heap UInt8) :=
  match offer with
  | none => none
  | some a =>
    if ∀ i < n, (h (a + i)).isNone then
      some (a, fun x => if Inside a n x then some (junk (x - a)) else h x)
    else none

/-- Release of `n` bytes. -/
def freeBytes (h : Heap UInt8) (a n : Nat) : Heap UInt8 :=
  fun x => if Inside a n x then none else h x

/-- Copy `n` bytes between objects (C `memcpy`); the ranges must not overlap. -/
def memcpy (h : Heap UInt8) (dst src n : Nat) : Option (Heap UInt8) :=
  if (dst + n ≤ src ∨ src + n ≤ dst) ∧ ∀ i < n, (h (src + i)).isSome ∧ (h (dst + i)).isSome then
    some fun x => if Inside dst n x then h (src + (x - dst)) else h x
  else none

/-- The bytes of `v` lie at `p`. -/
def Holds (h : Heap UInt8) (p : Nat) (v : Vector UInt8 n) : Prop :=
  ∀ i (lt : i < n), h (p + i) = some v[i]

/-- The blocks of `l` lie at `p`, one after the other. -/
def HoldsAll (h : Heap UInt8) (p : Nat) (l : List (Vector UInt8 n)) : Prop :=
  ∀ i v, l[i]? = some v → Holds h (p + i * n) v

section Memory

variable {h h' : Heap UInt8} {p q : Nat} {v : Vector UInt8 n} {l : List (Vector UInt8 n)}

/-- What is allocated was free, is in use afterwards, and nothing else changes. -/
lemma mallocBytes_spec {offer : Option Addr} {junk : Nat → UInt8}
    (e : mallocBytes h offer n junk = some (p, h')) :
    (∀ x, Inside p n x → h x = none) ∧ (∀ i < n, h' (p + i) ≠ none) ∧ ∀ x, ¬ Inside p n x →
      h' x = h x := by
  cases offer with
  | none => cases e
  | some a =>
    simp only [mallocBytes, Option.isNone_iff_eq_none, Option.ite_none_right_eq_some,
      Option.some.injEq] at e
    obtain ⟨free, e⟩ := e
    cases e
    refine ⟨?_, ?_, fun x out => if_neg out⟩
    · intro x inside
      have := free (x - p) (by omega)
      rwa [Nat.add_sub_cancel' inside.1] at this
    · intro i lt
      have inside : Inside p n (p + i) := ⟨by omega, by omega⟩
      show (if Inside p n (p + i) then some (junk (p + i - p)) else h (p + i)) ≠ none
      rw [if_pos inside]
      exact Option.some_ne_none _

/-- A block only depends on its own bytes. -/
lemma Holds.frame (at_p : Holds h p v) (same : ∀ x, Inside p n x → h' x = h x) : Holds h' p v := by
  intro i lt
  rw [same (p + i) ⟨by omega, by omega⟩]
  exact at_p i lt

/-- Another block of the array lies before or behind. -/
lemma blocks_apart {i k : Nat} (ne : i ≠ k) :
    p + i * n + n ≤ p + k * n ∨ p + k * n + n ≤ p + i * n := by
  rcases Nat.lt_or_gt_of_ne ne with lt | gt
  · left
    have := Nat.mul_le_mul_right n (Nat.succ_le_of_lt lt)
    rw [Nat.succ_mul] at this
    omega
  · right
    have := Nat.mul_le_mul_right n (Nat.succ_le_of_lt gt)
    rw [Nat.succ_mul] at this
    omega

/-- A block of the array lies inside of it. -/
lemma block_inside {i x : Nat} (lt : i < l.length) (inside : Inside (p + i * n) n x) :
    Inside p (l.length * n) x := by
  have := Nat.mul_le_mul_right n (Nat.succ_le_of_lt lt)
  rw [Nat.succ_mul] at this
  exact ⟨by omega, by omega⟩

/-- What has no byte in common with the array lies before or behind each of its blocks. -/
lemma block_apart {i : Nat} (lt : i < l.length)
    (apart : ∀ x, Inside q n x → ¬ Inside p (l.length * n) x) :
    q + n ≤ p + i * n ∨ p + i * n + n ≤ q := by
  by_contra meet
  -- the later of the two starts would be in both of them
  have at_q : Inside q n (max q (p + i * n)) := ⟨by omega, by omega⟩
  have at_block : Inside (p + i * n) n (max q (p + i * n)) := ⟨by omega, by omega⟩
  exact apart _ at_q (block_inside lt at_block)

/-- An array only depends on its own bytes. -/
lemma HoldsAll.frame (arr : HoldsAll h p l) (same : ∀ x, Inside p (l.length * n) x → h' x = h x) :
    HoldsAll h' p l := by
  intro i v found
  have lt : i < l.length := (List.getElem?_eq_some_iff.mp found).1
  apply (arr i v found).frame
  intro x inside
  exact same x (block_inside lt inside)

/-- Copying a block to memory that is in use. -/
lemma Holds.memcpy (src : Holds h q v) (apart : p + n ≤ q ∨ q + n ≤ p)
    (used : ∀ i < n, h (p + i) ≠ none) :
    ∃ h', memcpy h p q n = some h' ∧ Holds h' p v ∧ ∀ x, ¬ Inside p n x → h' x = h x := by
  have ok : ∀ i < n, (h (q + i)).isSome ∧ (h (p + i)).isSome := by
    intro i lt
    refine ⟨?_, Option.isSome_iff_ne_none.mpr (used i lt)⟩
    rw [src i lt]
    rfl
  refine ⟨_, if_pos ⟨apart, ok⟩, ?_, fun x out => if_neg out⟩
  intro i lt
  have inside : Inside p n (p + i) := ⟨by omega, by omega⟩
  simp only [if_pos inside, Nat.add_sub_cancel_left]
  exact src i lt

/-- The bytes of a block are in use. -/
lemma Holds.used (at_p : Holds h p v) : ∀ i < n, h (p + i) ≠ none := by
  intro i lt
  rw [at_p i lt]
  exact Option.some_ne_none _

/-- The bytes of an array are in use. -/
lemma HoldsAll.used (arr : HoldsAll h p l) (x : Nat) (inside : Inside p (l.length * n) x) :
    h x ≠ none := by
  obtain ⟨low, high⟩ := inside
  have pos : 0 < n := by
    apply Nat.pos_of_ne_zero
    rintro rfl
    simp only [Nat.mul_zero] at high
    omega
  have lt : (x - p) / n < l.length := Nat.div_lt_of_lt_mul (by rw [Nat.mul_comm]; omega)
  have at_x : p + (x - p) / n * n + (x - p) % n = x := by
    have := Nat.div_add_mod' (x - p) n
    omega
  have := (arr _ _ (List.getElem?_eq_getElem lt)).used _ (Nat.mod_lt (x - p) pos)
  rw [at_x] at this
  exact this

/-- Copying a block over the block `k` of an array. -/
lemma HoldsAll.memcpy (arr : HoldsAll h p l) {k : Nat} (lt : k < l.length) (src : Holds h q v)
    (apart : p + k * n + n ≤ q ∨ q + n ≤ p + k * n) :
    ∃ h', memcpy h (p + k * n) q n = some h' ∧ HoldsAll h' p (l.set k v) ∧
      ∀ x, ¬ Inside p (l.length * n) x → h' x = h x := by
  have old : Holds h (p + k * n) l[k] := arr k l[k] (List.getElem?_eq_getElem lt)
  obtain ⟨h', copy, new, frame⟩ := src.memcpy apart old.used
  refine ⟨h', copy, ?_, fun x out => frame x fun at_k => out (block_inside lt at_k)⟩
  intro i w found
  by_cases e : i = k
  · subst e
    rw [List.getElem?_set_self lt] at found
    cases found
    exact new
  · rw [List.getElem?_set_ne (Ne.symm e)] at found
    apply (arr i w found).frame
    intro x inside
    apply frame
    have := blocks_apart (p := p) (n := n) e
    rintro ⟨_, _⟩
    omega

end Memory

end SweetClib.Lib
