import SweetClib.Lib.Memory
import SweetClib.Lib.Insertion

/-!
# Insertion sort

Model of `lib/sort/issort.c`. The array and the key buffer are bytes of the memory of
`Lib/Memory.lean`; an access outside of the objects there, an overlapping `memcpy` or a product
that is no `int` is a fault, `none`. The comparison function is any function of the memory and the
two pointers it is given, and may keep a state of its own.

C → Lean naming: `issort` keeps its name; its inner loop is `shiftLoop`, which is given the number
of elements in front of the hole (`i + 1`), its outer loop is `sortLoop`, which is given the rounds
that are left and `j`. The result of `malloc` is decided by `offer`, and `junk` is what the new
bytes hold.

While the inner loop runs, the array is `l₁ ++ hole :: l₂ ++ rest`: the elements of `l₁` are still
in their places, those of `l₂` have moved up by one, and the key is in its buffer only
(`shiftLoop_spec`). The outer loop carries that the part sorted so far is a permutation of what
stood there, sorted and in the same order (`Sorting`).
-/

namespace SweetClib.Sort
open SweetClib.Lib

/-- A comparison function of the memory, with its own state. -/
abbrev Compare (σ : Type) := σ → Heap UInt8 → Addr → Addr → Int × σ

variable {σ : Type} (compare : Compare σ) (data esize : Nat)

/-- The address of an element (C `&a[i * esize]`); the product is an `int`. -/
def elemAt (i : Nat) : Option Addr :=
  if i * esize < 2 ^ 31 then some (data + i * esize) else none

/-- The loop `while (i >= 0 && compare(&a[i * esize], key) > 0)`, from `i + 1`. -/
def shiftLoop (key : Addr) : Nat → σ → Heap UInt8 → Option (Nat × σ × Heap UInt8)
  | 0, st, heap => some (0, st, heap)
  | i + 1, st, heap => do
    let a ← elemAt data esize i
    let r := compare st heap a key
    if r.1 > 0 then
      let b ← elemAt data esize (i + 1)
      let heap ← memcpy heap b a esize
      shiftLoop key i r.2 heap
    else return (i + 1, r.2, heap)

/-- The loop `for (j = 1; j < size; j++)`. -/
def sortLoop (key : Addr) : Nat → Nat → σ → Heap UInt8 → Option (σ × Heap UInt8)
  | 0, _, st, heap => some (st, heap)
  | n + 1, j, st, heap => do
    let a ← elemAt data esize j
    let heap ← memcpy heap key a esize
    let r ← shiftLoop compare data esize key j st heap
    let b ← elemAt data esize r.1
    let heap ← memcpy r.2.2 b key esize
    sortLoop key n (j + 1) r.2.1 heap

/-- Sort the array of `size` elements at `data` (C `issort`). -/
def issort (size : Nat) (offer : Option Addr) (junk : Nat → UInt8) (st : σ) (heap : Heap UInt8) :
    Option (Int × σ × Heap UInt8) :=
  match mallocBytes heap offer esize junk with
  | none => some (-1, st, heap)
  | some (key, heap) =>
    (sortLoop compare data esize key (size - 1) 1 st heap).map fun r =>
      (0, r.1, freeBytes r.2 key esize)

/-- The comparison function answers what `cmp` answers for the elements it is pointed to. -/
def Compares (cmp : Vector UInt8 esize → Vector UInt8 esize → Int) : Prop :=
  ∀ st heap p q v w, Holds heap p v → Holds heap q w → (compare st heap p q).1 = cmp v w

/-- What becomes of the elements `l` that are sorted: `l'` is a permutation of them, and sorted and
in the same order if the comparison function is a total preorder. -/
structure Sorting (l l' : List (Vector UInt8 esize)) : Prop where
  perm : l'.Perm l
  sorted : ∀ cmp, Compares compare esize cmp → TotalPreorder cmp → SortedBy cmp l'
  same : ∀ cmp, Compares compare esize cmp → TotalPreorder cmp → SameOrder cmp l l'

section Loops

variable {compare data esize} {key : Nat} {k : Vector UInt8 esize} {st : σ} {heap : Heap UInt8}

/-- The addresses of elements are in range. -/
lemma elemAt_eq {i m : Nat} (range : m * esize < 2 ^ 31) (le : i ≤ m) :
    elemAt data esize i = some (data + i * esize) := by
  have := Nat.mul_le_mul_right esize le
  exact if_pos (by omega)

/-- The inner loop moves elements that compare greater than the key up by one, and stops behind one
that does not. -/
lemma shiftLoop_spec (compare : Compare σ) (st : σ) {l₁ l₂ : List (Vector UInt8 esize)}
    {hole : Vector UInt8 esize} (arr : HoldsAll heap data (l₁ ++ hole :: l₂))
    (buf : Holds heap key k) (range : (l₁ ++ hole :: l₂).length * esize < 2 ^ 31)
    (apart : ∀ x, Inside key esize x → ¬ Inside data ((l₁ ++ hole :: l₂).length * esize) x) :
    ∃ l₁' moved hole' st' heap', l₁ = l₁' ++ moved ∧
      shiftLoop compare data esize key l₁.length st heap = some (l₁'.length, st', heap') ∧
      HoldsAll heap' data (l₁' ++ hole' :: (moved ++ l₂)) ∧
      (∀ x, ¬ Inside data ((l₁ ++ hole :: l₂).length * esize) x → heap' x = heap x) ∧
      ∀ cmp, Compares compare esize cmp →
        (∀ x ∈ moved, 0 < cmp x k) ∧ ∀ x ∈ l₁'.getLast?, cmp x k ≤ 0 := by
  induction l₁ using List.reverseRecOn generalizing l₂ hole st heap with
  | nil =>
    refine ⟨[], [], hole, st, heap, rfl, rfl, arr, fun _ _ => rfl, fun _ _ => ⟨?_, ?_⟩⟩
    · intro x mem
      cases mem
    · intro x mem
      cases mem
  | append_singleton l₁ y ih =>
    have len : (l₁ ++ [y] ++ hole :: l₂).length = l₁.length + 1 + 1 + l₂.length := by
      simp only [List.length_append, List.length_cons, List.length_nil]
      omega
    have addr : elemAt data esize l₁.length = some (data + l₁.length * esize) :=
      elemAt_eq range (by omega)
    have addr' : elemAt data esize (l₁.length + 1) = some (data + (l₁.length + 1) * esize) :=
      elemAt_eq range (by omega)
    have at_y : Holds heap (data + l₁.length * esize) y := arr l₁.length y (by simp)
    rw [List.length_append, List.length_singleton, shiftLoop, addr]
    simp only [Option.bind_eq_bind, Option.bind_some, addr']
    by_cases gt : (compare st heap (data + l₁.length * esize) key).1 > 0
    · rw [if_pos gt]
      -- the element moves into the hole, and its old place is the new hole
      obtain ⟨heap₁, copy, arr₁, frame₁⟩ :=
        arr.memcpy (k := l₁.length + 1) (by omega) at_y (blocks_apart (Nat.succ_ne_self _))
      have set_eq : (l₁ ++ [y] ++ hole :: l₂).set (l₁.length + 1) y = l₁ ++ y :: (y :: l₂) := by
        simp
      rw [set_eq] at arr₁
      have same_len : (l₁ ++ y :: (y :: l₂)).length = (l₁ ++ [y] ++ hole :: l₂).length := by simp
      have buf₁ : Holds heap₁ key k := buf.frame fun x at_key => frame₁ x (apart x at_key)
      obtain ⟨l₁', moved, hole', st', heap', split, loop, arr', frame', order⟩ :=
        ih (compare st heap (data + l₁.length * esize) key).2 arr₁ buf₁
          (by rw [same_len]; exact range)
          (by rw [same_len]; exact apart)
      refine ⟨l₁', moved ++ [y], hole', st',
        heap', by rw [split, List.append_assoc], ?_, ?_, ?_, ?_⟩
      · rw [copy, Option.bind_some, loop]
      · rw [List.append_assoc]
        exact arr'
      · intro x out
        rw [frame' x (by rw [same_len]; exact out), frame₁ x out]
      · intro cmp cmps
        refine ⟨?_, (order cmp cmps).2⟩
        intro x mem
        rcases List.mem_append.mp mem with mem | mem
        · exact (order cmp cmps).1 x mem
        · rw [List.mem_singleton.mp mem, ← cmps st heap _ key y k at_y buf]
          exact gt
    · rw [if_neg gt]
      refine ⟨l₁ ++ [y], [], hole, (compare st heap (data + l₁.length * esize) key).2, heap,
        (List.append_nil _).symm, by simp, arr, fun _ _ => rfl, ?_⟩
      intro cmp cmps
      refine ⟨fun x mem => absurd mem List.not_mem_nil, ?_⟩
      intro x mem
      rw [List.getLast?_concat] at mem
      cases mem
      rw [← cmps st heap _ key y k at_y buf]
      omega

/-- One more element is sorted into the part sorted so far. -/
lemma Sorting.insert {l l₁ l₂ : List (Vector UInt8 esize)}
    (so_far : Sorting compare esize l (l₁ ++ l₂))
    (order : ∀ cmp, Compares compare esize cmp → (∀ x ∈ l₂, 0 < cmp x k) ∧ ∀ x ∈ l₁.getLast?,
      cmp x k ≤ 0) : Sorting compare esize (l ++ [k]) (l₁ ++ k :: l₂) where
  perm := by
    have moved : (l₁ ++ k :: l₂).Perm (k :: (l₁ ++ l₂)) := List.perm_middle
    exact moved.trans ((so_far.perm.cons k).trans (List.perm_append_singleton k l).symm)
  sorted cmp cmps ord :=
    (so_far.sorted cmp cmps ord).insert ord (order cmp cmps).1 (order cmp cmps).2
  same cmp cmps ord := (so_far.same cmp cmps ord).insert ord (order cmp cmps).1

/-- One round of the outer loop inserts an element into the part of the array before it. -/
lemma sortLoop_round (compare : Compare σ) (st : σ) {front rest : List (Vector UInt8 esize)}
    (arr : HoldsAll heap data (front ++ k :: rest)) (buf : ∀ i < esize, heap (key + i) ≠ none)
    (range : (front ++ k :: rest).length * esize < 2 ^ 31)
    (apart : ∀ x, Inside key esize x → ¬ Inside data ((front ++ k :: rest).length * esize) x)
    (n : Nat) :
    ∃ l₁ moved st' heap', front = l₁ ++ moved ∧
      sortLoop compare data esize key (n + 1) front.length st heap =
        sortLoop compare data esize key n (front.length + 1) st' heap' ∧
      HoldsAll heap' data (l₁ ++ k :: moved ++ rest) ∧ (∀ i < esize, heap' (key + i) ≠ none) ∧
      (∀ x, ¬ Inside key esize x → ¬ Inside data ((front ++ k :: rest).length * esize) x →
        heap' x = heap x) ∧
      ∀ cmp, Compares compare esize cmp →
        (∀ x ∈ moved, 0 < cmp x k) ∧ ∀ x ∈ l₁.getLast?, cmp x k ≤ 0 := by
  have len : (front ++ k :: rest).length = front.length + 1 + rest.length := by
    simp only [List.length_append, List.length_cons]
    omega
  have addr : ∀ i ≤ front.length, elemAt data esize i = some (data + i * esize) := by
    intro i le
    exact elemAt_eq range (by omega)
  have at_k : Holds heap (data + front.length * esize) k := arr front.length k (by simp)
  -- the element is copied to the key buffer
  obtain ⟨heap₁, copy₁, buf₁, frame₁⟩ := at_k.memcpy (block_apart (by omega) apart) buf
  have arr₁ : HoldsAll heap₁ data (front ++ k :: rest) := by
    apply arr.frame
    intro x inside
    exact frame₁ x fun at_key => apart x at_key inside
  obtain ⟨l₁, moved, hole, st₂, heap₂, split, loop, arr₂, frame₂, order⟩ :=
    shiftLoop_spec compare st arr₁ buf₁ range apart
  have buf₂ : Holds heap₂ key k := buf₁.frame fun x at_key => frame₂ x (apart x at_key)
  have le : l₁.length ≤ front.length := by
    rw [split, List.length_append]
    omega
  have same_len : (l₁ ++ hole :: (moved ++ rest)).length = (front ++ k :: rest).length := by
    rw [split]
    simp only [List.length_append, List.length_cons]
    omega
  -- and from there into the hole
  obtain ⟨heap₃, copy₃, arr₃, frame₃⟩ := arr₂.memcpy (k := l₁.length) (by simp) buf₂
    (block_apart (by rw [same_len]; omega) (by rw [same_len]; exact apart)).symm
  rw [same_len] at frame₃
  refine ⟨l₁, moved, st₂, heap₃, split, ?_, by simpa using arr₃,
    (buf₂.frame fun x at_key => frame₃ x (apart x at_key)).used, ?_, order⟩
  · rw [sortLoop, addr _ le_rfl]
    simp only [Option.bind_eq_bind, Option.bind_some, copy₁, loop, addr _ le, copy₃]
  · intro x out_key out
    rw [frame₃ x out, frame₂ x out, frame₁ x out_key]

/-- The outer loop sorts the rest of the array into its front. -/
lemma sortLoop_spec (compare : Compare σ) (st : σ) {done : List (Vector UInt8 esize)}
    (front rest : List (Vector UInt8 esize)) (arr : HoldsAll heap data (front ++ rest))
    (buf : ∀ i < esize, heap (key + i) ≠ none) (range : (front ++ rest).length * esize < 2 ^ 31)
    (apart : ∀ x, Inside key esize x → ¬ Inside data ((front ++ rest).length * esize) x)
    (so_far : Sorting compare esize done front) :
    ∃ result st' heap', sortLoop compare data esize key rest.length front.length st heap =
      some (st', heap') ∧
      HoldsAll heap' data result ∧ Sorting compare esize (done ++ rest) result ∧
      ∀ x, ¬ Inside key esize x → ¬ Inside data ((front ++ rest).length * esize) x →
        heap' x = heap x := by
  induction rest generalizing done front st heap with
  | nil =>
    refine ⟨front, st, heap, rfl, by simpa using arr, by simpa using so_far, fun _ _ _ => rfl⟩
  | cons k rest ih =>
    obtain ⟨l₁, moved, st₁, heap₁, split, round, arr₁, buf₁, frame₁, order⟩ :=
      sortLoop_round compare st arr buf range apart rest.length
    have same_len : (l₁ ++ k :: moved ++ rest).length = (front ++ k :: rest).length := by
      rw [split]
      simp only [List.length_append, List.length_cons]
      omega
    have here : (l₁ ++ k :: moved).length = front.length + 1 := by
      rw [split]
      simp only [List.length_append, List.length_cons]
      omega
    rw [split] at so_far
    obtain ⟨result, st', heap', loop, arr', sorting, frame'⟩ :=
      ih st₁ (l₁ ++ k :: moved) arr₁ buf₁ (by rw [same_len]; exact range)
        (by rw [same_len]; exact apart)
        (so_far.insert order)
    refine ⟨result, st', heap', ?_, arr', by simpa using sorting, ?_⟩
    · rw [here] at loop
      rw [List.length_cons, round, loop]
    · intro x out_key out
      rw [frame' x out_key (by rw [same_len]; exact out), frame₁ x out_key out]

end Loops

/-- The signed value of four bytes, the lowest first. -/
def intOf (b₀ b₁ b₂ b₃ : UInt8) : Int :=
  let u : Int := b₀.toNat + 2 ^ 8 * b₁.toNat + 2 ^ 16 * b₂.toNat + 2 ^ 24 * b₃.toNat
  if u < 2 ^ 31 then u else u - 2 ^ 32

/-- The sign of a comparison (C `compare_int` once it has read its arguments). -/
def compareSign (int1 int2 : Int) : Int :=
  if int1 > int2 then 1 else if int1 < int2 then -1 else 0

/-- Comparison of `int` elements (C `compare_int`). -/
def compareInt : Compare Unit := fun st heap int1 int2 =>
  let read (p : Nat) (i : Nat) : UInt8 := (heap (p + i)).getD 0
  let value (p : Nat) : Int := intOf (read p 0) (read p 1) (read p 2) (read p 3)
  (compareSign (value int1) (value int2), st)

/-- `compare_int` compares the values of the elements. -/
lemma compares_compareInt :
    Compares compareInt 4 fun v w =>
      compareSign (intOf v[0] v[1] v[2] v[3]) (intOf w[0] w[1] w[2] w[3]) := by
  intro st heap p q v w at_p at_q
  have p₀ := at_p 0 (by omega)
  have q₀ := at_q 0 (by omega)
  rw [Nat.add_zero] at p₀ q₀
  simp only [compareInt, Nat.add_zero, p₀, at_p 1 (by omega), at_p 2 (by omega), at_p 3 (by omega),
    q₀, at_q 1 (by omega), at_q 2 (by omega), at_q 3 (by omega), Option.getD_some]

lemma totalPreorder_compareSign {α : Type*} (value : α → Int) :
    TotalPreorder fun a b => compareSign (value a) (value b) where
  swap a b := by
    simp only [compareSign]
    split_ifs <;> omega
  trans a b c := by
    simp only [compareSign]
    split_ifs <;> omega

/-- An array of no or one element is sorted. -/
lemma Sorting.small {l : List (Vector UInt8 esize)} (le : l.length ≤ 1) :
    Sorting compare esize l l where
  perm := List.Perm.refl l
  sorted cmp _ _ := by
    rcases l with _ | ⟨x, _ | ⟨y, l⟩⟩
    · exact List.Pairwise.nil
    · exact List.pairwise_singleton _ x
    · simp only [List.length_cons] at le
      omega
  same cmp _ _ x := rfl

/-- For every array of elements of `esize` bytes and every comparison function: without a key
buffer `issort` returns -1 and changes nothing; otherwise it returns 0, the array holds a
permutation of its elements, no byte outside of it has changed, and the elements are sorted and in
the same order if the comparison function is a total preorder. -/
theorem issort_correct (size : Nat) (offer : Option Addr) (junk : Nat → UInt8) (st : σ)
    (heap : Heap UInt8) (l : List (Vector UInt8 esize)) (arr : HoldsAll heap data l)
    (len : l.length = size) (range : size * esize < 2 ^ 31) :
    (mallocBytes heap offer esize junk = none →
      issort compare data esize size offer junk st heap = some (-1, st, heap)) ∧
    (mallocBytes heap offer esize junk ≠ none →
      ∃ l' st' heap', issort compare data esize size offer junk st heap = some (0, st', heap') ∧
        HoldsAll heap' data l' ∧ l'.Perm l ∧
          (∀ x, ¬ Inside data (size * esize) x → heap' x = heap x) ∧
        ∀ cmp, Compares compare esize cmp → TotalPreorder cmp → SortedBy cmp l' ∧
          SameOrder cmp l l') := by
  subst len
  refine ⟨fun fails => by simp only [issort, fails], fun alloc => ?_⟩
  obtain ⟨⟨key, heap₀⟩, e⟩ := Option.ne_none_iff_exists'.mp alloc
  obtain ⟨fresh, new, frame₀⟩ := mallocBytes_spec e
  -- the array is in use, so that the key buffer is apart from it
  have apart : ∀ x, Inside key esize x → ¬ Inside data (l.length * esize) x := by
    intro x at_key inside
    exact arr.used x inside (fresh x at_key)
  have arr₀ : HoldsAll heap₀ data l := by
    apply arr.frame
    intro x inside
    exact frame₀ x fun at_key => apart x at_key inside
  have parts : l.take 1 ++ l.drop 1 = l := List.take_append_drop 1 l
  obtain ⟨l', st', heap', loop, arr', sorting, frame'⟩ :=
    sortLoop_spec compare st (l.take 1) (l.drop 1) (by rw [parts]; exact arr₀) new
      (by rw [parts]; exact range) (by rw [parts]; exact apart)
        (Sorting.small compare esize (List.length_take_le 1 l))
  rw [parts] at sorting frame'
  have loop' : sortLoop compare data esize key (l.length - 1) 1 st heap₀ = some (st', heap') := by
    cases l with
    | nil =>
      -- without an element there is no round
      exact loop
    | cons x l => simpa using loop
  have same_len : l'.length = l.length := sorting.perm.length_eq
  refine ⟨l', st', freeBytes heap' key esize, ?_, ?_, sorting.perm, ?_, fun cmp cmps ord =>
    ⟨sorting.sorted cmp cmps ord, sorting.same cmp cmps ord⟩⟩
  · simp only [issort, e, loop', Option.map_some]
  · apply arr'.frame
    intro x inside
    rw [same_len] at inside
    exact if_neg fun at_key => apart x at_key inside
  · intro x out
    by_cases at_key : Inside key esize x
    · rw [freeBytes, if_pos at_key, fresh x at_key]
    · rw [freeBytes, if_neg at_key, frame' x at_key out, frame₀ x at_key]

/-- The array of the two `int` elements 2 and 1, at the address 0. -/
def twoInts : Heap UInt8 := fun x => [2, 0, 0, 0, 1, 0, 0, 0][x]?

lemma holds_twoInts : HoldsAll twoInts 0 [#v[2, 0, 0, 0], #v[1, 0, 0, 0]] := by
  intro i v found
  rcases i with _ | _ | i
  · cases found
    intro i lt
    interval_cases i <;> rfl
  · cases found
    intro i lt
    interval_cases i <;> rfl
  · cases found

/-- Two `int` elements sorted by `compare_int`, with the key buffer at the address 8. -/
theorem issort_correct_ints :
    HoldsAll twoInts 0 [#v[2, 0, 0, 0], #v[1, 0, 0, 0]] ∧ 2 * 4 < 2 ^ 31 ∧
    ∃ l' st' heap', issort compareInt 0 4 2 (some 8) (fun _ => 0) () twoInts =
      some (0, st', heap') ∧
      HoldsAll heap' 0 l' ∧ l'.Perm [#v[2, 0, 0, 0], #v[1, 0, 0, 0]] ∧
      SortedBy
        (fun v w : Vector UInt8 4 => compareSign (intOf v[0] v[1] v[2] v[3])
          (intOf w[0] w[1] w[2] w[3])) l' := by
  refine ⟨holds_twoInts, by decide, ?_⟩
  obtain ⟨l', st', heap', e, arr, perm, _, order⟩ :=
    (issort_correct compareInt 0 4 2 (some 8) (fun _ => 0) () twoInts _ holds_twoInts rfl
      (by decide)).2
      (by simp [mallocBytes, twoInts])
  exact ⟨l', st', heap', e, arr, perm,
    (order _ compares_compareInt (totalPreorder_compareSign _)).1⟩

end SweetClib.Sort
