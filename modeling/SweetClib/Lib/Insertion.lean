import SweetClib.Lib.SearchTree

/-!
# Stable insertion

A list is sorted by a comparison function when no element compares greater than a later one, and
`l'` keeps the order of `l` when for every `x` the elements that compare equal to `x` stand in the
same order in both. An element `key` put behind the elements that do not compare greater and before
those that do extends a sorted list by `key` in this way.
-/

namespace SweetClib.Lib

variable {δ : Type*} (cmp : δ → δ → Int)

/-- No element compares greater than a later one. -/
def SortedBy (l : List δ) : Prop := l.Pairwise fun a b => cmp a b ≤ 0

/-- The elements that compare equal stand in the same order. -/
def SameOrder (l l' : List δ) : Prop :=
  ∀ x, l'.filter (fun y => cmp x y = 0) = l.filter fun y => cmp x y = 0

variable {cmp} {l l₁ l₂ : List δ} {key : δ}

lemma SortedBy.insert (sorted : SortedBy cmp (l₁ ++ l₂)) (ord : TotalPreorder cmp)
    (greater : ∀ x ∈ l₂, 0 < cmp x key) (last : ∀ x ∈ l₁.getLast?, cmp x key ≤ 0) :
    SortedBy cmp (l₁ ++ key :: l₂) := by
  obtain ⟨sorted₁, sorted₂, across⟩ := List.pairwise_append.mp sorted
  apply List.pairwise_append.mpr
  refine ⟨sorted₁, List.pairwise_cons.mpr ⟨?_, sorted₂⟩, ?_⟩
  · intro x mem
    have := (ord.swap key x).mpr (greater x mem)
    omega
  · intro x mem y memy
    rcases List.mem_cons.mp memy with rfl | memy
    · -- the last element of the part before the new one bounds all of it
      cases l₁ using List.reverseRecOn with
      | nil => cases mem
      | append_singleton l₁ z =>
        have bound : cmp z y ≤ 0 := last z (by simp)
        rcases List.mem_append.mp mem with mem | mem
        · exact ord.trans x z y ((List.pairwise_append.mp sorted₁).2.2 x mem z (by simp)) bound
        · rw [List.mem_singleton.mp mem]
          exact bound
    · exact across x mem y memy

/-- Insertion before elements that compare greater keeps the order of those that compare equal. -/
lemma SameOrder.insert (same : SameOrder cmp l (l₁ ++ l₂)) (ord : TotalPreorder cmp)
    (greater : ∀ x ∈ l₂, 0 < cmp x key) : SameOrder cmp (l ++ [key]) (l₁ ++ key :: l₂) := by
  intro x
  have before := same x
  simp only [List.filter_append, List.filter_cons, List.filter_nil] at before ⊢
  by_cases eq : cmp x key = 0
  · -- what compares equal to the new element is not among the greater ones
    have none_behind : l₂.filter (fun y => decide (cmp x y = 0)) = [] := by
      apply List.filter_eq_nil_iff.mpr
      intro y mem
      have gt := greater y mem
      simp only [decide_eq_true_eq]
      intro e
      have := ord.eq_trans (ord.eq_symm e) eq
      omega
    rw [none_behind, List.append_nil] at before
    simp [eq, none_behind, before]
  · simp [eq, before]

end SweetClib.Lib
