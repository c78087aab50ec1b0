import Mathlib.Tactic
import Mathlib.Data.Tree.Basic
import Mathlib.Data.Nat.Fib.Basic

/-!
# Comparison functions and search trees

A comparison function in the manner of C answers a negative, zero or positive integer; it is a
total preorder when its sign is antisymmetric and its `≤ 0` transitive (`TotalPreorder`). For
binary trees, `inorder` lists the values from left to right and `EachNode P` says that `P` holds at
every node, of its value and its two subtrees. A tree is a search tree for a transitive relation
exactly when its inorder list is pairwise related (`eachNode_iff_pairwise`), so that an operation
that keeps the inorder list keeps the search tree. A tree whose subtrees differ in height by at
most one at every node has at least as many nodes as the Fibonacci number of its height says
(`fib_height_le`).
-/

namespace SweetClib.Lib

variable {α δ : Type*}

/-- The comparison function is a total preorder. -/
structure TotalPreorder (cmp : δ → δ → Int) : Prop where
  swap : ∀ a b, cmp a b < 0 ↔ 0 < cmp b a
  trans : ∀ a b c, cmp a b ≤ 0 → cmp b c ≤ 0 → cmp a c ≤ 0

section TotalPreorder

variable {cmp : δ → δ → Int} (ord : TotalPreorder cmp) {a b c : δ}
include ord

lemma TotalPreorder.eq_symm (e : cmp a b = 0) : cmp b a = 0 := by
  have h₁ := ord.swap a b
  have h₂ := ord.swap b a
  omega

/-- Comparing less is transitive, also across something that compares equal on the left. -/
lemma TotalPreorder.lt_of_le_of_lt (h : cmp a b ≤ 0) (h' : cmp b c < 0) : cmp a c < 0 := by
  by_contra ge
  have le : cmp c a ≤ 0 := by
    have := ord.swap a c
    omega
  have cb := ord.trans c a b le h
  have := ord.swap b c
  omega

/-- Comparing less is transitive, also across something that compares equal on the right. -/
lemma TotalPreorder.lt_of_lt_of_le (h : cmp a b < 0) (h' : cmp b c ≤ 0) : cmp a c < 0 := by
  by_contra ge
  have le : cmp c a ≤ 0 := by
    have := ord.swap a c
    omega
  have ba := ord.trans b c a h' le
  have := ord.swap a b
  omega

lemma TotalPreorder.eq_trans (e : cmp a b = 0) (e' : cmp b c = 0) : cmp a c = 0 := by
  have h₁ := ord.trans a b c (by omega) (by omega)
  have h₂ := ord.trans c b a (by have := ord.eq_symm e'; omega) (by have := ord.eq_symm e; omega)
  have := ord.swap a c
  omega

end TotalPreorder

/-- The values of a tree from left to right. -/
def inorder : BinaryTree α → List α
  | .nil => []
  | .node a l r => inorder l ++ a :: inorder r

/-- A property of the value and the subtrees of a node holds at every node. -/
def EachNode (P : α → BinaryTree α → BinaryTree α → Prop) : BinaryTree α → Prop
  | .nil => True
  | .node a l r => P a l r ∧ EachNode P l ∧ EachNode P r

/-- A property of the nodes can be weakened. -/
lemma EachNode.imp {P Q : α → BinaryTree α → BinaryTree α → Prop}
    (h : ∀ a l r, P a l r → Q a l r) {t : BinaryTree α} (p : EachNode P t) : EachNode Q t := by
  induction t with
  | nil => trivial
  | node a l r ihl ihr => exact ⟨h a l r p.1, ihl p.2.1, ihr p.2.2⟩

/-- The inorder list has an entry for each node. -/
lemma length_inorder (t : BinaryTree α) : (inorder t).length = t.numNodes := by
  induction t with
  | nil => rfl
  | node a l r ihl ihr =>
    simp only [inorder, List.length_append, List.length_cons, ihl, ihr, BinaryTree.numNodes]
    omega

/-- Search trees are the trees with an ordered inorder list. -/
lemma eachNode_iff_pairwise {R : α → α → Prop} (trans : ∀ a b c, R a b → R b c → R a c)
    (t : BinaryTree α) :
    EachNode (fun a l r => (∀ x ∈ inorder l, R x a) ∧ ∀ x ∈ inorder r, R a x) t ↔
      (inorder t).Pairwise R := by
  induction t with
  | nil => simp [EachNode, inorder]
  | node a l r ihl ihr =>
    simp only [EachNode, inorder, ihl, ihr, List.pairwise_append, List.pairwise_cons, List.mem_cons,
      forall_eq_or_imp]
    constructor
    · rintro ⟨⟨hl, hr⟩, pl, pr⟩
      exact ⟨pl, ⟨hr, pr⟩, fun x hx => ⟨hl x hx, fun y hy => trans _ _ _ (hl x hx) (hr y hy)⟩⟩
    · rintro ⟨pl, ⟨hr, pr⟩, hlr⟩
      exact ⟨⟨fun x hx => (hlr x hx).1, hr⟩, pl, pr⟩

/-- Fibonacci numbers bound the number of nodes of a tree that is balanced everywhere from below. -/
lemma fib_height_le {t : BinaryTree α}
    (even : EachNode (fun _ l r => l.height ≤ r.height + 1 ∧ r.height ≤ l.height + 1) t) :
    Nat.fib (t.height + 2) ≤ t.numNodes + 1 := by
  induction t with
  | nil => simp
  | node a l r ihl ihr =>
    obtain ⟨⟨left, right⟩, evl, evr⟩ := even
    have hl := ihl evl
    have hr := ihr evr
    -- the higher subtree gives the one summand, the lower subtree at least the other
    have sum : Nat.fib (max l.height r.height + 1) + Nat.fib (max l.height r.height + 2) ≤
        (l.numNodes + 1) + (r.numNodes + 1) := by
      obtain le | le := le_total l.height r.height
      · have lower : Nat.fib (r.height + 1) ≤ Nat.fib (l.height + 2) := Nat.fib_mono (by omega)
        rw [max_eq_right le]
        omega
      · have lower : Nat.fib (l.height + 1) ≤ Nat.fib (r.height + 2) := Nat.fib_mono (by omega)
        rw [max_eq_left le]
        omega
    calc Nat.fib ((BinaryTree.node a l r).height + 2)
        = Nat.fib (max l.height r.height + 1) + Nat.fib (max l.height r.height + 2) :=
          Nat.fib_add_two
      _ ≤ (BinaryTree.node a l r).numNodes + 1 := by
        rw [BinaryTree.numNodes]
        omega

end SweetClib.Lib
