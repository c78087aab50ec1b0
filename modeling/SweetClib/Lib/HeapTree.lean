import Mathlib.Data.Set.Card
import Mathlib.Data.Tree.Basic
import SweetClib.Lib.Heap

/-!
# Binary trees in a heap

`Shape data child h p T` says that the pointer `p` leads to cells with two child pointers each that
form the tree `T`, whose values are the addresses of the cells and the data they hold. That the
cells of a tree are all different is stated about the list of its addresses (`addrs`).

A position in a tree is its root, or one side of a node, which is given by its address. `subtreeAt`
is the subtree at a position and `replaceAt` puts another one there. The lemmas:
* `Shape.frame`: a tree only depends on the cells it visits.
* `Shape.reach_iff`: the cells that can be reached from the start are the cells of the tree.
* `perm_replaceAt`: the nodes of a tree after a replacement.
* `Shape.subtreeAt`: the child pointer of a node leads to the subtree at this position.
* `Shape.replaceAt`: writing a child pointer replaces the subtree at this position.
-/

namespace SweetClib.Lib

variable {ν δ : Type*}

/-- The sides of a node. -/
inductive Side where
  | left
  | right
  deriving DecidableEq

/-- What belongs to a side. -/
def Side.pick {β : Type*} (side : Side) (left right : β) : β :=
  match side with
  | .left => left
  | .right => right

/-- The values of a tree, those of the subtrees of a node before its own. -/
def postorder {α : Type*} : BinaryTree α → List α
  | .nil => []
  | .node a l r => postorder l ++ postorder r ++ [a]

/-- The list has an entry for each node. -/
lemma length_postorder {α : Type*} (T : BinaryTree α) : (postorder T).length = T.numNodes := by
  induction T with
  | nil => rfl
  | node a l r ihl ihr =>
    rw [postorder, List.length_append, List.length_append, ihl, ihr]
    rfl

/-- The addresses of the nodes. -/
def addrs (T : BinaryTree (Addr × δ)) : List Addr := (postorder T).map Prod.fst

@[simp] lemma addrs_nil : addrs (.nil : BinaryTree (Addr × δ)) = [] := rfl

@[simp] lemma mem_addrs_node {x : Addr} {v : Addr × δ} {l r : BinaryTree (Addr × δ)} :
    x ∈ addrs (.node v l r) ↔ x ∈ addrs l ∨ x ∈ addrs r ∨ x = v.1 := by
  simp only [addrs, postorder, List.map_append, List.mem_append, List.map_singleton,
    List.mem_singleton, or_assoc]

/-- The nodes of a tree are different: those of the subtrees are, no node is in both, and the node
itself in none. -/
lemma nodup_addrs_node {v : Addr × δ} {l r : BinaryTree (Addr × δ)} :
    (addrs (.node v l r)).Nodup ↔
      (addrs l).Nodup ∧ (addrs r).Nodup ∧ (addrs l).Disjoint (addrs r) ∧ v.1 ∉ addrs l ∧
        v.1 ∉ addrs r := by
  simp only [addrs, postorder, List.map_append, List.map_singleton, List.nodup_append',
    List.nodup_singleton, List.disjoint_singleton, List.mem_append, not_or]
  tauto

section Positions

variable {side : Side} {n : Addr} {S S' T : BinaryTree (Addr × δ)}

/-- The subtree at one side of the node at an address. -/
def subtreeAt (side : Side) (n : Addr) : BinaryTree (Addr × δ) → Option (BinaryTree (Addr × δ))
  | .nil => none
  | .node v l r =>
    if v.1 = n then some (side.pick l r)
    else (subtreeAt side n l).or (subtreeAt side n r)

/-- Replace the subtree at one side of the node at an address. -/
def replaceAt (side : Side) (n : Addr) (S : BinaryTree (Addr × δ)) :
    BinaryTree (Addr × δ) → BinaryTree (Addr × δ)
  | .nil => .nil
  | .node v l r =>
    if v.1 = n then .node v (side.pick S l) (side.pick r S)
    else .node v (replaceAt side n S l) (replaceAt side n S r)

/-- There is no position at a node that is not in the tree. -/
lemma subtreeAt_of_notMem (mem : n ∉ addrs T) : subtreeAt side n T = none := by
  induction T with
  | nil => rfl
  | node v l r ihl ihr =>
    rw [mem_addrs_node, not_or, not_or] at mem
    obtain ⟨hl, hr, ne⟩ := mem
    rw [subtreeAt, if_neg (Ne.symm ne), ihl hl, ihr hr]
    rfl

/-- A tree without the node stays as it is. -/
lemma replaceAt_of_notMem (mem : n ∉ addrs T) : replaceAt side n S T = T := by
  induction T with
  | nil => rfl
  | node v l r ihl ihr =>
    rw [mem_addrs_node, not_or, not_or] at mem
    obtain ⟨hl, hr, ne⟩ := mem
    rw [replaceAt, if_neg (Ne.symm ne), ihl hl, ihr hr]

/-- A node of the tree has two positions. -/
lemma exists_subtreeAt (side : Side) (mem : n ∈ addrs T) : ∃ S, subtreeAt side n T = some S := by
  induction T with
  | nil => exact absurd mem List.not_mem_nil
  | node v l r ihl ihr =>
    by_cases here : v.1 = n
    · exact ⟨side.pick l r, if_pos here⟩
    · rw [subtreeAt, if_neg here]
      rcases mem_addrs_node.mp mem with mem | mem | e
      · obtain ⟨S, at_l⟩ := ihl mem
        exact ⟨S, by rw [at_l]; rfl⟩
      · obtain ⟨S, at_r⟩ := ihr mem
        cases at_l : subtreeAt side n l with
        | none => exact ⟨S, at_r⟩
        | some S' => exact ⟨S', rfl⟩
      · exact absurd e.symm here

/-- The nodes of a tree, as a multiset. -/
lemma coe_postorder_node {α : Type*} (a : α) (l r : BinaryTree α) :
    (postorder (.node a l r) : Multiset α) = postorder l + postorder r + {a} := by
  rw [postorder, ← Multiset.coe_add, ← Multiset.coe_add, Multiset.coe_singleton]

/-- The nodes of a tree after a replacement: those of the new subtree have taken the place of those
of the old one. -/
lemma perm_replaceAt (S' : BinaryTree (Addr × δ)) (nodup : (addrs T).Nodup)
    (old : subtreeAt side n T = some S) :
    (postorder (replaceAt side n S' T) ++ postorder S).Perm (postorder T ++ postorder S') := by
  rw [← Multiset.coe_eq_coe, ← Multiset.coe_add, ← Multiset.coe_add]
  induction T with
  | nil => cases old
  | node v l r ihl ihr =>
    obtain ⟨nl, nr, disj, _, _⟩ := nodup_addrs_node.mp nodup
    by_cases here : v.1 = n
    · rw [subtreeAt, if_pos here] at old
      rw [replaceAt, if_pos here]
      cases old
      cases side with
      | left =>
        simp only [Side.pick, coe_postorder_node]
        abel
      | right =>
        simp only [Side.pick, coe_postorder_node]
        abel
    · rw [subtreeAt, if_neg here] at old
      rw [replaceAt, if_neg here, coe_postorder_node, coe_postorder_node]
      by_cases mem : n ∈ addrs l
      · -- the node is in the left subtree, and not in the right one
        obtain ⟨S₁, at_l⟩ := exists_subtreeAt side mem
        rw [at_l, Option.some_or] at old
        rw [replaceAt_of_notMem (disj mem)]
        have ih := ihl nl (at_l.trans old)
        calc (_ : Multiset (Addr × δ)) = ↑(postorder (replaceAt side n S' l)) + ↑(postorder S) +
            (↑(postorder r) + {v}) := by
              abel
          _ = _ := by rw [ih]; abel
      · rw [subtreeAt_of_notMem mem, Option.none_or] at old
        rw [replaceAt_of_notMem mem]
        have ih := ihr nr old
        calc (_ : Multiset (Addr × δ)) = ↑(postorder (replaceAt side n S' r)) + ↑(postorder S) +
            (↑(postorder l) + {v}) := by
              abel
          _ = _ := by rw [ih]; abel

/-- A replacement keeps the node it is made at. -/
lemma mem_replaceAt_self (mem : n ∈ addrs T) : n ∈ addrs (replaceAt side n S T) := by
  induction T with
  | nil => exact mem
  | node v l r ihl ihr =>
    rw [replaceAt]
    by_cases here : v.1 = n
    · rw [if_pos here]
      exact mem_addrs_node.mpr (.inr (.inr here.symm))
    · rw [if_neg here]
      rcases mem_addrs_node.mp mem with mem | mem | e
      · exact mem_addrs_node.mpr (.inl (ihl mem))
      · exact mem_addrs_node.mpr (.inr (.inl (ihr mem)))
      · exact absurd e.symm here

end Positions

section Graft

variable {side : Side} {node : Option Addr} {S S' T : BinaryTree (Addr × δ)}

/-- The subtree at one side of a node, or the whole tree. -/
def subtree (side : Side) (node : Option Addr) (T : BinaryTree (Addr × δ)) :
    Option (BinaryTree (Addr × δ)) :=
  match node with
  | none => some T
  | some n => subtreeAt side n T

/-- Replace the subtree at one side of a node, or the whole tree. -/
def graft (side : Side) (node : Option Addr) (S T : BinaryTree (Addr × δ)) :
    BinaryTree (Addr × δ) :=
  match node with
  | none => S
  | some n => replaceAt side n S T

/-- There is a subtree at every node of the tree. -/
lemma exists_subtree (side : Side) (mem : ∀ n, node = some n → n ∈ addrs T) :
    ∃ S, subtree side node T = some S := by
  cases node with
  | none => exact ⟨T, rfl⟩
  | some n => exact exists_subtreeAt side (mem n rfl)

/-- The node of a position is in the tree. -/
lemma mem_of_subtree {n : Addr} (old : subtree side (some n) T = some S) : n ∈ addrs T := by
  by_contra mem
  rw [subtree, subtreeAt_of_notMem mem] at old
  cases old

/-- The nodes of a tree after a replacement. -/
lemma perm_graft (S' : BinaryTree (Addr × δ)) (nodup : (addrs T).Nodup)
    (old : subtree side node T = some S) :
    (addrs (graft side node S' T) ++ addrs S).Perm (addrs T ++ addrs S') := by
  cases node with
  | none =>
    cases old
    exact List.perm_append_comm
  | some n =>
    have perm := (perm_replaceAt S' nodup old).map Prod.fst
    rw [List.map_append, List.map_append] at perm
    exact perm

/-- The number of nodes of a tree after a replacement. -/
lemma numNodes_graft (S' : BinaryTree (Addr × δ)) (nodup : (addrs T).Nodup)
    (old : subtree side node T = some S) :
    (graft side node S' T).numNodes + S.numNodes = T.numNodes + S'.numNodes := by
  have len := (perm_graft S' nodup old).length_eq
  simpa only [List.length_append, addrs, List.length_map, length_postorder] using len

/-- The nodes of a subtree are different, and its parent is not one of them. -/
lemma nodup_subtree (nodup : (addrs T).Nodup) (old : subtree side node T = some S) :
    (addrs S).Nodup ∧ ∀ n, node = some n → n ∉ addrs S := by
  have perm := perm_graft .nil nodup old
  rw [addrs_nil, List.append_nil] at perm
  obtain ⟨_, nodup_S, disj⟩ := List.nodup_append'.mp (perm.nodup_iff.mpr nodup)
  refine ⟨nodup_S, ?_⟩
  rintro n rfl
  exact disj (mem_replaceAt_self (mem_of_subtree old))

/-- The nodes after a replacement are old ones or those of the new subtree. -/
lemma mem_of_mem_graft (nodup : (addrs T).Nodup) (old : subtree side node T = some S) {x : Addr}
    (mem : x ∈ addrs (graft side node S' T)) : x ∈ addrs T ∨ x ∈ addrs S' :=
  List.mem_append.mp ((perm_graft S' nodup old).mem_iff.mp (List.mem_append_left _ mem))

/-- The nodes of a subtree are nodes of the tree. -/
lemma mem_of_mem_subtree (nodup : (addrs T).Nodup) (old : subtree side node T = some S) {x : Addr}
    (mem : x ∈ addrs S) : x ∈ addrs T := by
  have perm := perm_graft .nil nodup old
  rw [addrs_nil, List.append_nil] at perm
  exact perm.mem_iff.mp (List.mem_append_right _ mem)

/-- Without the subtree, its nodes are gone and the others are left. -/
lemma mem_graft_nil (nodup : (addrs T).Nodup) (old : subtree side node T = some S) {x : Addr} :
    x ∈ addrs (graft side node .nil T) ↔ x ∈ addrs T ∧ x ∉ addrs S := by
  have perm := perm_graft .nil nodup old
  rw [addrs_nil, List.append_nil] at perm
  have disj := (List.nodup_append'.mp (perm.nodup_iff.mpr nodup)).2.2
  rw [← perm.mem_iff, List.mem_append]
  constructor
  · intro mem
    exact ⟨.inl mem, disj mem⟩
  · rintro ⟨mem | mem, out⟩
    · exact mem
    · exact absurd mem out

/-- The nodes are different after a replacement by a subtree with other nodes. -/
lemma nodup_graft (nodup : (addrs T).Nodup) (old : subtree side node T = some S)
    (nodup' : (addrs S').Nodup) (fresh : (addrs T).Disjoint (addrs S')) :
    (addrs (graft side node S' T)).Nodup := by
  have perm := perm_graft S' nodup old
  exact (perm.nodup_iff.mpr (List.nodup_append'.mpr ⟨nodup, nodup', fresh⟩)).of_append_left

end Graft

/-- The cells from the pointer `p` form the tree `T`. -/
def Shape (data : ν → δ) (child : Side → ν → Option Addr) (h : Heap ν) :
    Option Addr → BinaryTree (Addr × δ) → Prop
  | p, .nil => p = none
  | p, .node v l r => p = some v.1 ∧ ∃ c, h v.1 = some c ∧ data c = v.2 ∧
      Shape data child h (child .left c) l ∧ Shape data child h (child .right c) r

/-- The cells that can be reached from a pointer. -/
inductive TreeReach (child : Side → ν → Option Addr) (h : Heap ν) : Option Addr → Addr → Prop where
  | here {a c} :
    h a = some c →
    TreeReach child h (some a) a
  | there {a c e} (side : Side) :
    h a = some c →
    TreeReach child h (child side c) e →
    TreeReach child h (some a) e

section Shape

variable {data : ν → δ} {child : Side → ν → Option Addr} {h h' : Heap ν} {p : Option Addr}
  {S T : BinaryTree (Addr × δ)}

/-- A tree only depends on the cells it visits. -/
lemma Shape.frame (shape : Shape data child h p T) (agree : ∀ x ∈ addrs T, h' x = h x) :
    Shape data child h' p T := by
  induction T generalizing p with
  | nil => exact shape
  | node v l r ihl ihr =>
    obtain ⟨rfl, c, cell, hd, sl, sr⟩ := shape
    refine ⟨rfl, c, ?_, hd, ihl sl ?_, ihr sr ?_⟩
    · rw [agree v.1 (mem_addrs_node.mpr (.inr (.inr rfl))), cell]
    · intro x mem
      exact agree x (mem_addrs_node.mpr (.inl mem))
    · intro x mem
      exact agree x (mem_addrs_node.mpr (.inr (.inl mem)))

/-- The cells of a tree are allocated. -/
lemma Shape.live (shape : Shape data child h p T) {x : Addr} (mem : x ∈ addrs T) : h x ≠ none := by
  induction T generalizing p with
  | nil => exact absurd mem List.not_mem_nil
  | node v l r ihl ihr =>
    obtain ⟨_, c, cell, _, sl, sr⟩ := shape
    rcases mem_addrs_node.mp mem with mem | mem | rfl
    · exact ihl sl mem
    · exact ihr sr mem
    · rw [cell]
      exact Option.some_ne_none c

/-- The null pointer is the empty tree. -/
lemma Shape.eq_none_iff (shape : Shape data child h p T) : p = none ↔ T = .nil := by
  cases T with
  | nil => exact ⟨fun _ => rfl, fun _ => shape⟩
  | node v l r =>
    obtain ⟨rfl, _⟩ := shape
    simp

/-- The cells that can be reached are those of the tree. -/
lemma Shape.reach_iff (shape : Shape data child h p T) {x : Addr} :
    TreeReach child h p x ↔ x ∈ addrs T := by
  induction T generalizing p with
  | nil =>
    cases shape
    constructor
    · intro reach
      cases reach
    · intro mem
      exact absurd mem List.not_mem_nil
  | node v l r ihl ihr =>
    obtain ⟨rfl, c, cell, _, sl, sr⟩ := shape
    rw [mem_addrs_node]
    constructor
    · intro reach
      cases reach with
      | here => exact .inr (.inr rfl)
      | there side cell' reach =>
        rw [cell] at cell'
        cases cell'
        cases side with
        | left => exact .inl ((ihl sl).mp reach)
        | right => exact .inr (.inl ((ihr sr).mp reach))
    · rintro (mem | mem | rfl)
      · exact .there .left cell ((ihl sl).mpr mem)
      · exact .there .right cell ((ihr sr).mpr mem)
      · exact .here cell

/-- The number of cells that can be reached. -/
lemma Shape.ncard_reach (shape : Shape data child h p T) (nodup : (addrs T).Nodup) :
    {x | TreeReach child h p x}.ncard = T.numNodes := by
  have cells : {x | TreeReach child h p x} = {x | x ∈ addrs T} := Set.ext fun x => shape.reach_iff
  calc {x | TreeReach child h p x}.ncard = ((addrs T).toFinset : Set Addr).ncard := by
        rw [cells, List.coe_toFinset]
    _ = (addrs T).length := by rw [Set.ncard_coe_finset, List.toFinset_card_of_nodup nodup]
    _ = T.numNodes := by rw [addrs, List.length_map, length_postorder]

/-- The child pointer of a node leads to the subtree there. -/
lemma Shape.subtreeAt {side : Side} {n : Addr} (shape : Shape data child h p T)
    (old : subtreeAt side n T = some S) :
    ∃ c, h n = some c ∧ Shape data child h (child side c) S := by
  induction T generalizing p with
  | nil => cases old
  | node v l r ihl ihr =>
    obtain ⟨_, c, cell, _, sl, sr⟩ := shape
    rw [Lib.subtreeAt] at old
    by_cases here : v.1 = n
    · rw [if_pos here] at old
      cases old
      refine ⟨c, here ▸ cell, ?_⟩
      cases side with
      | left => exact sl
      | right => exact sr
    · rw [if_neg here] at old
      rcases Option.or_eq_some_iff.mp old with old | ⟨_, old⟩
      · exact ihl sl old
      · exact ihr sr old

/-- Writing the child pointer of a node replaces the subtree there; the cells of the old subtree do
not matter. -/
lemma Shape.replaceAt {side : Side} {n : Addr} {c c' : ν} (shape : Shape data child h p T)
    (nodup : (addrs T).Nodup) (mem : n ∈ addrs T) (cell : h n = some c) (cell' : h' n = some c')
    (same : data c' = data c) (other : ∀ side', side' ≠ side → child side' c' = child side' c)
    (agree : ∀ x ∈ addrs (replaceAt side n .nil T), x ≠ n → h' x = h x)
    (new : Shape data child h' (child side c') S) :
    Shape data child h' p (replaceAt side n S T) := by
  induction T generalizing p with
  | nil => exact absurd mem List.not_mem_nil
  | node v l r ihl ihr =>
    obtain ⟨rfl, c₁, cell₁, hd, sl, sr⟩ := shape
    obtain ⟨nl, nr, disj, vl, vr⟩ := nodup_addrs_node.mp nodup
    rw [Lib.replaceAt] at agree ⊢
    by_cases here : v.1 = n
    · rw [if_pos here] at agree ⊢
      subst here
      rw [cell] at cell₁
      cases cell₁
      refine ⟨rfl, c', cell', same.trans hd, ?_⟩
      cases side with
      | left =>
        refine ⟨new, ?_⟩
        rw [other .right (by decide)]
        refine sr.frame ?_
        intro x mem
        exact agree x (mem_addrs_node.mpr (.inr (.inl mem))) (fun e => vr (e ▸ mem))
      | right =>
        refine ⟨?_, new⟩
        rw [other .left (by decide)]
        refine sl.frame ?_
        intro x mem
        exact agree x (mem_addrs_node.mpr (.inl mem)) (fun e => vl (e ▸ mem))
    · rw [if_neg here] at agree ⊢
      refine ⟨rfl, c₁, ?_, hd, ?_⟩
      · rw [agree v.1 (mem_addrs_node.mpr (.inr (.inr rfl))) here, cell₁]
      · have agree_l x (mem : x ∈ addrs (Lib.replaceAt side n .nil l)) :=
          agree x (mem_addrs_node.mpr (.inl mem))
        have agree_r x (mem : x ∈ addrs (Lib.replaceAt side n .nil r)) :=
          agree x (mem_addrs_node.mpr (.inr (.inl mem)))
        by_cases inside : n ∈ addrs l
        · have outside : n ∉ addrs r := disj inside
          rw [replaceAt_of_notMem outside] at agree_r ⊢
          exact ⟨ihl sl nl inside agree_l,
            sr.frame fun x mem => agree_r x mem fun e => outside (e ▸ mem)⟩
        · have right : n ∈ addrs r := by
            rcases mem_addrs_node.mp mem with mem | mem | e
            · exact absurd mem inside
            · exact mem
            · exact absurd e.symm here
          rw [replaceAt_of_notMem inside] at agree_l ⊢
          exact ⟨sl.frame fun x mem => agree_l x mem fun e => inside (e ▸ mem),
            ihr sr nr right agree_r⟩

end Shape

end SweetClib.Lib
