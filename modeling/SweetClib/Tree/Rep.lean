import SweetClib.Tree.Bitree

/-!
# What a header represents

`TreeRep heap tree T`: the header `tree` represents the tree `T`, whose values are the addresses
and the data of its nodes. The root pointer leads to exactly these nodes, which are all different,
and `size` is their number. Each function of `bitree.c` has a lemma for each of its outcomes, which
says what is represented afterwards and which cells of the heap were touched.

A removal is described by `Removed`. Its lemma is an induction over the subtree that is removed
(`bitreeRem_spec`), in which the size never drops below the number of the nodes that are still
there, so that the function never returns early.
-/

namespace SweetClib.Tree
open Lib

variable {F D : Type}

/-- Trees of nodes in the heap. -/
abbrev Nodes (heap : Heap (BiTreeNode D)) (p : Option Addr) (T : BinaryTree (Addr × D)) : Prop :=
  Shape BiTreeNode.data BiTreeNode.child heap p T

/-- The header `tree` represents `T`. -/
structure TreeRep (heap : Heap (BiTreeNode D)) (tree : BiTree F) (T : BinaryTree (Addr × D)) :
    Prop where
  nodes : Nodes heap tree.root T
  nodup : (addrs T).Nodup
  size : tree.size = T.numNodes

@[simp] lemma child_setChild (side : Side) (p : Option Addr) (c : BiTreeNode D) :
    (c.setChild side p).child side = p := by
  cases side <;> rfl

lemma child_setChild_of_ne {side side' : Side} (ne : side' ≠ side) (p : Option Addr)
    (c : BiTreeNode D) : (c.setChild side p).child side' = c.child side' := by
  cases side <;> cases side' <;> first | rfl | exact absurd rfl ne

@[simp] lemma data_setChild (side : Side) (p : Option Addr) (c : BiTreeNode D) :
    (c.setChild side p).data = c.data := by
  cases side <;> rfl

/-- Writing the child pointer that is there changes nothing. -/
lemma setChild_child (side : Side) (c : BiTreeNode D) : c.setChild side (c.child side) = c := by
  cases side <;> rfl

/-- A tree is unaffected by changes to cells that are not its own. -/
lemma TreeRep.frame {heap heap' : Heap (BiTreeNode D)} {tree : BiTree F} {T}
    (rep : TreeRep heap tree T) (agree : ∀ x ∈ addrs T, heap' x = heap x) : TreeRep heap' tree T :=
  ⟨rep.nodes.frame agree, rep.nodup, rep.size⟩

section Position

variable {s : TreeSt F D} {side : Side} {node : Option Addr} {S T : BinaryTree (Addr × D)}

/-- A position of a tree leads to the subtree there. -/
lemma TreeRep.load (rep : TreeRep s.heap s.tree T) (old : subtree side node T = some S) :
    ∃ p, (Position.of side node).load s = some p ∧ Nodes s.heap p S := by
  cases node with
  | none =>
    cases old
    exact ⟨s.tree.root, rfl, rep.nodes⟩
  | some n =>
    obtain ⟨c, cell, nodes⟩ := rep.nodes.subtreeAt old
    exact ⟨c.child side, by rw [Position.of, Position.load, cell]; rfl, nodes⟩

/-- What an assignment to a position changes. -/
structure Stored (side : Side) (node p : Option Addr) (s s' : TreeSt F D) : Prop where
  size : s'.tree.size = s.tree.size
  destroy : s'.tree.destroy = s.tree.destroy
  calls : s'.calls = s.calls
  root : s'.tree.root = if node = none then p else s.tree.root
  parent : ∀ n, node = some n → s'.heap n = (s.heap n).map (·.setChild side p)
  kept : ∀ x, node ≠ some x → s'.heap x = s.heap x

/-- An assignment to a position of a node that is there. -/
lemma store_spec (s : TreeSt F D) (side : Side) (node : Option Addr)
    (live : ∀ n, node = some n → s.heap n ≠ none) (p : Option Addr) :
    ∃ s', (Position.of side node).store s p = some s' ∧ Stored side node p s s' := by
  cases node with
  | none =>
    exact ⟨_, rfl, rfl, rfl, rfl, rfl, fun n e => (Option.some_ne_none n e.symm).elim,
      fun _ _ => rfl⟩
  | some n =>
    obtain ⟨c, cell⟩ := Option.ne_none_iff_exists'.mp (live n rfl)
    refine ⟨{ s with heap := s.heap.set n (c.setChild side p) }, ?_, rfl, rfl, rfl, rfl, ?_, ?_⟩
    · rw [Position.of, Position.store, cell]
      rfl
    · rintro m ⟨⟩
      rw [cell]
      exact Heap.set_same _ _ _
    · intro x ne
      exact Heap.set_other _ _ fun e => ne (e ▸ rfl)

/-- A subtree is replaced by writing its position, when the nodes outside of it are left alone. -/
lemma TreeRep.nodes_graft {s' : TreeSt F D} {p : Option Addr} {S' : BinaryTree (Addr × D)}
    (rep : TreeRep s.heap s.tree T) (old : subtree side node T = some S)
    (root : s'.tree.root = if node = none then p else s.tree.root)
    (parent : ∀ n, node = some n → s'.heap n = (s.heap n).map (·.setChild side p))
    (kept : ∀ x ∈ addrs (graft side node .nil T), node ≠ some x → s'.heap x = s.heap x)
    (new : Nodes s'.heap p S') : Nodes s'.heap s'.tree.root (graft side node S' T) := by
  cases node with
  | none =>
    rw [root]
    exact new
  | some n =>
    have mem := mem_of_subtree old
    obtain ⟨c, cell, _⟩ := rep.nodes.subtreeAt old
    have cell' : s'.heap n = some (c.setChild side p) := by
      rw [parent n rfl, cell]
      rfl
    rw [root, if_neg (Option.some_ne_none n)]
    refine rep.nodes.replaceAt rep.nodup mem cell cell' (data_setChild _ _ _)
      (fun side' ne => child_setChild_of_ne ne p c)
      ?_ ?_
    · intro x mem ne
      exact kept x mem fun e => ne (Option.some.inj e).symm
    · rw [child_setChild]
      exact new

end Position

section Ins

variable {s : TreeSt F D} {side : Side} {node offer : Option Addr} {data : D} {a : Addr}
  {S T : BinaryTree (Addr × D)}

/-- Whether there is a node at the position is decided by the subtree there. -/
lemma TreeRep.taken (rep : TreeRep s.heap s.tree T) (old : subtree side node T = some S) :
    ∃ b, taken side s node = some b ∧ (b = true ↔ S ≠ .nil) := by
  cases node with
  | none =>
    cases old
    refine ⟨_, rfl, ?_⟩
    rw [decide_eq_true_iff, rep.size]
    cases S with
    | nil => simp
    | node v l r => simp; omega
  | some n =>
    obtain ⟨c, cell, nodes⟩ := rep.nodes.subtreeAt old
    refine ⟨(c.child side).isSome, by rw [Tree.taken, cell]; rfl, ?_⟩
    rw [Option.isSome_iff_ne_none, ne_eq, nodes.eq_none_iff]

/-- An insertion at a position that is taken, or without memory, changes nothing. -/
lemma bitreeIns_refused (rep : TreeRep s.heap s.tree T) (old : subtree side node T = some S)
    (refused : S ≠ .nil ∨ s.heap.malloc offer = none) :
    bitreeIns side s node data offer = some (-1, s) := by
  obtain ⟨b, taken, iff⟩ := rep.taken old
  rw [bitreeIns, taken, Option.bind_eq_bind, Option.bind_some]
  cases b with
  | true => rfl
  | false =>
    have none : s.heap.malloc offer = none := by
      rcases refused with ne | none
      · exact absurd (iff.mpr ne) Bool.false_ne_true
      · exact none
    rw [if_neg Bool.false_ne_true, none]
    rfl

/-- An insertion at an empty position puts a leaf there. -/
lemma bitreeIns_spec (data : D) (rep : TreeRep s.heap s.tree T)
    (old : subtree side node T = some .nil) (alloc : s.heap.malloc offer = some a) :
    ∃ s', bitreeIns side s node data offer = some (0, s') ∧
      TreeRep s'.heap s'.tree (graft side node (.node (a, data) .nil .nil) T) ∧
        s'.tree.destroy = s.tree.destroy ∧
      s'.calls = s.calls ∧ ∀ x ≠ a, node ≠ some x → s'.heap x = s.heap x := by
  have fresh := Heap.malloc_fresh alloc
  have new (x) (mem : x ∈ addrs T) : x ≠ a := by
    rintro rfl
    exact rep.nodes.live mem fresh
  obtain ⟨b, taken, iff⟩ := rep.taken old
  have free : b = false := Bool.eq_false_iff.mpr fun e => iff.mp e rfl
  obtain ⟨s', store, stored⟩ :=
    store_spec { s with heap := s.heap.set a ⟨data, none, none⟩ } side node (by
      rintro n rfl
      have mem := mem_of_subtree old
      show s.heap.set a _ n ≠ none
      rw [Heap.set_other _ _ (new n mem)]
      exact rep.nodes.live mem) (some a)
  have cell : s'.heap a = some ⟨data, none, none⟩ := by
    rw [stored.kept a]
    · exact Heap.set_same _ _ _
    · rintro rfl
      exact new a (mem_of_subtree old) rfl
  refine ⟨{ s' with tree := { s'.tree with size := s'.tree.size + 1 } }, ?_, ⟨?_, ?_, ?_⟩,
    stored.destroy, stored.calls, ?_⟩
  · rw [bitreeIns, taken, free, Option.bind_eq_bind, Option.bind_some, if_neg Bool.false_ne_true,
      alloc]
    simp only [store]
    rfl
  · have nodes : Nodes s'.heap s'.tree.root (graft side node (.node (a, data) .nil .nil) T) := by
      refine rep.nodes_graft old stored.root ?_ ?_ ⟨rfl, _, cell, rfl, rfl, rfl⟩
      · rintro n rfl
        exact (stored.parent n rfl).trans
          (congrArg (Option.map _) (Heap.set_other _ _ (new n (mem_of_subtree old))))
      · intro x mem ne
        exact (stored.kept x ne).trans
          (Heap.set_other _ _ (new x ((mem_graft_nil rep.nodup old).mp mem).1))
    exact nodes
  · refine nodup_graft rep.nodup old (List.nodup_singleton a) ?_
    intro x mem mem'
    exact new x mem (List.mem_singleton.mp mem')
  · have count := numNodes_graft (.node (a, data) .nil .nil) rep.nodup old
    have size : s'.tree.size + 1 = T.numNodes + 1 := by
      rw [stored.size]; exact congrArg (· + 1) rep.size
    simp only [BinaryTree.numNodes] at count
    show s'.tree.size + 1 = _
    omega
  · intro x ne ne'
    rw [stored.kept x ne']
    exact Heap.set_other _ _ ne

end Ins

section Rem

variable {s s' : TreeSt F D} {side : Side} {node p : Option Addr} {a : Addr}
  {S T : BinaryTree (Addr × D)}

/-- The calls for the data of a tree, in postorder; none without a callback. -/
def destroyCalls (destroy : Option F) (S : BinaryTree (Addr × D)) : List (F × D) :=
  match destroy with
  | none => []
  | some f => (postorder S).map fun v => (f, v.2)

@[simp] lemma destroyCalls_nil (destroy : Option F) :
    destroyCalls destroy (.nil : BinaryTree (Addr × D)) = [] := by
  cases destroy <;> rfl

/-- The call for a node comes after those for its subtrees. -/
lemma destroyCalls_node (destroy : Option F) (v : Addr × D) (l r : BinaryTree (Addr × D)) :
    destroyCalls destroy (.node v l r) =
      destroyCalls destroy l ++ destroyCalls destroy r ++
        (destroy.map fun f => (f, v.2)).toList := by
  cases destroy with
  | none => rfl
  | some f => simp [destroyCalls, postorder]

/-- What a removal of the subtree `S` changes. -/
structure Removed (side : Side) (node : Option Addr) (S : BinaryTree (Addr × D))
    (s s' : TreeSt F D) : Prop where
  size : s'.tree.size = s.tree.size - S.numNodes
  destroy : s'.tree.destroy = s.tree.destroy
  calls : s'.calls = s.calls ++ destroyCalls s.tree.destroy S
  root : s'.tree.root = if node = none then none else s.tree.root
  freed : ∀ x ∈ addrs S, s'.heap x = none
  parent : ∀ n, node = some n → s'.heap n = (s.heap n).map (·.setChild side none)
  kept : ∀ x ∉ addrs S, node ≠ some x → s'.heap x = s.heap x

lemma Removed.nil (load : (Position.of side node).load s = some none) :
    Removed side node .nil s s where
  size := by simp
  destroy := rfl
  calls := by rw [destroyCalls_nil, List.append_nil]
  root := by
    cases node with
    | none => exact Option.some.inj load
    | some n => rfl
  freed x mem := absurd mem List.not_mem_nil
  parent n e := by
    subst e
    obtain ⟨c, cell, none⟩ := Option.map_eq_some_iff.mp load
    rw [cell, Option.map_some, ← none, setChild_child]
  kept x _ _ := rfl

/-- The removal of a subtree of a node does not touch the position of the node. -/
lemma Removed.load {side' : Side} (removed : Removed side' (some a) S s s')
    (outside : ∀ n, node = some n → n ∉ addrs S ∧ n ≠ a) :
    (Position.of side node).load s' = (Position.of side node).load s := by
  cases node with
  | none => exact congrArg some (removed.root.trans (if_neg (Option.some_ne_none a)))
  | some n =>
    obtain ⟨out, ne⟩ := outside n rfl
    rw [Position.of, Position.load, Position.load,
      removed.kept n out fun e => ne (Option.some.inj e).symm]

/-- The removals of the subtrees of a node and of the node itself. -/
lemma Removed.subtrees {s₁ s₂ : TreeSt F D} {v : Addr × D} {l r : BinaryTree (Addr × D)}
    (left : Removed .left (some v.1) l s s₁) (right : Removed .right (some v.1) r s₁ s₂)
    (root : Removed side node (.node v .nil .nil) s₂ s') (nodup : (addrs (.node v l r)).Nodup)
    (outside : ∀ n, node = some n → n ∉ addrs (.node v l r)) :
    Removed side node (.node v l r) s s' := by
  obtain ⟨_, _, disj, vl, vr⟩ := nodup_addrs_node.mp nodup
  have other {x} (mem : x ∈ addrs (.node v l r)) : node ≠ some x := fun e => outside x e mem
  -- a cell that is not one of the subtree
  have same {x} (out : x ∉ addrs (.node v l r)) : s₂.heap x = s.heap x := by
    rw [mem_addrs_node, not_or, not_or] at out
    obtain ⟨out_l, out_r, ne⟩ := out
    have ne : some v.1 ≠ some x := fun e => ne (Option.some.inj e).symm
    rw [right.kept x out_r ne, left.kept x out_l ne]
  refine ⟨?_, ?_, ?_, ?_, ?_, ?_, ?_⟩
  · rw [root.size, right.size, left.size]
    simp only [BinaryTree.numNodes]
    omega
  · rw [root.destroy, right.destroy, left.destroy]
  · rw [root.calls, right.calls, right.destroy, left.calls, left.destroy, destroyCalls_node,
      destroyCalls_node, destroyCalls_nil]
    simp only [List.append_assoc, List.nil_append]
  · rw [root.root, right.root, left.root, if_neg (Option.some_ne_none _),
      if_neg (Option.some_ne_none _)]
  · intro x mem
    by_cases here : x = v.1
    · exact root.freed x (List.mem_singleton.mpr here)
    · rw [root.kept x (fun mem => here (List.mem_singleton.mp mem)) (other mem)]
      have ne : some v.1 ≠ some x := fun e => here (Option.some.inj e).symm
      rcases mem_addrs_node.mp mem with mem | mem | e
      · rw [right.kept x (disj mem) ne]
        exact left.freed x mem
      · exact right.freed x mem
      · exact absurd e here
  · intro n e
    rw [root.parent n e, same (outside n e)]
  · intro x out ne
    rw [root.kept x (fun mem => out (mem_addrs_node.mpr (.inr (.inr (List.mem_singleton.mp mem)))))
      ne, same out]

/-- The removal of a node without subtrees. -/
lemma release_spec {c : BiTreeNode D} (load : (Position.of side node).load s = some (some a))
    (cell : s.heap a = some c) (outside : node ≠ some a) :
    ∃ s', release (Position.of side node) s = some s' ∧
      Removed side node (.node (a, c.data) .nil .nil) s s' := by
  obtain ⟨s', store, stored⟩ := store_spec { s with
    heap := s.heap.free a
    calls := s.calls ++ (s.tree.destroy.map fun destroy => (destroy, c.data)).toList } side node (by
      rintro n rfl
      obtain ⟨c', cell', _⟩ := Option.map_eq_some_iff.mp load
      show s.heap.free a n ≠ none
      rw [Heap.free_other _ fun e => outside (congrArg some e), cell']
      exact Option.some_ne_none c') none
  refine ⟨{ s' with tree := { s'.tree with size := s'.tree.size - 1 } }, ?_, ?_, stored.destroy, ?_,
    stored.root, ?_, ?_, ?_⟩
  · rw [release, load]
    simp only [Option.bind_eq_bind, Option.bind_some, cell, store]
    rfl
  · show s'.tree.size - 1 = _
    rw [stored.size]
    rfl
  · show s'.calls = _
    rw [stored.calls, destroyCalls_node, destroyCalls_nil]
    rfl
  · intro x mem
    rw [List.mem_singleton.mp mem]
    exact (stored.kept a outside).trans (Heap.free_same _ _)
  · intro n e
    have other : n ≠ a := fun same => outside (e.trans (congrArg some same))
    exact (stored.parent n e).trans (congrArg (Option.map _) (Heap.free_other _ other))
  · intro x out ne
    exact (stored.kept x ne).trans (Heap.free_other _ fun same => out (List.mem_singleton.mpr same))

/-- There is nothing to remove at an empty position. -/
lemma bitreeRem_empty (bound : Nat) (load : (Position.of side node).load s = some none) :
    bitreeRem (bound + 1) side s node = some s := by
  rw [bitreeRem]
  by_cases zero : s.tree.size = 0
  · rw [if_pos zero]
  · rw [if_neg zero]
    simp [load]

lemma bitreeRem_node {bound : Nat} {s₁ s₂ : TreeSt F D} (size : s.tree.size ≠ 0)
    (load : (Position.of side node).load s = some (some a))
    (left : bitreeRem bound .left s (some a) = some s₁)
    (load₁ : (Position.of side node).load s₁ = some (some a))
    (right : bitreeRem bound .right s₁ (some a) = some s₂) :
    bitreeRem (bound + 1) side s node = release (Position.of side node) s₂ := by
  rw [bitreeRem, if_neg size]
  simp [load, left, load₁, right]

/-- The removal of a subtree: the recursion over it calls `destroy` for its nodes in postorder and
releases them, and the size is at least the number of its nodes at every point. -/
lemma bitreeRem_spec (bound : Nat) (load : (Position.of side node).load s = some p)
    (nodes : Nodes s.heap p S) (nodup : (addrs S).Nodup)
    (outside : ∀ n, node = some n → n ∉ addrs S) (size : S.numNodes ≤ s.tree.size)
    (deep : S.height < bound) :
    ∃ s', bitreeRem bound side s node = some s' ∧ Removed side node S s s' := by
  induction S generalizing bound side s node p with
  | nil =>
    obtain ⟨bound, rfl⟩ := Nat.exists_eq_add_one_of_ne_zero (Nat.ne_of_gt deep)
    cases nodes
    exact ⟨s, bitreeRem_empty bound load, .nil load⟩
  | node v l r ihl ihr =>
    obtain ⟨bound, rfl⟩ := Nat.exists_eq_add_one_of_ne_zero (Nat.ne_zero_of_lt deep)
    obtain ⟨rfl, c, cell, hd, nl, nr⟩ := nodes
    obtain ⟨dl, dr, disj, vl, vr⟩ := nodup_addrs_node.mp nodup
    simp only [BinaryTree.numNodes, BinaryTree.height] at size deep
    -- the left subtree
    have load_l : (Position.of .left (some v.1)).load s = some c.left := by
      rw [Position.of, Position.load, cell]
      rfl
    obtain ⟨s₁, rem₁, removed₁⟩ :=
      ihl bound load_l nl dl (by rintro n ⟨⟩; exact vl) (by omega) (by omega)
    have cell₁ : s₁.heap v.1 = some (c.setChild .left none) := by
      rw [removed₁.parent v.1 rfl, cell]
      rfl
    have size₁ := removed₁.size
    -- the right subtree
    have load_r : (Position.of .right (some v.1)).load s₁ = some c.right := by
      rw [Position.of, Position.load, cell₁]
      rfl
    obtain ⟨s₂, rem₂, removed₂⟩ := ihr bound load_r
      (nr.frame fun x mem => removed₁.kept x (fun mem' => disj mem' mem) fun e =>
        vr (Option.some.inj e ▸ mem)) dr
      (by rintro n ⟨⟩; exact vr) (by omega) (by omega)
    have cell₂ : s₂.heap v.1 = some ((c.setChild .left none).setChild .right none) := by
      rw [removed₂.parent v.1 rfl, cell₁]
      rfl
    have size₂ := removed₂.size
    -- neither of the two removals touches the position itself
    have load₁ : (Position.of side node).load s₁ = some (some v.1) := by
      rw [removed₁.load, load]
      intro n e
      have out := outside n e
      rw [mem_addrs_node, not_or, not_or] at out
      exact ⟨out.1, out.2.2⟩
    have load₂ : (Position.of side node).load s₂ = some (some v.1) := by
      rw [removed₂.load, load₁]
      intro n e
      have out := outside n e
      rw [mem_addrs_node, not_or] at out
      exact not_or.mp out.2
    obtain ⟨s', rel, removed⟩ := release_spec load₂ cell₂
      (fun e => outside v.1 e (mem_addrs_node.mpr (.inr (.inr rfl))))
    rw [data_setChild, data_setChild, hd] at removed
    refine ⟨s', ?_, removed₁.subtrees removed₂ removed nodup outside⟩
    rw [bitreeRem_node (by omega) load rem₁ load₁ rem₂, rel]

lemma TreeRep.rem (rep : TreeRep s.heap s.tree T) (side : Side)
    (old : subtree side node T = some S) :
    ∃ s', bitreeRem (s.tree.size.toNat + 1) side s node = some s' ∧ Removed side node S s s' ∧
      TreeRep s'.heap s'.tree (graft side node .nil T) := by
  obtain ⟨p, load, nodes⟩ := rep.load old
  obtain ⟨nodup, outside⟩ := nodup_subtree rep.nodup old
  have count := numNodes_graft .nil rep.nodup old
  have size := rep.size
  have deep := S.height_le_numNodes
  simp only [BinaryTree.numNodes] at count
  obtain ⟨s', rem, removed⟩ :=
    bitreeRem_spec (s.tree.size.toNat + 1) load nodes nodup outside (by omega) (by omega)
  refine ⟨s', rem, removed, ?_, ?_, ?_⟩
  · refine rep.nodes_graft old removed.root removed.parent ?_ rfl
    intro x mem ne
    exact removed.kept x ((mem_graft_nil rep.nodup old).mp mem).2 ne
  · exact nodup_graft rep.nodup old List.nodup_nil (List.disjoint_nil_right _)
  · have := removed.size
    omega

lemma TreeRep.destroy (rep : TreeRep s.heap s.tree T) :
    ∃ s', bitreeDestroy s = some s' ∧ s'.tree = ⟨0, none, none⟩ ∧
      s'.calls = s.calls ++ destroyCalls s.tree.destroy T ∧
      (∀ x ∈ addrs T, s'.heap x = none) ∧ ∀ x ∉ addrs T, s'.heap x = s.heap x := by
  obtain ⟨s', rem, removed, _⟩ := rep.rem (S := T) .left (rfl : subtree .left none T = some T)
  refine ⟨{ s' with tree := ⟨0, none, none⟩ }, ?_, rfl, removed.calls, removed.freed, ?_⟩
  · rw [bitreeDestroy, bitreeRemLeft, rem]
    rfl
  · intro x out
    exact removed.kept x out (Option.some_ne_none x).symm

end Rem

section Merge

variable {heap : Heap (BiTreeNode D)} {left right : BiTree F} {L R : BinaryTree (Addr × D)}
  {data : D} {offer : Option Addr}
  {a : Addr}

/-- A fresh header represents the empty tree. -/
lemma TreeRep.init (heap : Heap (BiTreeNode D)) (destroy : Option F) :
    TreeRep heap (bitreeInit destroy) .nil :=
  ⟨rfl, List.nodup_nil, rfl⟩

/-- A merge without memory leaves the heap and the two headers as they are, and an empty header for
the merged tree. -/
lemma bitreeMerge_fail (fail : heap.malloc offer = none) :
    bitreeMerge heap left right data offer =
      some (-1, ⟨heap, ⟨0, none, none⟩, []⟩, left, right) := by
  have ins : bitreeInsLeft ⟨heap, bitreeInit left.destroy, []⟩ none data offer =
      some (-1, ⟨heap, bitreeInit left.destroy, []⟩) :=
    bitreeIns_refused (S := .nil) (.init heap left.destroy) rfl (.inr fail)
  rw [bitreeMerge, ins]
  rfl

/-- A merge puts both trees below a new root. -/
lemma bitreeMerge_spec (data : D) (repL : TreeRep heap left L) (repR : TreeRep heap right R)
    (disj : (addrs L).Disjoint (addrs R)) (alloc : heap.malloc offer = some a) :
    ∃ s', bitreeMerge heap left right data offer =
        some (0, s', { left with root := none, size := 0 },
          { right with root := none, size := 0 }) ∧
      TreeRep s'.heap s'.tree (.node (a, data) L R) ∧ s'.tree.destroy = left.destroy ∧
        s'.calls = [] ∧
      ∀ x ≠ a, s'.heap x = heap x := by
  have fresh := Heap.malloc_fresh alloc
  have ins : bitreeInsLeft ⟨heap, bitreeInit left.destroy, []⟩ none data offer =
      some (0, ⟨heap.set a ⟨data, none, none⟩, ⟨1, left.destroy, some a⟩, []⟩) := by
    simp only [bitreeInsLeft, bitreeIns, taken, alloc]
    rfl
  have fresh_L : a ∉ addrs L := fun mem => repL.nodes.live mem fresh
  have fresh_R : a ∉ addrs R := fun mem => repR.nodes.live mem fresh
  have kept (x) (ne : x ≠ a) :
    (((heap.set a ⟨data, none, none⟩).set a ⟨data, left.root, none⟩).set a
      ⟨data, left.root, right.root⟩) x = heap x := by
    rw [Heap.set_other _ _ ne, Heap.set_other _ _ ne, Heap.set_other _ _ ne]
  refine ⟨⟨((heap.set a ⟨data, none, none⟩).set a ⟨data, left.root, none⟩).set a
    ⟨data, left.root, right.root⟩,
    ⟨1 + left.size + right.size, left.destroy, some a⟩, []⟩, ?_, ⟨?_, ?_, ?_⟩, rfl, rfl, kept⟩
  · rw [bitreeMerge, ins]
    simp [Position.store, BiTreeNode.setChild, Side.pick]
  · refine ⟨rfl, ⟨data, left.root, right.root⟩, Heap.set_same _ _ _, rfl, repL.nodes.frame ?_,
      repR.nodes.frame ?_⟩
    · intro x mem
      exact kept x fun e => fresh_L (e ▸ mem)
    · intro x mem
      exact kept x fun e => fresh_R (e ▸ mem)
  · exact nodup_addrs_node.mpr ⟨repL.nodup, repR.nodup, disj, fresh_L, fresh_R⟩
  · show 1 + left.size + right.size = _
    rw [repL.size, repR.size]
    simp only [BinaryTree.numNodes]
    omega

end Merge

end SweetClib.Tree
