import SweetClib.Lib.Run
import SweetClib.Avl.Entries

/-!
# Runs of the tree

The calls of `bistree.c` as a transition system (`treeStep`) and its invariant: the tree is a
balanced search tree that counts its nodes, in every state of every run from `bistree_init`,
whatever allocations fail.
-/

namespace SweetClib.Avl
open SweetClib.Lib

variable {D : Type*}

/-- The calls on a tree; an insertion carries the outcomes of its two allocations. -/
inductive TreeOp (D : Type*) where
  | insert (data : D) (avlOk nodeOk : Bool)
  | remove (data : D)
  | lookup (data : D)

/-- The key a call is made with. -/
def TreeOp.key : TreeOp D → D
  | .insert d _ _ => d
  | .remove d => d
  | .lookup d => d

/-- What a call answers: the return value, `*data` afterwards (the argument, unless a lookup finds
something) and the data passed to `destroy`. -/
structure TreeAns (D : Type*) where
  ret : Int
  data : D
  destroyed : List D

/-- One call. -/
def treeStep (tree : BisTree D) : TreeOp D → Option (TreeAns D × BisTree D)
  | .insert data avlOk nodeOk =>
    (bistreeInsert tree data avlOk nodeOk).map fun r => (⟨r.1, data, r.2.2⟩, r.2.1)
  | .remove data =>
    let r := bistreeRemove tree data
    some (⟨r.1, data, []⟩, r.2)
  | .lookup data =>
    let r := bistreeLookup tree data
    some (⟨r.1, r.2, []⟩, tree)

/-- The invariant of the tree, over its entries. -/
structure TreeInv (compare : D → D → Int) (tree : BisTree D) : Prop where
  cmp : tree.compare = compare
  balanced : Balanced tree.root
  sorted : Sorted compare (entries tree.root)
  size : tree.size = (entries tree.root).length

/-- The AVL invariant, node by node: smaller keys on the left, greater keys on the right, the
factor of a node is the difference of the heights and one of the three constants, and the size
counts the nodes. -/
structure AvlTree (compare : D → D → Int) (tree : BisTree D) : Prop where
  search : EachNode (fun n l r => (∀ k ∈ inorder l, compare k.data n.data < 0) ∧
    ∀ k ∈ inorder r, compare k.data n.data > 0) tree.root
  factors : EachNode (fun n l r => n.factor = (l.height : Int) - r.height ∧
    (n.factor = AVL_RGT_HEAVY ∨ n.factor = AVL_BALANCED ∨ n.factor = AVL_LFT_HEAVY)) tree.root
  size : tree.size = tree.root.numNodes

/-- The invariant over the entries is the one over the nodes. -/
lemma TreeInv.avlTree {compare : D → D → Int} (ord : TotalPreorder compare) {tree : BisTree D}
    (inv : TreeInv compare tree) : AvlTree compare tree where
  search := by
    have sorted : (inorder tree.root).Pairwise fun x y => compare x.data y.data < 0 :=
      List.pairwise_map.mp inv.sorted
    have trans : ∀ x y z : AvlNode D, compare x.data y.data < 0 → compare y.data z.data < 0 →
        compare x.data z.data < 0 := fun x y z h h' => ord.lt_of_le_of_lt h.le h'
    have each := (eachNode_iff_pairwise trans tree.root).mpr sorted
    refine each.imp fun n l r ⟨hl, hr⟩ => ⟨hl, fun k mem => ?_⟩
    exact (ord.swap _ _).mp (hr k mem)
  factors := inv.balanced
  size := by rw [inv.size, length_entries]

lemma TreeInv.init (compare : D → D → Int) (destroy : Bool) :
    TreeInv compare (bistreeInit compare destroy) :=
  ⟨rfl, trivial, List.Pairwise.nil, rfl⟩

/-- An insertion does not fault, keeps the invariant and does to the entries what `InsSpec` says. -/
lemma TreeInv.insert {compare : D → D → Int} (ord : TotalPreorder compare) {tree : BisTree D}
    (inv : TreeInv compare tree) (d : D) (avlOk nodeOk : Bool) :
    ∃ ret tree' destroyed, bistreeInsert tree d avlOk nodeOk = some (ret, tree', destroyed) ∧
      TreeInv compare tree' ∧
      InsSpec compare (avlOk && nodeOk) d (entries tree.root) ret (entries tree'.root) := by
  have total : ∃ q, Avl.insert compare tree.destroy avlOk nodeOk d tree.size false tree.root =
    some q ∧
      Balanced q.node := insert_total inv.balanced
  obtain ⟨q, e, bq⟩ := total
  have root : tree.root = .nil → tree.size ≤ 0 := by
    intro h
    rw [inv.size, h]
    rfl
  obtain ⟨sp, sz⟩ := insert_entries ord inv.sorted root e
  refine ⟨q.retval, { tree with root := q.node, size := q.size }, q.destroyed, ?_, ?_, sp⟩
  · simp [bistreeInsert, inv.cmp, e]
  · refine ⟨inv.cmp, bq, sp.sorted ord inv.sorted, ?_⟩
    have := inv.size
    simp only
    omega

lemma TreeInv.remove {compare : D → D → Int} (ord : TotalPreorder compare) {tree : BisTree D}
    (inv : TreeInv compare tree) (d : D) : TreeInv compare (bistreeRemove tree d).2 := by
  simp only [bistreeRemove, inv.cmp]
  exact ⟨rfl, hide_balanced inv.balanced, hide_sorted ord inv.sorted, by rw [inv.size, hide_length]⟩

/-- Every call is answered and keeps the invariant. -/
lemma TreeInv.step {compare : D → D → Int} (ord : TotalPreorder compare) {tree : BisTree D}
    (inv : TreeInv compare tree) (op : TreeOp D) :
    ∃ o tree', treeStep tree op = some (o, tree') ∧ TreeInv compare tree' := by
  cases op with
  | insert d avlOk nodeOk =>
    obtain ⟨ret, tree', destroyed, e, inv', _⟩ := inv.insert ord d avlOk nodeOk
    exact ⟨⟨ret, d, destroyed⟩, tree', by simp [treeStep, e], inv'⟩
  | remove d => exact ⟨_, _, rfl, inv.remove ord d⟩
  | lookup d => exact ⟨_, _, rfl, inv⟩

/-- The state after a call satisfies the invariant. -/
lemma TreeInv.of_step {compare : D → D → Int} (ord : TotalPreorder compare) {tree tree' : BisTree D}
    {op o} (inv : TreeInv compare tree) (st : treeStep tree op = some (o, tree')) :
    TreeInv compare tree' := by
  obtain ⟨o1, tree1, e, inv'⟩ := inv.step ord op
  rw [e] at st
  cases st
  exact inv'

lemma TreeInv.run {compare : D → D → Int} (ord : TotalPreorder compare) {destroy : Bool} {tr tree}
    (run : Run (Answers treeStep) (bistreeInit compare destroy) tr tree) : TreeInv compare tree :=
  run.invariant (TreeInv compare) (.init compare destroy) fun _ _ _ inv st => inv.of_step ord st

lemma tree_inputs {compare : D → D → Int} (ord : TotalPreorder compare) (destroy : Bool)
    (ops : List (TreeOp D)) :
    ∃ tr tree, Run (Answers treeStep) (bistreeInit compare destroy) tr tree ∧ inputs tr = ops :=
  Run.of_inputs treeStep _ (fun _ => True) (TreeInv compare) (.init compare destroy)
    (fun _ op inv _ => inv.step ord op) ops fun _ _ => trivial

/-- Every sequence of calls, with whatever failing allocations, is answered and leaves an AVL
tree. -/
theorem bistree_avl (compare : D → D → Int) (ord : TotalPreorder compare) (destroy : Bool) :
    (∀ ops, ∃ tr tree, Run (Answers treeStep) (bistreeInit compare destroy) tr tree ∧
      inputs tr = ops) ∧
    ∀ tr tree, Run (Answers treeStep) (bistreeInit compare destroy) tr tree →
      AvlTree compare tree :=
  ⟨tree_inputs ord destroy, fun _ _ run => (TreeInv.run ord run).avlTree ord⟩

/-- Integers are totally ordered by the sign of their difference. -/
lemma totalPreorder_sub : TotalPreorder fun a b : Int => a - b :=
  ⟨fun a b => by omega, fun a b c => by omega⟩

/-- Three insertions in increasing order are rebalanced, and a hidden node is counted. -/
theorem bistree_avl_three : AvlTree (fun a b : Int => a - b)
    { size := 3, compare := fun a b => a - b, destroy := false,
      root :=
        .node ⟨2, true, 0⟩ (.node ⟨1, false, 0⟩ .nil .nil) (.node ⟨3, false, 0⟩ .nil .nil) } := by
  have run : Run (Answers treeStep) (bistreeInit (fun a b : Int => a - b) false)
      [(.remove 2, ⟨0, 2, []⟩), (.insert 3 true true, ⟨0, 3, []⟩),
        (.insert 2 true true, ⟨0, 2, []⟩), (.insert 1 true true, ⟨0, 1, []⟩)] _ :=
    .cons (.cons (.cons (.cons .nil rfl) rfl) rfl) rfl
  exact (bistree_avl _ totalPreorder_sub false).2 _ _ run

end SweetClib.Avl
