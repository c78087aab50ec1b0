import SweetClib.Avl.Map

/-!
# Balance and failure

What does not depend on the order of the keys, so that it holds under every compare function: a
reachable tree is balanced and its size counts its nodes, hidden or not (`Shaped`). By the
Fibonacci bound of the library the recursions of `insert`, `hide` and `lookup` are then at most
logarithmically deep in the size (`bistree_height`). A call of `insert` that does not return 0
leaves every level of the recursion before anything was changed (`insert_unchanged`), whatever
allocation failed (`bistree_insert_atomic`). Removal and lookup go down the same way to the same
node (`found`), and disagree exactly when that node is hidden already (`bistree_remove_agrees`,
`remove_removed_twice`).
-/

namespace SweetClib.Avl
open SweetClib.Lib

variable {D : Type*}

/-- The tree is balanced, and `size` counts its nodes. -/
structure Shaped (compare : D → D → Int) (tree : BisTree D) : Prop where
  cmp : tree.compare = compare
  balanced : Balanced tree.root
  size : tree.size = (entries tree.root).length

/-- The nested calls of C `hide` and C `lookup`. -/
def searchCalls (compare : D → D → Int) (data : D) : BiTreeNode (AvlNode D) → Nat
  | .nil => 1
  | .node n l r =>
    let cmpval := compare data n.data
    if cmpval < 0 then searchCalls compare data l + 1
    else if cmpval > 0 then searchCalls compare data r + 1
    else 1

/-- The nested calls of C `insert`, which puts a leaf below a node without another call. -/
def insertCalls (compare : D → D → Int) (data : D) : BiTreeNode (AvlNode D) → Nat
  | .nil => 1
  | .node n l r =>
    let cmpval := compare data n.data
    if cmpval < 0 then if bitreeIsEob l then 1 else insertCalls compare data l + 1
    else if cmpval > 0 then if bitreeIsEob r then 1 else insertCalls compare data r + 1
    else 1

/-- The node at which `hide` and `lookup` end their search, if there is one. -/
def found (compare : D → D → Int) (data : D) : BiTreeNode (AvlNode D) → Option (AvlNode D)
  | .nil => none
  | .node n l r =>
    let cmpval := compare data n.data
    if cmpval < 0 then found compare data l
    else if cmpval > 0 then found compare data r
    else some n

section Insert

variable {compare : D → D → Int} {destroy avlOk nodeOk ok : Bool} {data : D} {size : Int}
  {balanced : Bool} {t : BiTreeNode (AvlNode D)} {q : InsRes D}

/-- An insertion that does not return 0 has changed nothing. -/
lemma insert_unchanged (e : insert compare destroy avlOk nodeOk data size balanced t = some q)
    (ret : q.retval ≠ 0) : q.node = t ∧ q.size = size ∧ q.destroyed = [] := by
  induction t generalizing q with
  | nil =>
    simp only [insert, bitreeInsLeft] at e
    split_ifs at e <;> cases e <;> first | exact ⟨rfl, rfl, rfl⟩ | exact absurd rfl ret
  | node n l r ihl ihr =>
    obtain lt | eq | gt := lt_trichotomy (compare data n.data) 0
    · by_cases nl : l = .nil
      · subst nl
        rw [insert_lt_nil lt] at e
        split at e
        · exact absurd (growLeft_entries e).2.1 ret
        · cases e
          exact ⟨rfl, rfl, rfl⟩
      · rw [insert_lt lt nl] at e
        obtain ⟨q₀, e₀, e⟩ := Option.bind_eq_some_iff.mp e
        split at e
        · rename_i zero
          exact absurd ((growLeft_entries e).2.1.trans zero) ret
        · cases e
          obtain ⟨node, rest⟩ := ihl e₀ ret
          exact ⟨congrArg (BinaryTree.node n · r) node, rest⟩
    · rw [insert_eq eq] at e
      split at e
      · cases e
        exact absurd rfl ret
      · cases e
        exact ⟨rfl, rfl, rfl⟩
    · by_cases nr : r = .nil
      · subst nr
        rw [insert_gt_nil gt] at e
        split at e
        · exact absurd (growRight_entries e).2.1 ret
        · cases e
          exact ⟨rfl, rfl, rfl⟩
      · rw [insert_gt gt nr] at e
        obtain ⟨q₀, e₀, e⟩ := Option.bind_eq_some_iff.mp e
        split at e
        · rename_i zero
          exact absurd ((growRight_entries e).2.1.trans zero) ret
        · cases e
          obtain ⟨node, rest⟩ := ihr e₀ ret
          exact ⟨congrArg (BinaryTree.node n l ·) node, rest⟩

/-- What the return value of an insertion says. -/
lemma Inserts.ret_cases {ret size' : Int} {es : List (D × Bool)} {ds : List D}
    (ins : Inserts compare destroy ok data size t ret es size' ds) :
    ret = 0 ∨ (ret = -1 ∧ ok = false) ∨ (ret = 1 ∧ (lookup compare data t).1 = 0) := by
  induction ins with
  | leaf _ => exact .inl rfl
  | fail no => exact .inr (.inl ⟨rfl, no⟩)
  | left lt _ ih => simpa only [lookup, lt, if_true] using ih
  | right gt _ ih => simpa only [lookup, gt, not_lt_of_gt gt, if_true, if_false] using ih
  | revive _ _ => exact .inl rfl
  | dup eq shown => exact .inr (.inr ⟨rfl, by simp [lookup, eq, shown]⟩)

end Insert

section Shaped

variable {compare : D → D → Int} {destroy : Bool} {tree tree' : BisTree D}

/-- An insertion is answered as `Inserts` says and keeps the shape. -/
lemma Shaped.insert (sh : Shaped compare tree) (d : D) (avlOk nodeOk : Bool) :
    ∃ ret tree' destroyed, bistreeInsert tree d avlOk nodeOk = some (ret, tree', destroyed) ∧
      Shaped compare tree' ∧
      (ret = 0 ∨ (ret = -1 ∧ (avlOk && nodeOk) = false) ∨
        (ret = 1 ∧ (bistreeLookup tree d).1 = 0)) ∧
      (ret ≠ 0 → tree' = tree ∧ destroyed = []) := by
  have total : ∃ q, Avl.insert compare tree.destroy avlOk nodeOk d tree.size false tree.root =
    some q ∧
      Balanced q.node := insert_total sh.balanced
  obtain ⟨q, e, bq⟩ := total
  have root : tree.root = .nil → tree.size ≤ 0 := by
    intro h
    rw [sh.size, h]
    rfl
  have ins := inserts_of_insert root e
  refine ⟨q.retval, { tree with root := q.node, size := q.size }, q.destroyed, ?_, ?_, ?_, ?_⟩
  · simp [bistreeInsert, sh.cmp, e]
  · refine ⟨sh.cmp, bq, ?_⟩
    have := ins.count
    have := sh.size
    simp only
    omega
  · rw [bistreeLookup, sh.cmp]
    exact ins.ret_cases
  · intro ret
    obtain ⟨node, size, destroyed⟩ := insert_unchanged e ret
    exact ⟨by rw [node, size], destroyed⟩

lemma Shaped.step {op o} (sh : Shaped compare tree) (st : treeStep tree op = some (o, tree')) :
    Shaped compare tree' := by
  cases op with
  | insert d avlOk nodeOk =>
    obtain ⟨ret, tree₁, destroyed, e, sh₁, _⟩ := sh.insert d avlOk nodeOk
    simp only [treeStep, e, Option.map_some, Option.some.injEq, Prod.mk.injEq] at st
    obtain ⟨_, rfl⟩ := st
    exact sh₁
  | remove d =>
    simp only [treeStep, bistreeRemove, sh.cmp, Option.some.injEq, Prod.mk.injEq] at st
    obtain ⟨_, rfl⟩ := st
    exact ⟨rfl, hide_balanced sh.balanced, by rw [hide_length]; exact sh.size⟩
  | lookup d =>
    cases st
    exact sh

/-- Every reachable tree has the shape, whatever the compare function. -/
lemma Shaped.run {tr} (run : Run (Answers treeStep) (bistreeInit compare destroy) tr tree) :
    Shaped compare tree :=
  run.invariant (Shaped compare) ⟨rfl, trivial, rfl⟩ fun _ _ _ sh st => sh.step st

/-- The size is bounded from below by the height. -/
lemma Shaped.fib_le (sh : Shaped compare tree) :
    (Nat.fib (tree.root.height + 2) : Int) - 1 ≤ tree.size := by
  have even :
      EachNode (fun _ l r => l.height ≤ r.height + 1 ∧ r.height ≤ l.height + 1) tree.root := by
    refine EachNode.imp (fun n l r fac => ?_) sh.balanced
    simp only [AVL_RGT_HEAVY, AVL_BALANCED, AVL_LFT_HEAVY] at fac
    omega
  have bound := fib_height_le even
  rw [sh.size, length_entries]
  omega

end Shaped

/-- The searches go down one level with each call. -/
lemma searchCalls_le {compare : D → D → Int} {data : D} (t : BiTreeNode (AvlNode D)) :
    searchCalls compare data t ≤ t.height + 1 := by
  induction t with
  | nil => exact le_rfl
  | node n l r ihl ihr =>
    simp only [searchCalls, BinaryTree.height]
    split_ifs <;> omega

lemma insertCalls_le {compare : D → D → Int} {data : D} (t : BiTreeNode (AvlNode D)) :
    insertCalls compare data t ≤ t.height + 1 := by
  induction t with
  | nil => exact le_rfl
  | node n l r ihl ihr =>
    simp only [insertCalls, BinaryTree.height]
    split_ifs <;> omega

/-- After every run, under any compare function, the size is at least the Fibonacci number of the
height plus two, less one, and no insertion, removal or lookup makes more nested calls than that
bound allows. -/
theorem bistree_height (compare : D → D → Int) (destroy : Bool) {tr : List (TreeOp D × TreeAns D)}
    {tree : BisTree D} (run : Run (Answers treeStep) (bistreeInit compare destroy) tr tree) :
    (Nat.fib (tree.root.height + 2) : Int) - 1 ≤ tree.size ∧
    ∀ d, (Nat.fib (insertCalls compare d tree.root + 1) : Int) - 1 ≤ tree.size ∧
      (Nat.fib (searchCalls compare d tree.root + 1) : Int) - 1 ≤ tree.size := by
  have bound := (Shaped.run run).fib_le
  have deep : ∀ calls, calls ≤ tree.root.height + 1 →
      (Nat.fib (calls + 1) : Int) - 1 ≤ tree.size := by
    intro calls le
    have mono : Nat.fib (calls + 1) ≤ Nat.fib (tree.root.height + 2) := Nat.fib_mono (by omega)
    omega
  exact ⟨bound, fun d => ⟨deep _ (insertCalls_le tree.root), deep _ (searchCalls_le tree.root)⟩⟩

/-- Four insertions in increasing order make a tree of height 3, which needs 4 nodes. -/
theorem bistree_height_four :
    let tree : BisTree Int :=
      { size := 4, compare := fun a b => a - b, destroy := false,
        root := .node ⟨2, false, -1⟩ (.node ⟨1, false, 0⟩ .nil .nil)
          (.node ⟨3, false, -1⟩ .nil (.node ⟨4, false, 0⟩ .nil .nil)) }
    tree.root.height = 3 ∧ (Nat.fib (tree.root.height + 2) : Int) - 1 ≤ tree.size := by
  have run : Run (Answers treeStep) (bistreeInit (fun a b : Int => a - b) false)
      [(.insert 4 true true, ⟨0, 4, []⟩), (.insert 3 true true, ⟨0, 3, []⟩),
        (.insert 2 true true, ⟨0, 2, []⟩), (.insert 1 true true, ⟨0, 1, []⟩)] _ :=
    .cons (.cons (.cons (.cons .nil rfl) rfl) rfl) rfl
  exact ⟨rfl, (bistree_height _ _ run).1⟩

/-- After every run, under any compare function and whichever of its two allocations fail, an
insertion returns 0, or -1 because an allocation failed, or 1 because a lookup finds the key; in
the latter two cases the tree is as it was and nothing was destroyed. -/
theorem bistree_insert_atomic (compare : D → D → Int) (destroy : Bool)
    {tr : List (TreeOp D × TreeAns D)} {tree : BisTree D}
    (run : Run (Answers treeStep) (bistreeInit compare destroy) tr tree) (d : D)
    (avlOk nodeOk : Bool) :
    ∃ ret tree' destroyed, bistreeInsert tree d avlOk nodeOk = some (ret, tree', destroyed) ∧
      (ret = 0 ∨ (ret = -1 ∧ (avlOk && nodeOk) = false) ∨
        (ret = 1 ∧ (bistreeLookup tree d).1 = 0)) ∧
      (ret ≠ 0 → tree' = tree ∧ destroyed = []) := by
  obtain ⟨ret, tree', destroyed, e, _, cases, unchanged⟩ := (Shaped.run run).insert d avlOk nodeOk
  exact ⟨ret, tree', destroyed, e, cases, unchanged⟩

/-- An insertion below two nodes whose second allocation fails. -/
theorem bistree_insert_atomic_three :
    let tree : BisTree Int :=
      { size := 2, compare := fun a b => a - b, destroy := true,
        root := .node ⟨1, false, -1⟩ .nil (.node ⟨2, false, 0⟩ .nil .nil) }
    bistreeInsert tree 3 true false = some (-1, tree, []) := by
  intro tree
  have run : Run (Answers treeStep) (bistreeInit (fun a b : Int => a - b) true)
      [(.insert 2 true true, ⟨0, 2, []⟩), (.insert 1 true true, ⟨0, 1, []⟩)] tree :=
    .cons (.cons .nil rfl) rfl
  obtain ⟨ret, tree', destroyed, e, _, unchanged⟩ := bistree_insert_atomic _ _ run 3 true false
  have minus : ret = -1 := (congrArg Prod.fst (Option.some.inj e)).symm
  obtain ⟨rfl, rfl⟩ := unchanged (by omega)
  rw [e, minus]

section Remove

variable (compare : D → D → Int) (data : D)

/-- Hiding answers whether the search ends at a node, and a search that does not changes nothing. -/
lemma hide_found (t : BiTreeNode (AvlNode D)) :
    ((hide compare data t).1 = 0 ∧ (found compare data t).isSome) ∨
      (hide compare data t = (-1, t) ∧ found compare data t = none) := by
  induction t with
  | nil => exact .inr ⟨rfl, rfl⟩
  | node n l r ihl ihr =>
    simp only [hide, found]
    split_ifs with lt gt
    · obtain ⟨ret, ends⟩ | ⟨same, none⟩ := ihl
      · exact .inl ⟨ret, ends⟩
      · exact .inr ⟨by rw [same], none⟩
    · obtain ⟨ret, ends⟩ | ⟨same, none⟩ := ihr
      · exact .inl ⟨ret, ends⟩
      · exact .inr ⟨by rw [same], none⟩
    · exact .inl ⟨rfl, rfl⟩

/-- A lookup answers whether the search ends at a node that is not hidden. -/
lemma lookup_found (t : BiTreeNode (AvlNode D)) :
    (lookup compare data t).1 = 0 ↔ ∃ n, found compare data t = some n ∧ n.hidden = false := by
  induction t with
  | nil => simp [lookup, found]
  | node n l r ihl ihr =>
    simp only [lookup, found]
    by_cases lt : compare data n.data < 0
    · simpa only [lt, if_true] using ihl
    by_cases gt : compare data n.data > 0
    · simpa only [lt, gt, if_true, if_false] using ihr
    cases h : n.hidden <;> simp [lt, gt, h]

end Remove

/-- After every run, for every key: a removal returns 0 exactly when a lookup before it would, and
returns -1 and leaves the tree alone otherwise, if and only if the search for the key does not end
at a hidden node. -/
theorem bistree_remove_agrees (compare : D → D → Int) (destroy : Bool)
    {tr : List (TreeOp D × TreeAns D)} {tree : BisTree D}
    (run : Run (Answers treeStep) (bistreeInit compare destroy) tr tree) (k : D) :
    (((bistreeRemove tree k).1 = 0 ↔ (bistreeLookup tree k).1 = 0) ∧
      ((bistreeLookup tree k).1 ≠ 0 → bistreeRemove tree k = (-1, tree))) ↔
    ∀ n, found compare k tree.root = some n → n.hidden = false := by
  have cmp := (Shaped.run run).cmp
  have look : (bistreeLookup tree k).1 = 0 ↔
      ∃ n, found compare k tree.root = some n ∧ n.hidden = false := by
    rw [bistreeLookup, cmp]
    exact lookup_found compare k tree.root
  rw [look]
  simp only [bistreeRemove, cmp]
  obtain ⟨ret, ends⟩ | ⟨same, none⟩ := hide_found compare k tree.root
  · -- the removal returns 0, so that the lookup has to, and it does at a node that is not hidden
    obtain ⟨n, at_n⟩ := Option.isSome_iff_exists.mp ends
    constructor
    · rintro ⟨agree, _⟩ n' at_n'
      obtain ⟨m, at_m, shown⟩ := agree.mp ret
      cases at_m.symm.trans at_n'
      exact shown
    · intro shown
      have both : ∃ n, found compare k tree.root = some n ∧ n.hidden = false :=
        ⟨n, at_n, shown n at_n⟩
      exact ⟨⟨fun _ => both, fun _ => ret⟩, fun no => absurd (look.mpr both) no⟩
  · rw [same, none]
    refine ⟨fun _ n at_n => ?_, fun _ => ⟨by simp, fun _ => by rw [← cmp]⟩⟩
    cases at_n

/-- A key that was inserted, and one that never was. -/
theorem bistree_remove_agrees_one :
    let tree : BisTree Int :=
      { size := 1, compare := fun a b => a - b, destroy := false,
        root := .node ⟨1, false, 0⟩ .nil .nil }
    ((bistreeRemove tree 1).1 = 0 ↔ (bistreeLookup tree 1).1 = 0) ∧
      bistreeRemove tree 2 = (-1, tree) := by
  intro tree
  have run : Run (Answers treeStep) (bistreeInit (fun a b : Int => a - b) false)
      [(.insert 1 true true, ⟨0, 1, []⟩)] tree := .cons .nil rfl
  have shown : ∀ n, found (fun a b : Int => a - b) 1 tree.root = some n → n.hidden = false := by
    rintro n ⟨⟩
    rfl
  exact ⟨((bistree_remove_agrees _ _ run 1).mpr shown).1,
    ((bistree_remove_agrees _ _ run 2).mpr nofun).2 (by decide)⟩

/-- A key that was removed and not inserted again: a lookup returns -1, another removal 0. -/
theorem remove_removed_twice :
    ∃ tr tree, Run (Answers treeStep) (bistreeInit (fun a b : Int => a - b) false) tr tree ∧
      inputs tr = [.insert 1 true true, .remove 1] ∧
      (bistreeLookup tree 1).1 = -1 ∧ (bistreeRemove tree 1).1 = 0 := by
  have run : Run (Answers treeStep) (bistreeInit (fun a b : Int => a - b) false)
      [(.remove 1, ⟨0, 1, []⟩), (.insert 1 true true, ⟨0, 1, []⟩)] _ := .cons (.cons .nil rfl) rfl
  exact ⟨_, _, run, rfl, rfl, rfl⟩

end SweetClib.Avl
