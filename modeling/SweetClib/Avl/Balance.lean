import SweetClib.Avl.BisTree

/-!
# Balance

`Balanced t`: at every node the factor is the difference of the heights of the subtrees and one of
the three constants. The contract of `insert` that the recursion carries (`Grown`): when it returns
`0`, the flag `*balanced` is clear exactly if the subtree grew by one level, and a subtree that
grew, unless it is a new leaf, is not in balance at its root. The latter is what makes the
rotations meet the shape they dereference (`rotateLeft_balanced`, `rotateRight_balanced`).
-/

namespace SweetClib.Avl
open SweetClib.Lib

variable {D : Type*}

/-- The factor of every node is right. -/
def Balanced : BiTreeNode (AvlNode D) → Prop :=
  EachNode fun n l r => n.factor = (l.height : Int) - r.height ∧
    (n.factor = AVL_RGT_HEAVY ∨ n.factor = AVL_BALANCED ∨ n.factor = AVL_LFT_HEAVY)

/-- The root of the tree is not in balance. -/
def Tilted : BiTreeNode (AvlNode D) → Prop
  | .nil => False
  | .node n _ _ => n.factor ≠ AVL_BALANCED

/-- What the flag says about the subtree of height `h` after an insertion. -/
def Grown (h : Nat) (q : InsRes D) : Prop :=
  (q.balanced = true → q.node.height = h) ∧
  (q.balanced = false → q.node.height = h + 1 ∧ Tilted q.node)

@[simp] lemma balanced_nil : Balanced (.nil : BiTreeNode (AvlNode D)) := trivial

@[simp] lemma balanced_node {n : AvlNode D} {l r} :
    Balanced (.node n l r) ↔ (n.factor = (l.height : Int) - r.height ∧
      (n.factor = -1 ∨ n.factor = 0 ∨ n.factor = 1)) ∧ Balanced l ∧ Balanced r :=
  Iff.rfl

/-- A rotation to the left repairs a left subtree that is two levels higher. -/
lemma rotateLeft_balanced {n : AvlNode D} {l r} (bl : Balanced l) (br : Balanced r)
    (two : l.height = r.height + 2) (tilt : Tilted l) :
    ∃ t, rotateLeft (.node n l r) = some t ∧ Balanced t ∧ t.height = l.height := by
  cases l with
  | nil => exact tilt.elim
  | node left ll lr =>
    obtain ⟨⟨hf, fac⟩, bll, blr⟩ := balanced_node.mp bl
    simp only [Tilted, AVL_BALANCED] at tilt
    simp only [BinaryTree.height] at two
    by_cases heavy : left.factor = 1
    · refine ⟨_, by simp [rotateLeft, AVL_LFT_HEAVY, heavy]; rfl, ?_, ?_⟩
      · simp only [balanced_node, AVL_BALANCED, BinaryTree.height, bll, blr, br]
        norm_num
        omega
      · simp only [BinaryTree.height]
        omega
    · -- the left subtree leans to the right, so that its right subtree is there
      have lean : left.factor = -1 := by omega
      cases lr with
      | nil =>
        simp only [BinaryTree.height] at hf
        omega
      | node g gl gr =>
        obtain ⟨⟨hg, facg⟩, bgl, bgr⟩ := balanced_node.mp blr
        simp only [BinaryTree.height] at two hf
        refine ⟨_, by simp only [rotateLeft, AVL_LFT_HEAVY, heavy, if_false]; rfl, ?_, ?_⟩
        · obtain eg | eg | eg := facg <;>
          · simp only [eg, AVL_RGT_HEAVY, AVL_BALANCED, balanced_node, BinaryTree.height, bll, bgl,
              bgr, br]
            norm_num
            omega
        · simp only [BinaryTree.height]
          omega

/-- A rotation to the right repairs a right subtree that is two levels higher. -/
lemma rotateRight_balanced {n : AvlNode D} {l r} (bl : Balanced l) (br : Balanced r)
    (two : r.height = l.height + 2) (tilt : Tilted r) :
    ∃ t, rotateRight (.node n l r) = some t ∧ Balanced t ∧ t.height = r.height := by
  cases r with
  | nil => exact tilt.elim
  | node right rl rr =>
    obtain ⟨⟨hf, fac⟩, brl, brr⟩ := balanced_node.mp br
    simp only [Tilted, AVL_BALANCED] at tilt
    simp only [BinaryTree.height] at two
    by_cases heavy : right.factor = -1
    · refine ⟨_, by simp [rotateRight, AVL_RGT_HEAVY, heavy]; rfl, ?_, ?_⟩
      · simp only [balanced_node, AVL_BALANCED, BinaryTree.height, brl, brr, bl]
        norm_num
        omega
      · simp only [BinaryTree.height]
        omega
    · -- the right subtree leans to the left, so that its left subtree is there
      have lean : right.factor = 1 := by omega
      cases rl with
      | nil =>
        simp only [BinaryTree.height] at hf
        omega
      | node g gl gr =>
        obtain ⟨⟨hg, facg⟩, bgl, bgr⟩ := balanced_node.mp brl
        simp only [BinaryTree.height] at two hf
        refine ⟨_, by simp only [rotateRight, AVL_RGT_HEAVY, heavy, if_false]; rfl, ?_, ?_⟩
        · obtain eg | eg | eg := facg <;>
          · simp only [eg, AVL_LFT_HEAVY, AVL_BALANCED, balanced_node, BinaryTree.height, brr, bgl,
              bgr, bl]
            norm_num
            omega
        · simp only [BinaryTree.height]
          omega

/-- Rebalancing after the left subtree grew by one level. -/
lemma growLeft_balanced {q : InsRes D} {n : AvlNode D} {l r} (hl : Nat) (eq : q.node = .node n l r)
    (hb : q.balanced = false) (bl : Balanced l) (br : Balanced r)
    (fac : n.factor = (hl : Int) - r.height ∧ (n.factor = -1 ∨ n.factor = 0 ∨ n.factor = 1))
    (grew : l.height = hl + 1) (tilt : n.factor = 1 → Tilted l) :
    ∃ q', growLeft q = some q' ∧ q'.retval = q.retval ∧ Balanced q'.node ∧
      Grown (max hl r.height + 1) q' := by
  obtain ⟨hf, heavy | even | light⟩ := fac
  · refine ⟨{ q with node := .node { n with factor := 0 } l r, balanced := true }, ?_, rfl, ?_, ?_⟩
    · simp [growLeft, hb, eq, heavy, AVL_LFT_HEAVY, AVL_BALANCED, AVL_RGT_HEAVY]
    · simp only [balanced_node, bl, br]
      norm_num
      omega
    · simp only [Grown, BinaryTree.height]
      norm_num
      omega
  · refine ⟨{ q with node := .node { n with factor := 1 } l r }, ?_, rfl, ?_, ?_⟩
    · simp [growLeft, hb, eq, even, AVL_LFT_HEAVY, AVL_BALANCED]
    · simp only [balanced_node, bl, br]
      norm_num
      omega
    · simp only [Grown, hb, Tilted, BinaryTree.height, AVL_BALANCED]
      norm_num
      omega
  · obtain ⟨t, e, bt, ht⟩ := rotateLeft_balanced (n := n) bl br (by omega) (tilt light)
    refine ⟨{ q with node := t, balanced := true }, ?_, rfl, bt, ?_⟩
    · simp [growLeft, hb, eq, light, AVL_LFT_HEAVY, e]
    · simp only [Grown, ht]
      norm_num
      omega

/-- Rebalancing after the right subtree grew by one level. -/
lemma growRight_balanced {q : InsRes D} {n : AvlNode D} {l r} (hr : Nat) (eq : q.node = .node n l r)
    (hb : q.balanced = false) (bl : Balanced l) (br : Balanced r)
    (fac : n.factor = (l.height : Int) - hr ∧ (n.factor = -1 ∨ n.factor = 0 ∨ n.factor = 1))
    (grew : r.height = hr + 1) (tilt : n.factor = -1 → Tilted r) :
    ∃ q', growRight q = some q' ∧ q'.retval = q.retval ∧ Balanced q'.node ∧
      Grown (max l.height hr + 1) q' := by
  obtain ⟨hf, heavy | even | light⟩ := fac
  · obtain ⟨t, e, bt, ht⟩ := rotateRight_balanced (n := n) bl br (by omega) (tilt heavy)
    refine ⟨{ q with node := t, balanced := true }, ?_, rfl, bt, ?_⟩
    · simp [growRight, hb, eq, heavy, AVL_LFT_HEAVY, AVL_BALANCED, AVL_RGT_HEAVY, e]
    · simp only [Grown, ht]
      norm_num
      omega
  · refine ⟨{ q with node := .node { n with factor := -1 } l r }, ?_, rfl, ?_, ?_⟩
    · simp [growRight, hb, eq, even, AVL_LFT_HEAVY, AVL_BALANCED, AVL_RGT_HEAVY]
    · simp only [balanced_node, bl, br]
      norm_num
      omega
    · simp only [Grown, hb, Tilted, BinaryTree.height, AVL_BALANCED]
      norm_num
      omega
  · refine ⟨{ q with node := .node { n with factor := 0 } l r, balanced := true }, ?_, rfl, ?_, ?_⟩
    · simp [growRight, hb, eq, light, AVL_LFT_HEAVY, AVL_BALANCED]
    · simp only [balanced_node, bl, br]
      norm_num
      omega
    · simp only [Grown, BinaryTree.height]
      norm_num
      omega

/-- Rebalancing after an insertion into the left subtree that kept the contract. -/
lemma growLeft_grown {q : InsRes D} {n : AvlNode D} {l r : BiTreeNode (AvlNode D)}
    (bt : Balanced (.node n l r)) (bq : Balanced q.node) (gr : Grown l.height q) :
    ∃ q', growLeft { q with node := .node n q.node r } = some q' ∧ q'.retval = q.retval ∧
      Balanced q'.node ∧ Grown (BinaryTree.node n l r).height q' := by
  obtain ⟨fac, bl, br⟩ := balanced_node.mp bt
  cases hb : q.balanced with
  | true =>
    have ht := gr.1 hb
    refine ⟨{ q with node := .node n q.node r, balanced := true }, ?_, rfl, ?_, ?_⟩
    · simp [growLeft]
    · simp only [balanced_node, ht]
      exact ⟨fac, bq, br⟩
    · simp [Grown, ht]
  | false =>
    obtain ⟨ht, tilt⟩ := gr.2 hb
    exact growLeft_balanced l.height rfl rfl bq br fac ht fun _ => tilt

/-- Rebalancing after an insertion into the right subtree that kept the contract. -/
lemma growRight_grown {q : InsRes D} {n : AvlNode D} {l r : BiTreeNode (AvlNode D)}
    (bt : Balanced (.node n l r)) (bq : Balanced q.node) (gr : Grown r.height q) :
    ∃ q', growRight { q with node := .node n l q.node } = some q' ∧ q'.retval = q.retval ∧
      Balanced q'.node ∧ Grown (BinaryTree.node n l r).height q' := by
  obtain ⟨fac, bl, br⟩ := balanced_node.mp bt
  cases hb : q.balanced with
  | true =>
    have ht := gr.1 hb
    refine ⟨{ q with node := .node n l q.node, balanced := true }, ?_, rfl, ?_, ?_⟩
    · simp [growRight]
    · simp only [balanced_node, ht]
      exact ⟨fac, bl, bq⟩
    · simp [Grown, ht]
  | false =>
    obtain ⟨ht, tilt⟩ := gr.2 hb
    exact growRight_balanced r.height rfl rfl bl bq fac ht fun _ => tilt

lemma balanced_leaf (data : D) : Balanced (.node (avlData data) .nil .nil) := by
  simp [avlData, AVL_BALANCED]

section Insert

variable {compare : D → D → Int} {destroy avlOk nodeOk : Bool} {data : D} {size : Int}
  {balanced : Bool} {n : AvlNode D} {l r t : BiTreeNode (AvlNode D)}

/-- `insert` at a node without a left subtree, for a smaller key. -/
lemma insert_lt_nil (lt : compare data n.data < 0) :
    insert compare destroy avlOk nodeOk data size balanced (.node n .nil r) =
      if avlOk && nodeOk then
        growLeft ⟨0, .node n (.node (avlData data) .nil .nil) r, size + 1, false, []⟩
      else some ⟨-1, .node n .nil r, size, balanced, []⟩ := by
  cases avlOk <;> cases nodeOk <;> simp [insert, lt, insertLeaf, bitreeInsLeft, bitreeIsEob]

/-- `insert` at a node with a left subtree, for a smaller key. -/
lemma insert_lt (lt : compare data n.data < 0) (ne : l ≠ .nil) :
    insert compare destroy avlOk nodeOk data size balanced (.node n l r) =
      (insert compare destroy avlOk nodeOk data size balanced l).bind fun q =>
        if q.retval = 0 then growLeft { q with node := .node n q.node r }
        else some { q with node := .node n q.node r } := by
  cases l with
  | nil => exact absurd rfl ne
  | node n' ll lr =>
    rw [insert]
    simp only [lt, if_true, bitreeIsEob, Bool.false_eq_true, if_false]
    cases insert compare destroy avlOk nodeOk data size balanced (.node n' ll lr) with
    | none => rfl
    | some q => simp [ite_not]

/-- `insert` at a node without a right subtree, for a greater key. -/
lemma insert_gt_nil (gt : compare data n.data > 0) :
    insert compare destroy avlOk nodeOk data size balanced (.node n l .nil) =
      if avlOk && nodeOk then
        growRight ⟨0, .node n l (.node (avlData data) .nil .nil), size + 1, false, []⟩
      else some ⟨-1, .node n l .nil, size, balanced, []⟩ := by
  have nlt : ¬ compare data n.data < 0 := by omega
  cases avlOk <;> cases nodeOk <;> simp [insert, nlt, gt, insertLeaf, bitreeInsRight, bitreeIsEob]

/-- `insert` at a node with a right subtree, for a greater key. -/
lemma insert_gt (gt : compare data n.data > 0) (ne : r ≠ .nil) :
    insert compare destroy avlOk nodeOk data size balanced (.node n l r) =
      (insert compare destroy avlOk nodeOk data size balanced r).bind fun q =>
        if q.retval = 0 then growRight { q with node := .node n l q.node }
        else some { q with node := .node n l q.node } := by
  have nlt : ¬ compare data n.data < 0 := by omega
  cases r with
  | nil => exact absurd rfl ne
  | node n' rl rr =>
    rw [insert]
    simp only [nlt, gt, if_true, bitreeIsEob, Bool.false_eq_true, if_false]
    cases insert compare destroy avlOk nodeOk data size balanced (.node n' rl rr) with
    | none => rfl
    | some q => simp [ite_not]

/-- `insert` at the node of the key. -/
lemma insert_eq (eq : compare data n.data = 0) :
    insert compare destroy avlOk nodeOk data size balanced (.node n l r) =
      if n.hidden then
        some ⟨0, .node { n with data := data, hidden := false } l r, size, true,
          if destroy then [n.data] else []⟩
      else some ⟨1, .node n l r, size, balanced, []⟩ := by
  cases h : n.hidden <;> simp [insert, eq, h]

/-- An insertion below a node keeps the balance, by the contract of the flag. -/
lemma insert_balanced (ne : t ≠ .nil) (bt : Balanced t) :
    ∃ q, insert compare destroy avlOk nodeOk data size balanced t = some q ∧ Balanced q.node ∧
      (q.retval = 0 → Grown t.height q) ∧ (q.retval ≠ 0 → q.node = t) := by
  induction t with
  | nil => exact absurd rfl ne
  | node n l r ihl ihr =>
    obtain ⟨fac, bl, br⟩ := balanced_node.mp bt
    obtain lt | eq | gt := lt_trichotomy (compare data n.data) 0
    · by_cases nl : l = .nil
      · subst nl
        rw [insert_lt_nil lt]
        split
        · obtain ⟨q, e, ret, bq, gr⟩ := growLeft_balanced 0
            (q := ⟨0, .node n (.node (avlData data) .nil .nil) r, size + 1, false, []⟩) rfl rfl
            (balanced_leaf data) br fac rfl (fun one => by simp at fac; omega)
          exact ⟨q, e, bq, fun _ => gr, fun h => absurd ret h⟩
        · exact ⟨_, rfl, bt, nofun, fun _ => rfl⟩
      · obtain ⟨q₀, e₀, bq₀, gr₀, un₀⟩ := ihl nl bl
        rw [insert_lt lt nl, e₀, Option.bind_some]
        by_cases ret : q₀.retval = 0
        · rw [if_pos ret]
          obtain ⟨q, e, ret', bq, gr⟩ := growLeft_grown bt bq₀ (gr₀ ret)
          exact ⟨q, e, bq, fun _ => gr, fun h => absurd (ret'.trans ret) h⟩
        · rw [if_neg ret]
          have un := un₀ ret
          exact ⟨_, rfl, by rw [un]; exact bt, fun h => absurd h ret, fun _ => by rw [un]⟩
    · rw [insert_eq eq]
      split
      · refine ⟨_, rfl, ?_, fun _ => ?_, fun h => absurd rfl h⟩
        · simpa only [balanced_node] using ⟨fac, bl, br⟩
        · simp [Grown]
      · exact ⟨_, rfl, bt, nofun, fun _ => rfl⟩
    · by_cases nr : r = .nil
      · subst nr
        rw [insert_gt_nil gt]
        split
        · obtain ⟨q, e, ret, bq, gr⟩ := growRight_balanced 0
            (q := ⟨0, .node n l (.node (avlData data) .nil .nil), size + 1, false, []⟩) rfl rfl
            bl (balanced_leaf data) fac rfl (fun one => by simp at fac; omega)
          exact ⟨q, e, bq, fun _ => gr, fun h => absurd ret h⟩
        · exact ⟨_, rfl, bt, nofun, fun _ => rfl⟩
      · obtain ⟨q₀, e₀, bq₀, gr₀, un₀⟩ := ihr nr br
        rw [insert_gt gt nr, e₀, Option.bind_some]
        by_cases ret : q₀.retval = 0
        · rw [if_pos ret]
          obtain ⟨q, e, ret', bq, gr⟩ := growRight_grown bt bq₀ (gr₀ ret)
          exact ⟨q, e, bq, fun _ => gr, fun h => absurd (ret'.trans ret) h⟩
        · rw [if_neg ret]
          have un := un₀ ret
          exact ⟨_, rfl, by rw [un]; exact bt, fun h => absurd h ret, fun _ => by rw [un]⟩

/-- An insertion keeps the balance, at the root too. -/
lemma insert_total (bt : Balanced t) :
    ∃ q, insert compare destroy avlOk nodeOk data size balanced t = some q ∧ Balanced q.node := by
  cases t with
  | nil =>
    simp only [insert]
    cases avlOk with
    | false => exact ⟨_, rfl, trivial⟩
    | true =>
      refine ⟨_, rfl, ?_⟩
      simp only [bitreeInsLeft]
      split_ifs
      · trivial
      · exact balanced_leaf data
      · trivial
  | node n l r =>
    have ne : BinaryTree.node n l r ≠ .nil := nofun
    obtain ⟨q, e, bq, _⟩ := insert_balanced ne bt
    exact ⟨q, e, bq⟩

end Insert

lemma hide_height {compare : D → D → Int} {data} (t : BiTreeNode (AvlNode D)) :
    (hide compare data t).2.height = t.height := by
  induction t with
  | nil => rfl
  | node n l r ihl ihr =>
    simp only [hide]
    split_ifs <;> simp [ihl, ihr]

lemma hide_balanced {compare : D → D → Int} {data} {t : BiTreeNode (AvlNode D)} (bt : Balanced t) :
    Balanced (hide compare data t).2 := by
  induction t with
  | nil => exact bt
  | node n l r ihl ihr =>
    obtain ⟨fac, bl, br⟩ := balanced_node.mp bt
    simp only [hide]
    split_ifs with lt gt
    · simpa only [balanced_node, hide_height] using ⟨fac, ihl bl, br⟩
    · simpa only [balanced_node, hide_height] using ⟨fac, bl, ihr br⟩
    · exact balanced_node.mpr ⟨fac, bl, br⟩

end SweetClib.Avl
