import SweetClib.Avl.Balance

/-!
# Entries

What the operations do to the data and the hidden flags of a tree, listed from left to right
(`entries`). Rotations and factors do not show in the entries: `Inserts` says how an insertion goes
down the tree and what it leaves there (`inserts_of_insert`). In a sorted tree it is one of four
changes of a list (`InsSpec`): nothing for a visible duplicate or a failed allocation, new data in
the place of a hidden entry with an equal key, or a new entry at the place of the key.
-/

namespace SweetClib.Avl
open SweetClib.Lib

variable {D : Type*}

/-- The data and hidden flags of a tree from left to right. -/
def entries (t : BiTreeNode (AvlNode D)) : List (D × Bool) :=
  (inorder t).map fun n => (n.data, n.hidden)

/-- The keys are strictly increasing. -/
def Sorted (compare : D → D → Int) (es : List (D × Bool)) : Prop :=
  es.Pairwise fun x y => compare x.1 y.1 < 0

@[simp] lemma entries_nil : entries (.nil : BiTreeNode (AvlNode D)) = [] := rfl

@[simp] lemma entries_node {n : AvlNode D} {l r} :
    entries (.node n l r) = entries l ++ (n.data, n.hidden) :: entries r := by
  simp [entries, inorder]

lemma length_entries (t : BiTreeNode (AvlNode D)) : (entries t).length = t.numNodes := by
  rw [entries, List.length_map, length_inorder]

/-- Rotations to the left keep the entries. -/
lemma rotateLeft_entries {t t' : BiTreeNode (AvlNode D)} (e : rotateLeft t = some t') :
    entries t' = entries t := by
  match t, e with
  | .node n (.node left ll lr) r, e =>
    simp only [rotateLeft] at e
    split at e
    · cases e
      simp
    · cases lr with
      | nil => cases e
      | node g gl gr =>
        cases e
        simp

/-- Rotations to the right keep the entries. -/
lemma rotateRight_entries {t t' : BiTreeNode (AvlNode D)} (e : rotateRight t = some t') :
    entries t' = entries t := by
  match t, e with
  | .node n l (.node right rl rr), e =>
    simp only [rotateRight] at e
    split at e
    · cases e
      simp
    · cases rl with
      | nil => cases e
      | node g gl gr =>
        cases e
        simp

/-- Rebalancing changes neither the entries nor the other results. -/
lemma growLeft_entries {q q' : InsRes D} (e : growLeft q = some q') :
    entries q'.node = entries q.node ∧ q'.retval = q.retval ∧ q'.size = q.size ∧
      q'.destroyed = q.destroyed := by
  unfold growLeft at e
  split at e
  · cases e
    exact ⟨rfl, rfl, rfl, rfl⟩
  · cases hn : q.node with
    | nil => simp [hn] at e
    | node n l r =>
      simp only [hn] at e
      split at e
      · cases hr : rotateLeft (.node n l r) with
        | none => simp [hr] at e
        | some t =>
          simp only [hr, Option.some.injEq] at e
          subst e
          exact ⟨rotateLeft_entries hr, rfl, rfl, rfl⟩
      · split at e
        · cases e
          exact ⟨by simp, rfl, rfl, rfl⟩
        · split at e
          · cases e
            exact ⟨by simp, rfl, rfl, rfl⟩
          · cases e
            exact ⟨by rw [hn], rfl, rfl, rfl⟩

/-- Rebalancing changes neither the entries nor the other results. -/
lemma growRight_entries {q q' : InsRes D} (e : growRight q = some q') :
    entries q'.node = entries q.node ∧ q'.retval = q.retval ∧ q'.size = q.size ∧
      q'.destroyed = q.destroyed := by
  unfold growRight at e
  split at e
  · cases e
    exact ⟨rfl, rfl, rfl, rfl⟩
  · cases hn : q.node with
    | nil => simp [hn] at e
    | node n l r =>
      simp only [hn] at e
      split at e
      · cases e
        exact ⟨by simp, rfl, rfl, rfl⟩
      · split at e
        · cases e
          exact ⟨by simp, rfl, rfl, rfl⟩
        · split at e
          · cases hr : rotateRight (.node n l r) with
            | none => simp [hr] at e
            | some t =>
              simp only [hr, Option.some.injEq] at e
              subst e
              exact ⟨rotateRight_entries hr, rfl, rfl, rfl⟩
          · cases e
            exact ⟨by rw [hn], rfl, rfl, rfl⟩

/-- What an insertion of `d` does to the entries, with its return value. -/
inductive InsSpec (compare : D → D → Int) (ok : Bool) (d : D) :
    List (D × Bool) → Int → List (D × Bool) → Prop where
  | dup {l₁ e l₂} :
    compare d e = 0 →
    InsSpec compare ok d (l₁ ++ (e, false) :: l₂) 1 (l₁ ++ (e, false) :: l₂)
  | revive {l₁ e l₂} :
    compare d e = 0 →
    InsSpec compare ok d (l₁ ++ (e, true) :: l₂) 0 (l₁ ++ (d, false) :: l₂)
  | fresh {l₁ l₂} :
    ok = true →
    (∀ x ∈ l₁, compare d x.1 > 0) → (∀ x ∈ l₂, compare d x.1 < 0) →
    InsSpec compare ok d (l₁ ++ l₂) 0 (l₁ ++ (d, false) :: l₂)
  | fail {es} :
    ok = false →
    (∀ x ∈ es, compare d x.1 ≠ 0) →
    InsSpec compare ok d es (-1) es

section InsSpec

variable {compare : D → D → Int} {ok : Bool} {d : D} {es es' : List (D × Bool)} {ret : Int}

/-- An insertion into the part of smaller keys. -/
lemma InsSpec.append_right (sp : InsSpec compare ok d es ret es') {ys : List (D × Bool)}
    (lt : ∀ x ∈ ys, compare d x.1 < 0) : InsSpec compare ok d (es ++ ys) ret (es' ++ ys) := by
  cases sp with
  | dup eq => simpa using InsSpec.dup eq
  | revive eq => simpa using InsSpec.revive eq
  | @fresh l₁ l₂ hok gt₁ lt₂ =>
    have lt' : ∀ x ∈ l₂ ++ ys, compare d x.1 < 0 := by
      intro x mem
      obtain mem | mem := List.mem_append.mp mem
      · exact lt₂ x mem
      · exact lt x mem
    simpa using InsSpec.fresh hok gt₁ lt'
  | fail hok ne =>
    refine .fail hok fun x mem => ?_
    obtain mem | mem := List.mem_append.mp mem
    · exact ne x mem
    · have := lt x mem
      omega

/-- An insertion into the part of greater keys. -/
lemma InsSpec.append_left (sp : InsSpec compare ok d es ret es') {ys : List (D × Bool)}
    (gt : ∀ x ∈ ys, compare d x.1 > 0) : InsSpec compare ok d (ys ++ es) ret (ys ++ es') := by
  cases sp with
  | dup eq =>
    simp only [← List.append_assoc]
    exact .dup eq
  | revive eq =>
    simp only [← List.append_assoc]
    exact .revive eq
  | @fresh l₁ l₂ hok gt₁ lt₂ =>
    have gt' : ∀ x ∈ ys ++ l₁, compare d x.1 > 0 := by
      intro x mem
      obtain mem | mem := List.mem_append.mp mem
      · exact gt x mem
      · exact gt₁ x mem
    simpa using InsSpec.fresh hok gt' lt₂
  | fail hok ne =>
    refine .fail hok fun x mem => ?_
    obtain mem | mem := List.mem_append.mp mem
    · have := gt x mem
      omega
    · exact ne x mem

/-- An insertion keeps the order of the keys. -/
lemma InsSpec.sorted (ord : TotalPreorder compare) (sp : InsSpec compare ok d es ret es')
    (so : Sorted compare es) : Sorted compare es' := by
  cases sp with
  | dup _ => exact so
  | revive eq =>
    -- the new data compare like the old
    unfold Sorted at so ⊢
    rw [List.pairwise_append, List.pairwise_cons] at so ⊢
    obtain ⟨so₁, ⟨so₂, so₃⟩, so₄⟩ := so
    refine ⟨so₁, ⟨fun x mem => ?_, so₃⟩, fun x mem y memy => ?_⟩
    · exact ord.lt_of_le_of_lt (by simp only; omega) (so₂ x mem)
    · obtain rfl | memy := List.mem_cons.mp memy
      · have eq' := ord.eq_symm eq
        exact ord.lt_of_lt_of_le (so₄ x mem _ List.mem_cons_self) (by simp only; omega)
      · exact so₄ x mem y (List.mem_cons_of_mem _ memy)
  | fresh _ gt₁ lt₂ =>
    unfold Sorted at so ⊢
    rw [List.pairwise_append] at so
    obtain ⟨so₁, so₂, so₃⟩ := so
    rw [List.pairwise_append, List.pairwise_cons]
    refine ⟨so₁, ⟨lt₂, so₂⟩, fun x mem y memy => ?_⟩
    obtain rfl | memy := List.mem_cons.mp memy
    · exact (ord.swap _ _).mpr (gt₁ x mem)
    · exact so₃ x mem y memy
  | fail _ _ => exact so

end InsSpec

section Insert

variable {compare : D → D → Int} {destroy avlOk nodeOk ok : Bool} {data : D} {size : Int}
  {balanced : Bool} {t : BiTreeNode (AvlNode D)} {q : InsRes D}

/-- The keys on the two sides of a node. -/
lemma Sorted.node {n : AvlNode D} {l r} (so : Sorted compare (entries (.node n l r))) :
    Sorted compare (entries l) ∧ Sorted compare (entries r) ∧
      (∀ x ∈ entries l, compare x.1 n.data < 0) ∧ ∀ x ∈ entries r, compare n.data x.1 < 0 := by
  unfold Sorted at so ⊢
  rw [entries_node, List.pairwise_append, List.pairwise_cons] at so
  exact ⟨so.1, so.2.1.2, fun x mem => so.2.2 x mem _ List.mem_cons_self, so.2.1.1⟩

/-- The way of an insertion down the tree to an empty place or to the node of the key: its return
value, the entries and the size it leaves, and the data it destroys. -/
inductive Inserts (compare : D → D → Int) (destroy ok : Bool) (d : D) (size : Int) :
    BiTreeNode (AvlNode D) → Int → List (D × Bool) → Int → List D → Prop where
  | leaf :
    ok = true →
    Inserts compare destroy ok d size .nil 0 [(d, false)] (size + 1) []
  | fail :
    ok = false →
    Inserts compare destroy ok d size .nil (-1) [] size []
  | left {n l r ret es size' ds} :
    compare d n.data < 0 →
    Inserts compare destroy ok d size l ret es size' ds →
    Inserts compare destroy ok d size (.node n l r) ret (es ++ (n.data, n.hidden) :: entries r)
      size' ds
  | right {n l r ret es size' ds} :
    compare d n.data > 0 →
    Inserts compare destroy ok d size r ret es size' ds →
    Inserts compare destroy ok d size (.node n l r) ret (entries l ++ (n.data, n.hidden) :: es)
      size' ds
  | revive {n l r} :
    compare d n.data = 0 → n.hidden = true →
    Inserts compare destroy ok d size (.node n l r) 0 (entries l ++ (d, false) :: entries r) size
      (if destroy then [n.data] else [])
  | dup {n l r} :
    compare d n.data = 0 → n.hidden = false →
    Inserts compare destroy ok d size (.node n l r) 1 (entries (.node n l r)) size []

/-- Rebalancing after an insertion into the left subtree is not seen in the entries. -/
lemma Inserts.growLeft (q₀ : InsRes D) {n : AvlNode D} {l r} (lt : compare data n.data < 0)
    (below : Inserts compare destroy ok data size l q₀.retval
      (entries q₀.node) q₀.size q₀.destroyed)
    (e : Avl.growLeft { q₀ with node := .node n q₀.node r } = some q) :
    Inserts compare destroy ok data size (.node n l r) q.retval
        (entries q.node) q.size q.destroyed := by
  obtain ⟨ee, er, es, ed⟩ := growLeft_entries e
  rw [ee, er, es, ed, entries_node]
  exact .left lt below

/-- Rebalancing after an insertion into the right subtree is not seen in the entries. -/
lemma Inserts.growRight (q₀ : InsRes D) {n : AvlNode D} {l r} (gt : compare data n.data > 0)
    (below : Inserts compare destroy ok data size r q₀.retval
      (entries q₀.node) q₀.size q₀.destroyed)
    (e : Avl.growRight { q₀ with node := .node n l q₀.node } = some q) :
    Inserts compare destroy ok data size (.node n l r) q.retval
        (entries q.node) q.size q.destroyed := by
  obtain ⟨ee, er, es, ed⟩ := growRight_entries e
  rw [ee, er, es, ed, entries_node]
  exact .right gt below

lemma inserts_of_insert (root : t = .nil → size ≤ 0)
    (e : insert compare destroy avlOk nodeOk data size balanced t = some q) :
    Inserts compare destroy (avlOk && nodeOk) data size t q.retval
      (entries q.node) q.size q.destroyed := by
  induction t generalizing q with
  | nil =>
    have le : ¬ size > 0 := by have := root rfl; omega
    cases avlOk <;> cases nodeOk <;>
      simp only [insert, bitreeInsLeft, le, if_true, if_false, Bool.false_eq_true,
        Option.some.injEq] at e <;> subst e
    · exact .fail rfl
    · exact .fail rfl
    · exact .fail rfl
    · exact .leaf rfl
  | node n l r ihl ihr =>
    obtain lt | eq | gt := lt_trichotomy (compare data n.data) 0
    · by_cases nl : l = .nil
      · subst nl
        rw [insert_lt_nil lt] at e
        split at e
        · rename_i ok
          exact Inserts.growLeft ⟨0, .node (avlData data) .nil .nil, size + 1, false, []⟩ lt
            (.leaf ok) e
        · rename_i ok
          cases e
          exact .left lt (.fail (Bool.eq_false_iff.mpr ok))
      · rw [insert_lt lt nl] at e
        obtain ⟨q₀, e₀, e⟩ := Option.bind_eq_some_iff.mp e
        have below := ihl (fun h => absurd h nl) e₀
        split at e
        · exact Inserts.growLeft q₀ lt below e
        · cases e
          simp only [entries_node]
          exact .left lt below
    · rw [insert_eq eq] at e
      split at e
      · rename_i hid
        cases e
        simp only [entries_node]
        exact .revive eq hid
      · rename_i hid
        cases e
        exact .dup eq (Bool.eq_false_iff.mpr hid)
    · by_cases nr : r = .nil
      · subst nr
        rw [insert_gt_nil gt] at e
        split at e
        · rename_i ok
          exact Inserts.growRight ⟨0, .node (avlData data) .nil .nil, size + 1, false, []⟩ gt
            (.leaf ok) e
        · rename_i ok
          cases e
          simp only [entries_node]
          exact .right gt (.fail (Bool.eq_false_iff.mpr ok))
      · rw [insert_gt gt nr] at e
        obtain ⟨q₀, e₀, e⟩ := Option.bind_eq_some_iff.mp e
        have below := ihr (fun h => absurd h nr) e₀
        split at e
        · exact Inserts.growRight q₀ gt below e
        · cases e
          simp only [entries_node]
          exact .right gt below

lemma Inserts.count {ret size' : Int} {es : List (D × Bool)} {ds : List D}
    (ins : Inserts compare destroy ok data size t ret es size' ds) :
    size' + (entries t).length = size + es.length := by
  induction ins with
  | leaf => simp
  | fail => rfl
  | left _ _ ih =>
    simp only [entries_node, List.length_append, List.length_cons]
    omega
  | right _ _ ih =>
    simp only [entries_node, List.length_append, List.length_cons]
    omega
  | revive => simp
  | dup => rfl

/-- An insertion into a sorted tree does to the entries what `InsSpec` says. -/
lemma Inserts.spec {ret size' : Int} {es : List (D × Bool)} {ds : List D}
    (ord : TotalPreorder compare) (ins : Inserts compare destroy ok data size t ret es size' ds)
    (so : Sorted compare (entries t)) : InsSpec compare ok data (entries t) ret es := by
  induction ins with
  | leaf ok =>
    have fresh : InsSpec compare _ data ([] ++ []) 0 ([] ++ (data, false) :: []) :=
      .fresh ok nofun nofun
    exact fresh
  | fail ok => exact .fail ok nofun
  | @left n l r ret es size' ds lt _ ih =>
    obtain ⟨sol, _, _, gtr⟩ := so.node
    -- everything from the node on is greater than the new key
    have right : ∀ x ∈ (n.data, n.hidden) :: entries r, compare data x.1 < 0 := by
      intro x mem
      obtain rfl | mem := List.mem_cons.mp mem
      · exact lt
      · exact ord.lt_of_le_of_lt (by omega) (gtr x mem)
    rw [entries_node]
    exact (ih sol).append_right right
  | @right n l r ret es size' ds gt _ ih =>
    obtain ⟨_, sor, ltl, _⟩ := so.node
    -- everything up to the node is smaller than the new key
    have left : ∀ x ∈ entries l ++ [(n.data, n.hidden)], compare data x.1 > 0 := by
      intro x mem
      obtain mem | mem := List.mem_append.mp mem
      · have nd := (ord.swap n.data data).mpr gt
        exact (ord.swap x.1 data).mp (ord.lt_of_le_of_lt (ltl x mem).le nd)
      · cases List.mem_singleton.mp mem
        exact gt
    have sp := (ih sor).append_left left
    rw [List.append_assoc, List.append_assoc, List.singleton_append, List.singleton_append] at sp
    rw [entries_node]
    exact sp
  | revive eq hid =>
    rw [entries_node, hid]
    exact .revive eq
  | dup eq hid =>
    rw [entries_node, hid]
    exact .dup eq

/-- An insertion does to the entries what `InsSpec` says, and counts the nodes. -/
lemma insert_entries (ord : TotalPreorder compare) (so : Sorted compare (entries t))
    (root : t = .nil → size ≤ 0)
    (e : insert compare destroy avlOk nodeOk data size balanced t = some q) :
    InsSpec compare (avlOk && nodeOk) data (entries t) q.retval (entries q.node) ∧
      q.size + (entries t).length = size + (entries q.node).length := by
  have ins := inserts_of_insert root e
  exact ⟨ins.spec ord so, ins.count⟩

end Insert

/-- Hiding marks the entry with an equal key, if there is one, and otherwise changes nothing. -/
lemma hide_entries {compare : D → D → Int} (ord : TotalPreorder compare) {d : D}
    {t : BiTreeNode (AvlNode D)} (so : Sorted compare (entries t)) :
    (∃ l₁ e b l₂, entries t = l₁ ++ (e, b) :: l₂ ∧ compare d e = 0 ∧ (hide compare d t).1 = 0 ∧
      entries (hide compare d t).2 = l₁ ++ (e, true) :: l₂) ∨
    ((∀ x ∈ entries t, compare d x.1 ≠ 0) ∧ (hide compare d t).1 = -1 ∧
      (hide compare d t).2 = t) := by
  induction t with
  | nil => exact .inr ⟨nofun, rfl, rfl⟩
  | node n l r ihl ihr =>
    obtain ⟨sol, sor, ltl, gtr⟩ := so.node
    obtain lt | eq | gt := lt_trichotomy (compare d n.data) 0
    · simp only [hide, lt, if_true, entries_node]
      obtain ⟨l₁, e, b, l₂, spl, eq, ret, ent⟩ | ⟨ne, ret, un⟩ := ihl sol
      · exact .inl ⟨l₁, e, b, l₂ ++ (n.data, n.hidden) :: entries r, by simp [spl], eq, ret,
          by simp [ent]⟩
      · refine .inr ⟨fun x mem => ?_, ret, by rw [un]⟩
        simp only [List.mem_append, List.mem_cons] at mem
        obtain mem | rfl | mem := mem
        · exact ne x mem
        · simp only
          omega
        · have := ord.lt_of_le_of_lt lt.le (gtr x mem)
          omega
    · have h₁ : ¬ compare d n.data < 0 := by omega
      have h₂ : ¬ compare d n.data > 0 := by omega
      simp only [hide, h₁, h₂, if_false, entries_node]
      exact .inl ⟨entries l, n.data, n.hidden, entries r, rfl, eq, trivial, rfl⟩
    · have h₁ : ¬ compare d n.data < 0 := by omega
      simp only [hide, h₁, gt, if_true, if_false, entries_node]
      obtain ⟨l₁, e, b, l₂, spl, eq, ret, ent⟩ | ⟨ne, ret, un⟩ := ihr sor
      · exact .inl ⟨entries l ++ (n.data, n.hidden) :: l₁, e, b, l₂, by simp [spl], eq, ret,
          by simp [ent]⟩
      · refine .inr ⟨fun x mem => ?_, ret, by rw [un]⟩
        simp only [List.mem_append, List.mem_cons] at mem
        obtain mem | rfl | mem := mem
        · have nd := (ord.swap n.data d).mpr gt
          have := (ord.swap x.1 d).mp (ord.lt_of_le_of_lt (ltl x mem).le nd)
          omega
        · simp only
          omega
        · exact ne x mem

/-- Hiding keeps the number of the entries. -/
lemma hide_length {compare : D → D → Int} {d : D} (t : BiTreeNode (AvlNode D)) :
    (entries (hide compare d t).2).length = (entries t).length := by
  induction t with
  | nil => rfl
  | node n l r ihl ihr =>
    simp only [hide]
    split_ifs <;> simp [entries_node, ihl, ihr]

/-- Hiding keeps the order of the keys. -/
lemma hide_sorted {compare : D → D → Int} (ord : TotalPreorder compare) {d : D}
    {t : BiTreeNode (AvlNode D)} (so : Sorted compare (entries t)) :
    Sorted compare (entries (hide compare d t).2) := by
  obtain ⟨l₁, e, b, l₂, spl, _, _, ent⟩ | ⟨_, _, un⟩ := hide_entries ord (d := d) so
  · rw [ent]
    rw [spl] at so
    unfold Sorted at so ⊢
    simpa [List.pairwise_append] using so
  · rw [un]
    exact so

end SweetClib.Avl
