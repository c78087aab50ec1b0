import SweetClib.Avl.Run

/-!
# Ownership of the data

A tree owns the data it accepted: the data of its nodes, hidden or not (`owned`), are those
accepted so far that were not passed to `destroy` yet. An insertion balances this account at every
node it passes (`Inserts.owned`), hiding does not change it (`hide_owned`), and `destroyAt` pays it
out: its early exit at size 0 is taken only when nothing is left, because the size is at least the
number of nodes (`destroyAt_spec`). So over a whole run that ends with `bistree_destroy` the data
destroyed are the data accepted (`bistree_ownership`).
-/

namespace SweetClib.Avl
open SweetClib.Lib

variable {D : Type*}

/-- The data of the nodes. -/
def owned (t : BiTreeNode (AvlNode D)) : Multiset D :=
  (entries t).map Prod.fst

/-- The data a call accepts: those of an insertion that returns 0. -/
def accepted : TreeOp D × TreeAns D → Multiset D
  | (.insert data _ _, o) => if o.ret = 0 then {data} else 0
  | _ => 0

@[simp] lemma owned_nil : owned (.nil : BiTreeNode (AvlNode D)) = 0 := rfl

/-- The data of entries with one in the middle. -/
lemma data_append_cons (l₁ l₂ : List (D × Bool)) (e : D × Bool) :
    ((l₁ ++ e :: l₂).map Prod.fst : Multiset D) = l₁.map Prod.fst + {e.1} + l₂.map Prod.fst := by
  simp [add_assoc]

/-- What a node owns. -/
@[simp] lemma owned_node {n : AvlNode D} {l r} :
    owned (.node n l r) = owned l + {n.data} + owned r := by
  rw [owned, entries_node, data_append_cons]
  rfl

section Insert

variable {compare : D → D → Int} {avlOk nodeOk : Bool} {data : D} {size : Int} {balanced : Bool}
  {t : BiTreeNode (AvlNode D)} {q : InsRes D}

/-- An insertion accepts its data or not, and destroys what it displaces. -/
lemma Inserts.owned {ok : Bool} {ret size' : Int} {es : List (D × Bool)} {ds : List D}
    (ins : Inserts compare true ok data size t ret es size' ds) :
    (es.map Prod.fst + ds : Multiset D) = Avl.owned t + if ret = 0 then {data} else 0 := by
  induction ins with
  | leaf => simp
  | fail => simp
  | @left n l r ret es size' ds _ _ ih =>
    rw [data_append_cons, owned_node]
    calc (es.map Prod.fst : Multiset D) + {n.data} + Avl.owned r + ds
        = (es.map Prod.fst + ds) + ({n.data} + Avl.owned r) := by abel
      _ = Avl.owned l + {n.data} + Avl.owned r + if ret = 0 then {data} else 0 := by rw [ih]; abel
  | @right n l r ret es size' ds _ _ ih =>
    rw [data_append_cons, owned_node]
    calc Avl.owned l + {n.data} + (es.map Prod.fst : Multiset D) + ds
        = (es.map Prod.fst + ds) + (Avl.owned l + {n.data}) := by abel
      _ = Avl.owned l + {n.data} + Avl.owned r + if ret = 0 then {data} else 0 := by rw [ih]; abel
  | @revive n l r =>
    rw [data_append_cons, owned_node, if_pos rfl, if_pos rfl]
    show Avl.owned l + {data} + Avl.owned r + {n.data} = _
    abel
  | dup => simp [Avl.owned]

/-- An insertion accepts its data or not, and destroys what it displaces. -/
lemma insert_owned (e : insert compare true avlOk nodeOk data size balanced t = some q) :
    owned q.node + q.destroyed = owned t + if q.retval = 0 then {data} else 0 := by
  by_cases root : t = .nil → size ≤ 0
  · exact (inserts_of_insert root e).owned
  · -- an empty tree whose size is not 0 is left alone
    obtain ⟨rfl, pos⟩ := Classical.not_imp.mp root
    cases avlOk <;>
      simp only [insert, bitreeInsLeft, if_pos (not_le.mp pos), if_true, if_false,
        Bool.false_eq_true, Option.some.injEq] at e <;> subst e <;> simp

end Insert

/-- A node that is hidden keeps its data. -/
lemma hide_owned {compare : D → D → Int} {data : D} (t : BiTreeNode (AvlNode D)) :
    owned (hide compare data t).2 = owned t := by
  induction t with
  | nil => rfl
  | node n l r ihl ihr =>
    simp only [hide]
    split_ifs
    · simp [ihl]
    · simp [ihr]
    · simp

/-- With a size that covers the nodes, everything is destroyed and the size goes down by their
number. -/
lemma destroyAt_spec (t : BiTreeNode (AvlNode D)) {size : Int} (cover : (t.numNodes : Int) ≤ size) :
    ∃ destroyed, destroyAt true size t = (size - t.numNodes, .nil, destroyed) ∧
      (destroyed : Multiset D) = owned t := by
  induction t generalizing size with
  | nil => exact ⟨[], by simp [destroyAt, BinaryTree.numNodes], rfl⟩
  | node n l r ihl ihr =>
    rw [BinaryTree.numNodes] at cover ⊢
    push_cast at cover ⊢
    -- after the left subtree the size still covers the right one and the node
    have coverl : (l.numNodes : Int) ≤ size := by omega
    have coverr : (r.numNodes : Int) ≤ size - l.numNodes := by omega
    obtain ⟨dl, el, ol⟩ := ihl coverl
    obtain ⟨dr, er, or⟩ := ihr coverr
    have busy : size ≠ 0 := by omega
    refine ⟨dl ++ dr ++ [n.data], ?_, ?_⟩
    · simp only [destroyAt, if_neg busy, el, er, if_true, Prod.mk.injEq, and_true]
      omega
    · rw [owned_node, ← Multiset.coe_add, ← Multiset.coe_add, ol, or, Multiset.coe_singleton]
      abel

/-- What a tree with a `destroy` callback holds. -/
structure Owns (compare : D → D → Int) (tree : BisTree D) (m : Multiset D) : Prop where
  inv : TreeInv compare tree
  destroy : tree.destroy = true
  owned : owned tree.root = m

/-- A call hands out what it destroys and takes in what it accepts. -/
lemma Owns.step {compare : D → D → Int} (ord : TotalPreorder compare) {tree tree' : BisTree D}
    {m : Multiset D} {a : TreeOp D × TreeAns D} (own : Owns compare tree m)
    (st : Answers treeStep tree a tree') :
    ∃ m', Owns compare tree' m' ∧ m' + a.2.destroyed = m + accepted a := by
  have inv' := own.inv.of_step ord st
  obtain ⟨op, o⟩ := a
  cases op with
  | insert data avlOk nodeOk =>
    obtain ⟨r, e, h⟩ := Option.map_eq_some_iff.mp st
    simp only [bistreeInsert, own.destroy] at e
    split at e
    · cases e
    next q eq =>
      cases e
      cases h
      refine ⟨_, ⟨inv', rfl, rfl⟩, ?_⟩
      rw [← own.owned]
      exact insert_owned eq
  | remove data =>
    cases st
    refine ⟨m, ⟨inv', own.destroy, ?_⟩, rfl⟩
    rw [← own.owned]
    exact hide_owned tree.root
  | lookup data =>
    cases st
    exact ⟨m, own, rfl⟩

/-- The callback gets everything the tree owns. -/
lemma Owns.bistreeDestroy {compare : D → D → Int} {tree : BisTree D} {m : Multiset D}
    (own : Owns compare tree m) :
    (bistreeDestroy tree).1.size = 0 ∧ (bistreeDestroy tree).1.root = .nil ∧
      (bistreeDestroy tree).2 = m := by
  have size : tree.size = tree.root.numNodes := by rw [own.inv.size, length_entries]
  obtain ⟨destroyed, e, all⟩ := destroyAt_spec tree.root size.ge
  simp only [Avl.bistreeDestroy, own.destroy, e]
  exact ⟨by omega, trivial, all.trans own.owned⟩

/-- Every sequence of calls on a tree with a `destroy` callback is answered, whatever allocations
fail; and when `bistree_destroy` ends the run, the data passed to `destroy` from the beginning on
are, as a multiset, the data of the insertions that returned 0, and the tree is left with size 0
and no nodes. -/
theorem bistree_ownership (compare : D → D → Int) (ord : TotalPreorder compare) :
    (∀ ops, ∃ tr tree, Run (Answers treeStep) (bistreeInit compare true) tr tree ∧
      inputs tr = ops) ∧
    ∀ tr tree, Run (Answers treeStep) (bistreeInit compare true) tr tree →
      (bistreeDestroy tree).2 + (tr.map fun a => (a.2.destroyed : Multiset D)).sum =
        (tr.map accepted).sum ∧
      (bistreeDestroy tree).1.size = 0 ∧ (bistreeDestroy tree).1.root = .nil := by
  refine ⟨tree_inputs ord true, fun tr tree run => ?_⟩
  obtain ⟨m, own, total⟩ := run.conserve (Owns compare) accepted (fun a => a.2.destroyed)
    ⟨.init compare true, rfl, rfl⟩ fun s a s' m own st => own.step ord st
  obtain ⟨size, root, rest⟩ := own.bistreeDestroy
  exact ⟨by rw [rest, total], size, root⟩

/-- A hidden key is revived, another stays hidden to the end, and a duplicate is refused. -/
theorem bistree_ownership_revived : ∃ tree : BisTree (Int × Nat),
    Run (Answers treeStep) (bistreeInit (fun a b => a.1 - b.1) true)
      [(.remove (2, 0), ⟨0, (2, 0), []⟩), (.insert (1, 4) true true, ⟨1, (1, 4), []⟩),
        (.insert (1, 3) true true, ⟨0, (1, 3), [(1, 1)]⟩), (.remove (1, 0), ⟨0, (1, 0), []⟩),
        (.insert (2, 2) true true, ⟨0, (2, 2), []⟩),
        (.insert (1, 1) true true, ⟨0, (1, 1), []⟩)] tree ∧
    ((bistreeDestroy tree).2 : Multiset (Int × Nat)) + {(1, 1)} = {(1, 3), (2, 2), (1, 1)} ∧
    (bistreeDestroy tree).1.size = 0 := by
  have ord : TotalPreorder fun a b : Int × Nat => a.1 - b.1 :=
    ⟨fun a b => by omega, fun a b c => by omega⟩
  have run : Run (Answers treeStep) (bistreeInit (fun a b : Int × Nat => a.1 - b.1) true)
      [(.remove (2, 0), ⟨0, (2, 0), []⟩), (.insert (1, 4) true true, ⟨1, (1, 4), []⟩),
        (.insert (1, 3) true true, ⟨0, (1, 3), [(1, 1)]⟩), (.remove (1, 0), ⟨0, (1, 0), []⟩),
        (.insert (2, 2) true true, ⟨0, (2, 2), []⟩),
            (.insert (1, 1) true true, ⟨0, (1, 1), []⟩)] _ :=
    .cons (.cons (.cons (.cons (.cons (.cons .nil rfl) rfl) rfl) rfl) rfl) rfl
  obtain ⟨total, size, _⟩ := (bistree_ownership _ ord).2 _ _ run
  exact ⟨_, run, total, size⟩

end SweetClib.Avl
