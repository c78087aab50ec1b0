import SweetClib.Avl.Run

/-!
# The tree as a map

The entries of a tree give every key at most one slot (`slot`), and the tree holds the data of the
slot unless the entry is hidden (`held`). Lookups answer what is held (`lookup_held`), insertions
and removals change what is held for the keys that compare equal to theirs only, and what is held
after a run is what its history says (`live`).
-/

namespace SweetClib.Avl
open SweetClib.Lib

variable {D : Type*}

/-- The first entry with a key equal to `k`. -/
def slot (compare : D → D → Int) (es : List (D × Bool)) (k : D) : Option (D × Bool) :=
  es.find? fun e => compare k e.1 = 0

/-- The data held for `k`: hidden entries hold nothing. -/
def held (compare : D → D → Int) (es : List (D × Bool)) (k : D) : Option D :=
  match slot compare es k with
  | some (d, false) => some d
  | _ => none

/-- The data that a history, newest call first, leaves for `k`: that of the last successful
insertion of an equal key, unless an equal key was removed after it. -/
def live (compare : D → D → Int) (k : D) : List (TreeOp D × TreeAns D) → Option D
  | [] => none
  | (.insert d _ _, ans) :: tr =>
    if ans.ret = 0 ∧ compare k d = 0 then some d else live compare k tr
  | (.remove d, _) :: tr => if compare k d = 0 then none else live compare k tr
  | (.lookup _, _) :: tr => live compare k tr

section slot

variable {compare : D → D → Int} {es es' l₁ l₂ : List (D × Bool)} {k d e : D} {b : Bool}

lemma slot_none (ne : ∀ x ∈ es, compare k x.1 ≠ 0) : slot compare es k = none := by
  simpa [slot, List.find?_eq_none] using ne

/-- An entry with a different key does not matter. -/
lemma slot_middle_ne (ne : compare k e ≠ 0) :
    slot compare (l₁ ++ (e, b) :: l₂) k = slot compare (l₁ ++ l₂) k := by
  simp [slot, List.find?_append, ne]

/-- In a sorted list the entry with an equal key is the slot. -/
lemma slot_middle_eq (ord : TotalPreorder compare) (so : Sorted compare (l₁ ++ (e, b) :: l₂))
    (eq : compare k e = 0) : slot compare (l₁ ++ (e, b) :: l₂) k = some (e, b) := by
  have before : slot compare l₁ k = none := by
    refine slot_none fun x mem => ?_
    have lt : compare x.1 e < 0 := (List.pairwise_append.mp so).2.2 x mem (e, b) (by simp)
    have := (ord.swap x.1 k).mp (ord.lt_of_lt_of_le lt (ord.eq_symm eq).le)
    omega
  simp only [slot] at before ⊢
  simp [List.find?_append, before, eq]

/-- A key that compares less than an entry is not held behind it. -/
lemma slot_append_lt (ord : TotalPreorder compare) (so : Sorted compare (l₁ ++ (e, b) :: l₂))
    (lt : compare k e < 0) : slot compare (l₁ ++ (e, b) :: l₂) k = slot compare l₁ k := by
  have behind : slot compare l₂ k = none := by
    refine slot_none fun x mem => ?_
    have so₂ := (List.pairwise_append.mp so).2.1
    have := ord.lt_of_le_of_lt lt.le ((List.pairwise_cons.mp so₂).1 x mem)
    omega
  rw [slot_middle_ne lt.ne]
  simp only [slot] at behind ⊢
  simp [List.find?_append, behind]

/-- A key that compares greater than an entry is not held before it. -/
lemma slot_append_gt (ord : TotalPreorder compare) (so : Sorted compare (l₁ ++ (e, b) :: l₂))
    (gt : compare k e > 0) : slot compare (l₁ ++ (e, b) :: l₂) k = slot compare l₂ k := by
  have before : slot compare l₁ k = none := by
    refine slot_none fun x mem => ?_
    have lt : compare x.1 e < 0 := (List.pairwise_append.mp so).2.2 x mem (e, b) (by simp)
    have := (ord.swap x.1 k).mp (ord.lt_of_le_of_lt lt.le ((ord.swap e k).mpr gt))
    omega
  rw [slot_middle_ne gt.ne']
  simp only [slot] at before ⊢
  simp [List.find?_append, before]

lemma InsSpec.held {ok : Bool} {ret : Int} (ord : TotalPreorder compare) (so : Sorted compare es)
    (sp : InsSpec compare ok d es ret es') (k : D) :
    held compare es' k = if ret = 0 ∧ compare k d = 0 then some d else held compare es k := by
  have so' := sp.sorted ord so
  cases sp with
  | dup _ => simp
  | @revive l₁ e l₂ eq =>
    by_cases hk : compare k d = 0
    · simp [Avl.held, slot_middle_eq ord so' hk, hk]
    · have ne : compare k e ≠ 0 := fun h => hk (ord.eq_trans h (ord.eq_symm eq))
      simp [Avl.held, slot_middle_ne hk, slot_middle_ne ne, hk]
  | fresh _ _ _ =>
    by_cases hk : compare k d = 0
    · simp [Avl.held, slot_middle_eq ord so' hk, hk]
    · simp [Avl.held, slot_middle_ne hk, hk]
  | fail _ _ => simp

/-- The return value of an insertion says whether something was held. -/
lemma InsSpec.ret_eq {ok : Bool} {ret : Int} (ord : TotalPreorder compare) (so : Sorted compare es)
    (hok : ok = true) (sp : InsSpec compare ok d es ret es') :
    ret = if (Avl.held compare es d).isSome then 1 else 0 := by
  cases sp with
  | dup eq => simp [Avl.held, slot_middle_eq ord so eq]
  | revive eq => simp [Avl.held, slot_middle_eq ord so eq]
  | @fresh l₁ l₂ _ gt lt =>
    have none : slot compare (l₁ ++ l₂) d = none := by
      refine slot_none fun x mem => ?_
      obtain mem | mem := List.mem_append.mp mem
      · exact (gt x mem).ne'
      · exact (lt x mem).ne
    simp [Avl.held, none]
  | fail f _ => simp [hok] at f

end slot

section tree

variable {compare : D → D → Int} {t : BiTreeNode (AvlNode D)}

lemma hide_held (ord : TotalPreorder compare) (so : Sorted compare (entries t)) (d k : D) :
    held compare (entries (hide compare d t).2) k =
      if compare k d = 0 then none else held compare (entries t) k := by
  have so' := hide_sorted ord (d := d) so
  obtain ⟨l₁, e, b, l₂, spl, eq, _, ent⟩ | ⟨ne, _, un⟩ := hide_entries ord (d := d) so
  · by_cases hk : compare k d = 0
    · have hke := ord.eq_trans hk eq
      rw [ent] at so' ⊢
      simp [held, slot_middle_eq ord so' hke, hk]
    · have hke : compare k e ≠ 0 := fun h => hk (ord.eq_trans h (ord.eq_symm eq))
      simp [held, ent, spl, slot_middle_ne hke, hk]
  · rw [un]
    split
    next hk =>
      have none : slot compare (entries t) k = none :=
        slot_none fun x mem h => ne x mem (ord.eq_trans (ord.eq_symm hk) h)
      simp [held, none]
    next => rfl

/-- A lookup walks to the slot of its key and answers what is held there. -/
lemma lookup_held (ord : TotalPreorder compare) (so : Sorted compare (entries t)) (k : D) :
    lookup compare k t = match held compare (entries t) k with
      | some d => (0, d)
      | none => (-1, k) := by
  induction t with
  | nil => rfl
  | node n l r ihl ihr =>
    obtain ⟨sol, sor, _, _⟩ := so.node
    rw [entries_node] at so ⊢
    obtain lt | eq | gt := lt_trichotomy (compare k n.data) 0
    · simp only [lookup, lt, if_true, held, slot_append_lt ord so lt]
      exact ihl sol
    · have h₁ : ¬ compare k n.data < 0 := by omega
      have h₂ : ¬ compare k n.data > 0 := by omega
      simp only [lookup, h₁, h₂, if_false, held, slot_middle_eq ord so eq]
      cases n.hidden <;> rfl
    · have h₁ : ¬ compare k n.data < 0 := by omega
      simp only [lookup, h₁, gt, if_true, if_false, held, slot_append_gt ord so gt]
      exact ihr sor

/-- What a call does to what is held: it concerns the keys equal to its own only. -/
lemma TreeInv.step_held (ord : TotalPreorder compare) {tree tree' : BisTree D} {op o}
    (inv : TreeInv compare tree) (st : treeStep tree op = some (o, tree')) (k : D) :
    held compare (entries tree'.root) k = match op with
      | .insert d _ _ =>
        if o.ret = 0 ∧ compare k d = 0 then some d else held compare (entries tree.root) k
      | .remove d => if compare k d = 0 then none else held compare (entries tree.root) k
      | .lookup _ => held compare (entries tree.root) k := by
  cases op with
  | insert d avlOk nodeOk =>
    obtain ⟨ret, tree1, destroyed, e, _, sp⟩ := inv.insert ord d avlOk nodeOk
    simp only [treeStep, e, Option.map_some, Option.some.injEq, Prod.mk.injEq] at st
    obtain ⟨rfl, rfl⟩ := st
    exact sp.held ord inv.sorted k
  | remove d =>
    simp only [treeStep, bistreeRemove, inv.cmp, Option.some.injEq, Prod.mk.injEq] at st
    obtain ⟨rfl, rfl⟩ := st
    exact hide_held ord inv.sorted d k
  | lookup d =>
    simp only [treeStep, Option.some.injEq, Prod.mk.injEq] at st
    obtain ⟨rfl, rfl⟩ := st
    rfl

/-- What is held after a run is what its history leaves. -/
lemma tree_run_held (ord : TotalPreorder compare) {destroy : Bool} {tr tree}
    (run : Run (Answers treeStep) (bistreeInit compare destroy) tr tree) (k : D) :
    held compare (entries tree.root) k = live compare k tr := by
  suffices main : TreeInv compare tree ∧
      ∀ k, held compare (entries tree.root) k = live compare k tr from main.2 k
  refine run.history (fun tr tree => TreeInv compare tree ∧
    ∀ k, held compare (entries tree.root) k = live compare k tr)
      ⟨.init compare destroy, fun _ => rfl⟩ ?_
  rintro tr tree ⟨op, o⟩ tree' ⟨inv, ih⟩ st
  refine ⟨inv.of_step ord st, fun k => ?_⟩
  rw [inv.step_held ord st]
  cases op <;> simp only [live, ih]

/-- The answer of a lookup, from what is held. -/
lemma TreeInv.lookup (ord : TotalPreorder compare) {tree : BisTree D} (inv : TreeInv compare tree)
    (k : D) : bistreeLookup tree k = match held compare (entries tree.root) k with
      | some d => (0, d)
      | none => (-1, k) := by
  rw [bistreeLookup, inv.cmp, lookup_held ord inv.sorted]

/-- A call leaves the answers for keys different from its own alone. -/
lemma TreeInv.step_frame (ord : TotalPreorder compare) {tree tree' : BisTree D} {op o}
    (inv : TreeInv compare tree) (st : treeStep tree op = some (o, tree')) {k : D}
    (ne : compare k op.key ≠ 0) : bistreeLookup tree' k = bistreeLookup tree k := by
  have same : held compare (entries tree'.root) k = held compare (entries tree.root) k := by
    rw [inv.step_held ord st]
    cases op with
    | insert d avlOk nodeOk => exact if_neg fun h => ne h.2
    | remove d => exact if_neg ne
    | lookup d => rfl
  rw [inv.lookup ord, (inv.of_step ord st).lookup ord, same]

/-- An insertion whose allocations succeed is refused exactly when a lookup would succeed. -/
lemma TreeInv.insert_ret (ord : TotalPreorder compare) {tree : BisTree D}
    (inv : TreeInv compare tree) (d : D) : ∃ tree' destroyed, bistreeInsert tree d true true =
      some (if (bistreeLookup tree d).1 = 0 then 1 else 0, tree', destroyed) := by
  obtain ⟨ret, tree', destroyed, e, _, sp⟩ := inv.insert ord d true true
  refine ⟨tree', destroyed, ?_⟩
  rw [e, sp.ret_eq ord inv.sorted rfl, inv.lookup ord]
  cases held compare (entries tree.root) d <;> rfl

end tree

/-- Every sequence of calls is answered, and after every run: a lookup answers what the history
leaves for its key, an insertion whose allocations succeed returns 1 exactly when a lookup of its
key would succeed and 0 otherwise, and no call changes the lookup of a key different from its
own. -/
theorem bistree_refines_map (compare : D → D → Int) (ord : TotalPreorder compare) (destroy : Bool) :
    (∀ ops, ∃ tr tree, Run (Answers treeStep) (bistreeInit compare destroy) tr tree ∧
      inputs tr = ops) ∧
    ∀ tr tree, Run (Answers treeStep) (bistreeInit compare destroy) tr tree →
      (∀ k, bistreeLookup tree k = match live compare k tr with
        | some d => (0, d)
        | none => (-1, k)) ∧
      (∀ d, ∃ tree' destroyed, bistreeInsert tree d true true =
        some (if (bistreeLookup tree d).1 = 0 then 1 else 0, tree', destroyed)) ∧
      ∀ op o tree' k, treeStep tree op = some (o, tree') → compare k op.key ≠ 0 →
        bistreeLookup tree' k = bistreeLookup tree k := by
  refine ⟨tree_inputs ord destroy, fun tr tree run => ?_⟩
  have inv := TreeInv.run ord run
  refine ⟨fun k => ?_, inv.insert_ret ord, fun op o tree' k st ne => inv.step_frame ord st ne⟩
  rw [inv.lookup ord, tree_run_held ord run]

/-- Keyed data: a second insertion of key 1 is refused, and the removal of key 2 hides its data. -/
theorem bistree_refines_map_keyed :
    let tree : BisTree (Int × Int) :=
      { size := 2, compare := fun a b => a.1 - b.1, destroy := false,
        root := .node ⟨(1, 10), false, -1⟩ .nil (.node ⟨(2, 20), true, 0⟩ .nil .nil) }
    bistreeLookup tree (1, 0) = (0, (1, 10)) ∧ bistreeLookup tree (2, 0) = (-1, (2, 0)) := by
  have ord : TotalPreorder fun a b : Int × Int => a.1 - b.1 :=
    ⟨fun a b => by omega, fun a b c => by omega⟩
  have run : Run (Answers treeStep) (bistreeInit (fun a b : Int × Int => a.1 - b.1) false)
      [(.remove (2, 0), ⟨0, (2, 0), []⟩), (.insert (1, 11) true true, ⟨1, (1, 11), []⟩),
        (.insert (2, 20) true true, ⟨0, (2, 20), []⟩),
        (.insert (1, 10) true true, ⟨0, (1, 10), []⟩)] _ :=
    .cons (.cons (.cons (.cons .nil rfl) rfl) rfl) rfl
  obtain ⟨lookup, _, _⟩ := (bistree_refines_map _ ord false).2 _ _ run
  exact ⟨lookup (1, 0), lookup (2, 0)⟩

end SweetClib.Avl
