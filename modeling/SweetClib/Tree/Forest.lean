import SweetClib.Lib.Run
import SweetClib.Tree.Rep

/-!
# Forests

Any number of trees in one heap, with the functions of `bitree.c` as the transitions
(`forestStep`). The headers are named by a type `ι`; a header that was not initialised is `none`. A
client may call a function on initialised headers, with the null pointer or a node of the given
tree as `node`, and merge two trees into a third header (`Legal`).

`ForestRep s C`: the header `t` represents the tree `C t`, and no node is in two of these trees.
Every call keeps this, and `Effect` lists the outcomes of a call, with what it does to the trees,
to the heap and to the headers.
-/

namespace SweetClib.Tree
open Lib

variable {ι F D : Type}

/-- The heap and the headers. -/
structure Forest (ι F D : Type) where
  heap : Heap (BiTreeNode D)
  trees : ι → Option (BiTree F)

/-- The calls of `bitree.c`. -/
inductive TreeOp (ι F D : Type) where
  | init (t : ι) (destroy : Option F)
  | ins (side : Side) (t : ι) (node : Option Addr) (data : D) (offer : Option Addr)
  | rem (side : Side) (t : ι) (node : Option Addr)
  | merge (m l r : ι) (data : D) (offer : Option Addr)
  | destroy (t : ι)

/-- The headers a call is given. -/
def TreeOp.headers : TreeOp ι F D → List ι
  | .init t _ => [t]
  | .ins _ t _ _ _ => [t]
  | .rem _ t _ => [t]
  | .merge m l r _ _ => [m, l, r]
  | .destroy t => [t]

/-- The answer of a call: its return value, if it has one, and the calls of `destroy` it made. -/
structure Answer (F D : Type) where
  ret : Option Int
  calls : List (F × D)

/-- One call; `none` is a fault. -/
def forestStep [DecidableEq ι] (s : Forest ι F D) :
    TreeOp ι F D → Option (Answer F D × Forest ι F D)
  | .init t destroy =>
    some (⟨none, []⟩, { s with trees := Function.update s.trees t (some (bitreeInit destroy)) })
  | .ins side t node data offer => do
    let (ret, st) ← side.pick bitreeInsLeft bitreeInsRight ⟨s.heap, ← s.trees t, []⟩ node data offer
    return (⟨some ret, st.calls⟩, ⟨st.heap, Function.update s.trees t (some st.tree)⟩)
  | .rem side t node => do
    let st ← side.pick bitreeRemLeft bitreeRemRight ⟨s.heap, ← s.trees t, []⟩ node
    return (⟨none, st.calls⟩, ⟨st.heap, Function.update s.trees t (some st.tree)⟩)
  | .merge m l r data offer => do
    let (ret, st, left, right) ← bitreeMerge s.heap (← s.trees l) (← s.trees r) data offer
    return (⟨some ret, st.calls⟩,
      ⟨st.heap,
        Function.update (Function.update (Function.update s.trees l (some left)) r (some right)) m
        (some st.tree)⟩)
  | .destroy t => do
    let st ← bitreeDestroy ⟨s.heap, ← s.trees t, []⟩
    return (⟨none, st.calls⟩, ⟨st.heap, Function.update s.trees t (some st.tree)⟩)

/-- The nodes that can be reached from a header. -/
abbrev Reachable (s : Forest ι F D) (tree : BiTree F) (x : Addr) : Prop :=
  TreeReach BiTreeNode.child s.heap tree.root x

/-- The header is initialised, and the pointer is null or a node of its tree. -/
def IsNode (s : Forest ι F D) (t : ι) (node : Option Addr) : Prop :=
  ∃ tree, s.trees t = some tree ∧ ∀ n, node = some n → Reachable s tree n

/-- The calls a client may make. -/
def Legal (s : Forest ι F D) : TreeOp ι F D → Prop
  | .init _ _ => True
  | .ins _ t node _ _ => IsNode s t node
  | .rem _ t node => IsNode s t node
  | .merge m l r _ _ => m ≠ l ∧ m ≠ r ∧ l ≠ r ∧ (s.trees l).isSome ∧ (s.trees r).isSome
  | .destroy t => (s.trees t).isSome

/-- The transition system of `bitree.c`. -/
def ForestTrans [DecidableEq ι] (s : Forest ι F D) (a : TreeOp ι F D × Answer F D)
    (s' : Forest ι F D) : Prop :=
  Legal s a.1 ∧ Answers forestStep s a s'

/-- No header is initialised, and the heap is as it is. -/
def start (heap : Heap (BiTreeNode D)) : Forest ι F D := ⟨heap, fun _ => none⟩

/-- The headers represent the trees `C`. -/
structure ForestRep (s : Forest ι F D) (C : ι → BinaryTree (Addr × D)) : Prop where
  rep : ∀ t tree, s.trees t = some tree → TreeRep s.heap tree (C t)
  absent : ∀ t, s.trees t = none → C t = .nil
  disjoint : ∀ t t', t ≠ t' → (addrs (C t)).Disjoint (addrs (C t'))

/-- The outcomes of a call on the trees `C`. The callback of a header is set by `init`, goes with
the left tree into a merged one, and is kept by every other call but `destroy`. -/
inductive Effect [DecidableEq ι] (s s' : Forest ι F D) (C : ι → BinaryTree (Addr × D)) :
    TreeOp ι F D → Answer F D → (ι → BinaryTree (Addr × D)) → Prop where
  | init {t destroy} :
    s'.heap = s.heap →
    s'.trees t = some ⟨0, destroy, none⟩ →
    Effect s s' C (.init t destroy) ⟨none, []⟩ (Function.update C t .nil)
  | inserted {side t node data offer a tree tree'} :
    subtree side node (C t) = some .nil →
    s.heap.malloc offer = some a →
    s.trees t = some tree →
    s'.trees t = some tree' →
    tree'.destroy = tree.destroy →
    (∀ x ≠ a, node ≠ some x → s'.heap x = s.heap x) →
    Effect s s' C (.ins side t node data offer) ⟨some 0, []⟩
      (Function.update C t (graft side node (.node (a, data) .nil .nil) (C t)))
  | refused {side t node data offer S} :
    subtree side node (C t) = some S →
    S ≠ .nil ∨ s.heap.malloc offer = none →
    s' = s →
    Effect s s' C (.ins side t node data offer) ⟨some (-1), []⟩ C
  | removed {side t node S tree tree'} :
    subtree side node (C t) = some S →
    s.trees t = some tree →
    s'.trees t = some tree' →
    tree'.size = tree.size - S.numNodes →
    tree'.destroy = tree.destroy →
    (∀ x ∈ addrs S, s'.heap x = none) →
    (∀ x ∉ addrs S, node ≠ some x → s'.heap x = s.heap x) →
    Effect s s' C (.rem side t node) ⟨none, destroyCalls tree.destroy S⟩
      (Function.update C t (graft side node .nil (C t)))
  | merged {m l r data offer a left right tree'} :
    s.heap.malloc offer = some a →
    s.trees l = some left →
    s.trees r = some right →
    s'.trees m = some tree' →
    tree'.destroy = left.destroy →
    s'.trees l = some { left with root := none, size := 0 } →
    s'.trees r = some { right with root := none, size := 0 } →
    (∀ x ≠ a, s'.heap x = s.heap x) →
    Effect s s' C (.merge m l r data offer) ⟨some 0, []⟩
      (Function.update (Function.update (Function.update C l .nil) r .nil) m
        (.node (a, data) (C l) (C r)))
  | mergeFailed {m l r data offer} :
    s.heap.malloc offer = none →
    s'.heap = s.heap →
    s'.trees m = some ⟨0, none, none⟩ →
    (∀ t ≠ m, s'.trees t = s.trees t) →
    Effect s s' C (.merge m l r data offer) ⟨some (-1), []⟩ (Function.update C m .nil)
  | destroyed {t tree} :
    s.trees t = some tree →
    s'.trees t = some ⟨0, none, none⟩ →
    (∀ x ∈ addrs (C t), s'.heap x = none) →
    (∀ x ∉ addrs (C t), s'.heap x = s.heap x) →
    Effect s s' C (.destroy t) ⟨none, destroyCalls tree.destroy (C t)⟩ (Function.update C t .nil)

section Rep

variable {s : Forest ι F D} {C : ι → BinaryTree (Addr × D)} {t : ι} {tree tree' : BiTree F}
  {T : BinaryTree (Addr × D)}
  {heap' : Heap (BiTreeNode D)}

lemma ForestRep.start (heap : Heap (BiTreeNode D)) :
    ForestRep (start heap : Forest ι F D) (fun _ => .nil) where
  rep _ tree e := absurd e.symm (Option.some_ne_none tree)
  absent _ _ := rfl
  disjoint _ _ _ := List.disjoint_nil_left _

/-- A call that changes one header keeps the forest, if it leaves the nodes of the other trees
alone and takes none of them. -/
lemma ForestRep.update [DecidableEq ι] (rep : ForestRep s C) (new : TreeRep heap' tree' T)
    (kept : ∀ t' ≠ t, ∀ x ∈ addrs (C t'), heap' x = s.heap x)
    (disj : ∀ t' ≠ t, (addrs T).Disjoint (addrs (C t'))) :
    ForestRep ⟨heap', Function.update s.trees t (some tree')⟩ (Function.update C t T) := by
  refine ⟨?_, ?_, ?_⟩
  · intro t' tree e
    by_cases here : t' = t
    · subst here
      rw [Function.update_self]
      simp only [Function.update_self] at e
      cases e
      exact new
    · rw [Function.update_of_ne here]
      simp only [Function.update_of_ne here] at e
      exact (rep.rep t' tree e).frame (kept t' here)
  · intro t' e
    by_cases here : t' = t
    · subst here
      simp only [Function.update_self] at e
      cases e
    · rw [Function.update_of_ne here]
      simp only [Function.update_of_ne here] at e
      exact rep.absent t' e
  · intro t₁ t₂ ne
    by_cases here₁ : t₁ = t
    · subst here₁
      rw [Function.update_self, Function.update_of_ne ne.symm]
      exact disj t₂ ne.symm
    · by_cases here₂ : t₂ = t
      · subst here₂
        rw [Function.update_self, Function.update_of_ne ne]
        exact (disj t₁ ne).symm
      · rw [Function.update_of_ne here₁, Function.update_of_ne here₂]
        exact rep.disjoint t₁ t₂ ne

/-- A header that is empty now takes the nodes of its tree out of the forest. -/
lemma ForestRep.clear [DecidableEq ι] (rep : ForestRep s C)
    (empty : TreeRep s.heap tree (.nil : BinaryTree (Addr × D))) :
    ForestRep ⟨s.heap, Function.update s.trees t (some tree)⟩ (Function.update C t .nil) :=
  rep.update empty (fun _ _ _ _ => rfl) (fun _ _ => List.disjoint_nil_left _)

/-- A node of any of the trees is allocated. -/
lemma ForestRep.live (rep : ForestRep s C) {x : Addr} (mem : x ∈ addrs (C t)) :
    s.heap x ≠ none := by
  cases e : s.trees t with
  | none =>
    rw [rep.absent t e] at mem
    exact absurd mem List.not_mem_nil
  | some tree => exact (rep.rep t tree e).nodes.live mem

/-- The node arguments of a call are those of the tree. -/
lemma ForestRep.isNode (rep : ForestRep s C) {node : Option Addr} (legal : IsNode s t node)
    (side : Side) :
    ∃ tree S, s.trees t = some tree ∧ TreeRep s.heap tree (C t) ∧
      subtree side node (C t) = some S := by
  obtain ⟨tree, header, reach⟩ := legal
  have tree_rep := rep.rep t tree header
  obtain ⟨S, old⟩ := exists_subtree side fun n e => tree_rep.nodes.reach_iff.mp (reach n e)
  exact ⟨tree, S, header, tree_rep, old⟩

/-- A node of another tree is not the node argument of a call. -/
lemma ForestRep.ne_node (rep : ForestRep s C) {side : Side} {node : Option Addr}
    {S : BinaryTree (Addr × D)} (old : subtree side node (C t) = some S) {t' : ι} (ne : t' ≠ t)
    {x : Addr} (mem : x ∈ addrs (C t')) : node ≠ some x := by
  rintro rfl
  exact rep.disjoint t' t ne mem (mem_of_subtree old)

end Rep

section Steps

variable [DecidableEq ι] {s : Forest ι F D} {C : ι → BinaryTree (Addr × D)} {t : ι}

/-- A call does not fault, keeps the forest and has one of its outcomes, and leaves the other
headers alone. -/
def Outcome (s : Forest ι F D) (C : ι → BinaryTree (Addr × D)) (op : TreeOp ι F D) : Prop :=
  ∃ ans s' C', forestStep s op = some (ans, s') ∧ ForestRep s' C' ∧ Effect s s' C op ans C' ∧
    ∀ t ∉ op.headers, s'.trees t = s.trees t

/-- The headers after a call that changes one of them. -/
lemma other_header {tree : Option (BiTree F)} (t' : ι) (out : t' ∉ [t]) :
    Function.update s.trees t tree t' = s.trees t' :=
  Function.update_of_ne (fun e => out (List.mem_singleton.mpr e)) _ _

lemma ForestRep.outcome_init (rep : ForestRep s C) (destroy : Option F) :
    Outcome s C (.init t destroy) := by
  exact ⟨_, _, _, rfl, rep.clear (.init s.heap destroy), .init rfl (Function.update_self _ _ _),
    other_header⟩

lemma ForestRep.outcome_ins (rep : ForestRep s C) {node : Option Addr} (side : Side)
    (legal : IsNode s t node) (data : D) (offer : Option Addr) :
    Outcome s C (.ins side t node data offer) := by
  obtain ⟨tree, S, header, tree_rep, old⟩ := rep.isNode legal side
  have call :
    side.pick bitreeInsLeft bitreeInsRight (⟨s.heap, tree, []⟩ : TreeSt F D) node data offer =
      bitreeIns side ⟨s.heap, tree, []⟩ node data offer := by
    cases side <;> rfl
  by_cases refused : S ≠ .nil ∨ s.heap.malloc offer = none
  · refine ⟨⟨some (-1), []⟩, s, C, ?_, rep, .refused old refused rfl, fun _ _ => rfl⟩
    have same : Function.update s.trees t (some tree) = s.trees := by
      rw [← header, Function.update_eq_self]
    simp only [forestStep, header, Option.bind_eq_bind, Option.bind_some, call,
      bitreeIns_refused (s := ⟨s.heap, tree, []⟩) tree_rep old refused, same]
    rfl
  · obtain ⟨empty, room⟩ := not_or.mp refused
    obtain ⟨a, alloc⟩ := Option.ne_none_iff_exists'.mp room
    cases not_not.mp empty
    obtain ⟨st, ins, new, destroy, calls, kept⟩ :=
      bitreeIns_spec (s := ⟨s.heap, tree, []⟩) data tree_rep old alloc
    refine ⟨⟨some 0, st.calls⟩, ⟨st.heap, Function.update s.trees t (some st.tree)⟩, _, ?_,
      rep.update new ?_ ?_, ?_, other_header⟩
    · simp only [forestStep, header, Option.bind_eq_bind, Option.bind_some, call, ins]
      rfl
    · intro t' ne x mem
      refine kept x ?_ (rep.ne_node old ne mem)
      rintro rfl
      exact rep.live mem (Heap.malloc_fresh alloc)
    · intro t' ne x mem mem'
      rcases mem_of_mem_graft tree_rep.nodup old mem with mem | mem
      · exact rep.disjoint t t' ne.symm mem mem'
      · rw [List.mem_singleton.mp mem] at mem'
        exact rep.live mem' (Heap.malloc_fresh alloc)
    · rw [calls]
      exact .inserted old alloc header (Function.update_self _ _ _) destroy kept

lemma ForestRep.outcome_rem (rep : ForestRep s C) {node : Option Addr} (side : Side)
    (legal : IsNode s t node) : Outcome s C (.rem side t node) := by
  obtain ⟨tree, S, header, tree_rep, old⟩ := rep.isNode legal side
  obtain ⟨st, rem, removed, new⟩ := TreeRep.rem (s := ⟨s.heap, tree, []⟩) tree_rep _ old
  have call : side.pick bitreeRemLeft bitreeRemRight (⟨s.heap, tree, []⟩ : TreeSt F D) node =
      some st := by
    cases side <;> exact rem
  refine ⟨⟨none, st.calls⟩, ⟨st.heap, Function.update s.trees t (some st.tree)⟩, _, ?_,
    rep.update new ?_ ?_, ?_, other_header⟩
  · simp only [forestStep, header, Option.bind_eq_bind, Option.bind_some, call]
    rfl
  · intro t' ne x mem
    refine removed.kept x ?_ (rep.ne_node old ne mem)
    intro mem'
    exact rep.disjoint t' t ne mem (mem_of_mem_subtree tree_rep.nodup old mem')
  · intro t' ne x mem mem'
    exact rep.disjoint t t' ne.symm ((mem_graft_nil tree_rep.nodup old).mp mem).1 mem'
  · rw [removed.calls]
    exact .removed old header (Function.update_self _ _ _) removed.size removed.destroy
      removed.freed
      removed.kept

lemma ForestRep.outcome_destroy (rep : ForestRep s C) (legal : (s.trees t).isSome) :
    Outcome s C (.destroy t) := by
  obtain ⟨tree, header⟩ := Option.isSome_iff_exists.mp legal
  obtain ⟨st, call, cleared, calls, freed, kept⟩ :=
    TreeRep.destroy (s := ⟨s.heap, tree, []⟩) (rep.rep t tree header)
  have new : TreeRep st.heap st.tree (.nil : BinaryTree (Addr × D)) := by
    rw [cleared]
    exact .init st.heap none
  refine ⟨⟨none, st.calls⟩, ⟨st.heap, Function.update s.trees t (some st.tree)⟩, _, ?_,
    rep.update new ?_ ?_, ?_, other_header⟩
  · simp only [forestStep, header, Option.bind_eq_bind, Option.bind_some, call]
    rfl
  · intro t' ne x mem
    exact kept x fun mem' => rep.disjoint t' t ne mem mem'
  · intro t' ne
    exact List.disjoint_nil_left _
  · rw [calls]
    refine .destroyed header ?_ freed kept
    rw [← cleared]
    exact Function.update_self _ _ _

/-- The header of a tree that was merged into another one is empty. -/
lemma TreeRep.emptied (heap : Heap (BiTreeNode D)) (tree : BiTree F) :
    TreeRep heap { tree with root := none, size := 0 } (.nil : BinaryTree (Addr × D)) :=
  ⟨rfl, List.nodup_nil, rfl⟩

/-- The nodes that are left when a tree is emptied. -/
lemma mem_update_nil {t' : ι} {x : Addr} (mem : x ∈ addrs (Function.update C t .nil t')) :
    t' ≠ t ∧ x ∈ addrs (C t') := by
  by_cases here : t' = t
  · rw [here, Function.update_self] at mem
    exact absurd mem List.not_mem_nil
  · rw [Function.update_of_ne here] at mem
    exact ⟨here, mem⟩

section Merge

variable {m l r : ι} {left right : BiTree F} {data : D} {offer : Option Addr} {a : Addr}

lemma ForestRep.outcome_mergeFailed (rep : ForestRep s C) (header_l : s.trees l = some left)
    (header_r : s.trees r = some right) (alloc : s.heap.malloc offer = none) :
    Outcome s C (.merge m l r data offer) := by
  have same : Function.update (Function.update s.trees l (some left)) r (some right) = s.trees := by
    rw [← header_l, Function.update_eq_self, ← header_r, Function.update_eq_self]
  refine ⟨⟨some (-1), []⟩, ⟨s.heap, Function.update s.trees m (some ⟨0, none, none⟩)⟩, _, ?_,
    rep.clear (.init s.heap none),
    .mergeFailed alloc rfl (Function.update_self _ _ _) (fun t ne => Function.update_of_ne ne _ _),
    ?_⟩
  · simp only [forestStep, header_l, header_r, Option.bind_eq_bind, Option.bind_some,
      bitreeMerge_fail alloc, same]
    rfl
  · intro t out
    exact Function.update_of_ne (fun e => out (List.mem_cons.mpr (.inl e))) _ _

lemma ForestRep.outcome_merged (rep : ForestRep s C) (ml : m ≠ l) (mr : m ≠ r) (lr : l ≠ r)
    (header_l : s.trees l = some left) (header_r : s.trees r = some right)
    (alloc : s.heap.malloc offer = some a) : Outcome s C (.merge m l r data offer) := by
  have fresh := Heap.malloc_fresh alloc
  obtain ⟨st, merge, new, destroy, calls, kept⟩ := bitreeMerge_spec data (rep.rep l left header_l)
    (rep.rep r right header_r) (rep.disjoint l r lr) alloc
  -- first the two trees are emptied, then the new one takes their nodes
  have rest := (rep.clear (t := l) (.emptied s.heap left)).clear (t := r) (.emptied s.heap right)
  refine ⟨⟨some 0, st.calls⟩, _, _, ?_, rest.update (t := m) new ?_ ?_, ?_, ?_⟩
  · simp only [forestStep, header_l, header_r, Option.bind_eq_bind, Option.bind_some, merge]
    rfl
  · intro t ne x mem
    refine kept x ?_
    rintro rfl
    exact rest.live mem fresh
  · intro t ne x mem mem'
    obtain ⟨nr, mem'⟩ := mem_update_nil mem'
    obtain ⟨nl, mem'⟩ := mem_update_nil mem'
    rcases mem_addrs_node.mp mem with mem | mem | rfl
    · exact rep.disjoint l t nl.symm mem mem'
    · exact rep.disjoint r t nr.symm mem mem'
    · exact rep.live mem' fresh
  · rw [calls]
    refine .merged alloc header_l header_r (Function.update_self _ _ _) destroy ?_ ?_ kept
    · exact (Function.update_of_ne ml.symm _ _).trans
        ((Function.update_of_ne lr _ _).trans (Function.update_self _ _ _))
    · exact (Function.update_of_ne mr.symm _ _).trans (Function.update_self _ _ _)
  · intro t out
    simp only [TreeOp.headers, List.mem_cons, List.not_mem_nil, or_false, not_or] at out
    obtain ⟨nm, nl, nr⟩ := out
    show Function.update (Function.update (Function.update s.trees l _) r _) m _ t = _
    rw [Function.update_of_ne nm, Function.update_of_ne nr, Function.update_of_ne nl]

lemma ForestRep.outcome_merge (rep : ForestRep s C) (data : D) (offer : Option Addr)
    (legal : Legal s (.merge m l r data offer)) : Outcome s C (.merge m l r data offer) := by
  obtain ⟨ml, mr, lr, some_l, some_r⟩ := legal
  obtain ⟨left, header_l⟩ := Option.isSome_iff_exists.mp some_l
  obtain ⟨right, header_r⟩ := Option.isSome_iff_exists.mp some_r
  cases alloc : s.heap.malloc offer with
  | none => exact rep.outcome_mergeFailed header_l header_r alloc
  | some a => exact rep.outcome_merged ml mr lr header_l header_r alloc

end Merge

/-- Every call a client may make has one of its outcomes. -/
lemma ForestRep.outcome (rep : ForestRep s C) {op : TreeOp ι F D} (legal : Legal s op) :
    Outcome s C op := by
  cases op with
  | init t destroy => exact rep.outcome_init destroy
  | ins side t node data offer => exact rep.outcome_ins side legal data offer
  | rem side t node => exact rep.outcome_rem side legal
  | merge m l r data offer => exact rep.outcome_merge data offer legal
  | destroy t => exact rep.outcome_destroy legal

end Steps

lemma run_forestRep [DecidableEq ι] (heap : Heap (BiTreeNode D))
    {tr : List (TreeOp ι F D × Answer F D)} {s : Forest ι F D}
    (run : Run ForestTrans (start heap) tr s) : ∃ C, ForestRep s C := by
  refine run.invariant (fun s => ∃ C, ForestRep s C) ⟨_, ForestRep.start heap⟩ ?_
  rintro s ⟨op, ans⟩ s' ⟨C, rep⟩ ⟨legal, st⟩
  obtain ⟨ans₁, s₁, C₁, st₁, rep₁, _⟩ := rep.outcome legal
  have same : some (ans₁, s₁) = some (ans, s') := st₁.symm.trans st
  cases same
  exact ⟨C₁, rep₁⟩

/-- After every run of calls, on any number of trees and with any answers of the allocator: the
size of each tree is the number of the nodes that can be reached from its root, and no node can be
reached from two roots. The headers represent trees, on which every further call has one of the
outcomes of `Effect`. -/
theorem bitree_forest [DecidableEq ι] (heap : Heap (BiTreeNode D))
    {tr : List (TreeOp ι F D × Answer F D)} {s : Forest ι F D}
    (run : Run ForestTrans (start heap) tr s) :
    (∀ t tree, s.trees t = some tree → {x | Reachable s tree x}.Finite ∧
      tree.size = {x | Reachable s tree x}.ncard) ∧
    (∀ t t' tree tree' x, t ≠ t' → s.trees t = some tree → s.trees t' = some tree' →
      Reachable s tree x →
      ¬ Reachable s tree' x) ∧
    ∃ C, ForestRep s C ∧ ∀ op, Legal s op →
      ∃ ans s' C', forestStep s op = some (ans, s') ∧ ForestRep s' C' ∧ Effect s s' C op ans C' ∧
        ∀ t ∉ op.headers, s'.trees t = s.trees t := by
  obtain ⟨C, rep⟩ := run_forestRep heap run
  refine ⟨?_, ?_, C, rep, fun op legal => rep.outcome legal⟩
  · intro t tree header
    have tree_rep := rep.rep t tree header
    constructor
    · exact (List.finite_toSet (addrs (C t))).subset fun x reach =>
        tree_rep.nodes.reach_iff.mp reach
    · rw [tree_rep.size, tree_rep.nodes.ncard_reach tree_rep.nodup]
  · intro t t' tree tree' x ne header header' reach reach'
    exact rep.disjoint t t' ne ((rep.rep t tree header).nodes.reach_iff.mp reach)
      ((rep.rep t' tree' header').nodes.reach_iff.mp reach')

/-- A tree with a root and a node to its right. -/
theorem bitree_forest_two :
    ∃ (tr : List (TreeOp Bool Unit Nat × Answer Unit Nat)) (s : Forest Bool Unit Nat)
      (tree : BiTree Unit),
      Run ForestTrans (start Heap.empty) tr s ∧ s.trees true = some tree ∧
        ({x | Reachable s tree x}.ncard : Int) = 2 := by
  have run : Run ForestTrans (start Heap.empty : Forest Bool Unit Nat)
      [(.ins .right true (some 1) 6 (some 2), ⟨some 0, []⟩),
        (.ins .left true none 5 (some 1), ⟨some 0, []⟩),
       (.init true (some ()), ⟨none, []⟩)] _ :=
    .cons (.cons (.cons .nil ⟨trivial, rfl⟩) ⟨⟨_, rfl, by rintro n ⟨⟩⟩, rfl⟩)
      ⟨⟨_, rfl, by rintro n ⟨⟩; exact .here rfl⟩, rfl⟩
  exact ⟨_, _, _, run, rfl, ((bitree_forest Heap.empty run).1 true _ rfl).2.symm⟩

end SweetClib.Tree
