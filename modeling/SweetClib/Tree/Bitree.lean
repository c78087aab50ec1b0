import SweetClib.Lib.HeapTree

/-!
# Binary trees

Model of `_structs/bitree.c`. Nodes live in a heap; a header (`BiTree`) holds the size, the
callback `destroy` if there is one, and the pointer to the root. `TreeSt` is the heap with the
header a function is given and the calls of `destroy` made so far, each with its callback and its
argument. A function that dereferences a null pointer or a pointer to a released node faults,
`none`; so does a removal that runs out of its recursion bound, which it never does on a tree whose
size is right.

The variable `position` of the functions points to the root pointer of the header or to a child
pointer of a node; a `Position` is where it points to, `load` is `*position` and `store` an
assignment to it. `bitree_ins_left` and `bitree_ins_right` differ in the side of the node they
insert at, `bitree_rem_left` and `bitree_rem_right` in the side they remove, and each of these two
pairs is one definition with the side as a parameter.

C → Lean naming: `bitree_init` → `bitreeInit`, and in the same way `bitreeDestroy`,
`bitreeInsLeft`, `bitreeInsRight`, `bitreeRemLeft`, `bitreeRemRight`, `bitreeMerge`. The field
`compare` of the header is not used by these functions and is left out.
-/

namespace SweetClib.Tree
open Lib

/-- A node (C `BiTreeNode`). -/
structure BiTreeNode (D : Type*) where
  data : D
  left : Option Addr
  right : Option Addr
  deriving DecidableEq

/-- A header (C `BiTree`). -/
structure BiTree (F : Type*) where
  size : Int
  destroy : Option F
  root : Option Addr
  deriving DecidableEq

/-- The heap, a header, and the calls of `destroy`. -/
structure TreeSt (F D : Type*) where
  heap : Heap (BiTreeNode D)
  tree : BiTree F
  calls : List (F × D)

variable {F D : Type}

/-- The child pointer of a side (C `bitree_left`, `bitree_right`). -/
def BiTreeNode.child (side : Side) (node : BiTreeNode D) : Option Addr :=
  side.pick node.left node.right

/-- Write the child pointer of a side. -/
def BiTreeNode.setChild (side : Side) (p : Option Addr) (node : BiTreeNode D) : BiTreeNode D :=
  side.pick { node with left := p } { node with right := p }

/-- Where `position` points to. -/
inductive Position where
  | root
  | child (side : Side) (node : Addr)

/-- The position a function works on, for its argument `node`. -/
def Position.of (side : Side) : Option Addr → Position
  | none => .root
  | some node => .child side node

/-- `*position` -/
def Position.load (s : TreeSt F D) : Position → Option (Option Addr)
  | .root => some s.tree.root
  | .child side node => (s.heap node).map (·.child side)

/-- `*position = p` -/
def Position.store (s : TreeSt F D) (p : Option Addr) : Position → Option (TreeSt F D)
  | .root => some { s with tree := { s.tree with root := p } }
  | .child side node =>
    (s.heap node).map fun c => { s with heap := s.heap.set node (c.setChild side p) }

/-- Initialise a header (C `bitree_init`). -/
def bitreeInit (destroy : Option F) : BiTree F where
  size := 0
  destroy := destroy
  root := none

/-- There is a node at the position already; at the root this is read off the size. -/
def taken (side : Side) (s : TreeSt F D) : Option Addr → Option Bool
  | none => some (0 < s.tree.size)
  | some node => (s.heap node).map fun c => (c.child side).isSome

/-- Insert a node at one side of `node`, or at the root. The allocator is offered an address. -/
def bitreeIns (side : Side) (s : TreeSt F D) (node : Option Addr) (data : D) (offer : Option Addr) :
    Option (Int × TreeSt F D) := do
  if ← taken side s node then return (-1, s)
  else
    match s.heap.malloc offer with
    | none => return (-1, s)
    | some newNode =>
      let s := { s with heap := s.heap.set newNode ⟨data, none, none⟩ }
      let s ← (Position.of side node).store s (some newNode)
      return (0, { s with tree := { s.tree with size := s.tree.size + 1 } })

/-- C `bitree_ins_left` -/
def bitreeInsLeft :
    TreeSt F D → Option Addr → D → Option Addr → Option (Int × TreeSt F D) := bitreeIns .left

/-- C `bitree_ins_right` -/
def bitreeInsRight :
    TreeSt F D → Option Addr → D → Option Addr → Option (Int × TreeSt F D) := bitreeIns .right

/-- Release the node at the position, whose subtrees are empty: the end of a removal. -/
def release (position : Position) (s : TreeSt F D) : Option (TreeSt F D) := do
  let node ← ← position.load s
  let c ← s.heap node
  let s :=
    { s with
      heap := s.heap.free node,
      calls := s.calls ++ (s.tree.destroy.map fun destroy => (destroy, c.data)).toList }
  let s ← position.store s none
  return { s with tree := { s.tree with size := s.tree.size - 1 } }

/-- Remove the subtree at one side of `node`, or at the root, to a depth of less than the bound. -/
def bitreeRem : Nat → Side → TreeSt F D → Option Addr → Option (TreeSt F D)
  | 0, _, _, _ => none
  | bound + 1, side, s, node =>
    if s.tree.size = 0 then some s
    else do
      let position := Position.of side node
      if (← position.load s).isNone then return s
      else
        let s ← bitreeRem bound .left s (← position.load s)
        let s ← bitreeRem bound .right s (← position.load s)
        release position s

/-- C `bitree_rem_left` -/
def bitreeRemLeft (s : TreeSt F D) (node : Option Addr) : Option (TreeSt F D) :=
  bitreeRem (s.tree.size.toNat + 1) .left s node

/-- C `bitree_rem_right` -/
def bitreeRemRight (s : TreeSt F D) (node : Option Addr) : Option (TreeSt F D) :=
  bitreeRem (s.tree.size.toNat + 1) .right s node

/-- Remove all nodes and clear the header (C `bitree_destroy`). -/
def bitreeDestroy (s : TreeSt F D) : Option (TreeSt F D) := do
  let s ← bitreeRemLeft s none
  return { s with tree := ⟨0, none, none⟩ }

/-- Put two trees below a new root (C `bitree_merge`). The result has the header of the merged
tree, and after it the headers of the two trees. -/
def bitreeMerge (heap : Heap (BiTreeNode D)) (left right : BiTree F) (data : D)
    (offer : Option Addr) :
    Option (Int × TreeSt F D × BiTree F × BiTree F) := do
  let (ret, s) ← bitreeInsLeft ⟨heap, bitreeInit left.destroy, []⟩ none data offer
  if ret ≠ 0 then
    let s ← bitreeDestroy s
    return (-1, s, left, right)
  else
    let s ← (Position.child .left (← s.tree.root)).store s left.root
    let s ← (Position.child .right (← s.tree.root)).store s right.root
    return (0, { s with tree := { s.tree with size := s.tree.size + left.size + right.size } },
      { left with root := none, size := 0 }, { right with root := none, size := 0 })

end SweetClib.Tree
