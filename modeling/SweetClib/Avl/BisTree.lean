import SweetClib.Lib.SearchTree

/-!
# The AVL tree with lazy deletion

Model of `lib/_structs/bistree.c`, with the insertions of `bitree.c` it uses. The file does not
compile as it stands; its evident misspellings (`cpmval`, `val_data`, `bistree_ins_right`,
`bitree_node`) are read as the identifiers they misspell, and the branch of `lookup` for a hidden
node as returning `-1`.

A subtree is a value: `bitree_is_eob` is the empty tree. A function that changes `*node` returns
the tree that `*node` holds afterwards, and `insert` returns beside it what it leaves in
`tree->size` and in `*balanced`, and the data it passed to `tree->destroy`. `destroy_left` and
`destroy_right` differ in the position they empty, `node->left` or `node->right` (written
`tree->right`); `destroyAt` is given the subtree there. A dereference of an empty subtree is a
fault, `none`. The two allocations of an insertion are decided by the flags `avlOk` and `nodeOk`.

C → Lean naming: `bitree_ins_left`/`bitree_ins_right` → `bitreeInsLeft`/`bitreeInsRight`;
`rotate_left`/`rotate_right` → `rotateLeft`/`rotateRight`; `insert`, `hide` and `lookup` keep their
names; `destroy_left`/`destroy_right` → `destroyAt`; `bistree_insert` → `bistreeInsert`, and in the
same way `bistreeInit`, `bistreeDestroy`, `bistreeRemove`, `bistreeLookup`.
-/

namespace SweetClib.Avl
open SweetClib.Lib

def AVL_LFT_HEAVY : Int := 1
def AVL_BALANCED : Int := 0
def AVL_RGT_HEAVY : Int := -1

/-- The data of a node (C `AvlNode`). -/
structure AvlNode (D : Type*) where
  data : D
  hidden : Bool
  factor : Int
  deriving Repr, DecidableEq

/-- The subtree below a node pointer (C `BiTreeNode *`). -/
abbrev BiTreeNode (α : Type*) := BinaryTree α

/-- A tree (C `BisTree`); `destroy` says whether a callback is set. -/
structure BisTree (D : Type*) where
  size : Int
  compare : D → D → Int
  destroy : Bool
  root : BiTreeNode (AvlNode D)

variable {α D : Type*}

/-- The empty subtree (C `bitree_is_eob`). -/
def bitreeIsEob : BiTreeNode α → Bool
  | .nil => true
  | .node _ _ _ => false

/-- Insert a leaf to the left of `node`, or as the root when it is empty (C `bitree_ins_left`). The
results are the return value, the size and the node, or the root, afterwards. -/
def bitreeInsLeft (nodeOk : Bool) (size : Int) (node : BiTreeNode α) (data : α) :
    Int × Int × BiTreeNode α :=
  match node with
  | .nil =>
    if size > 0 then (-1, size, .nil)
    else if nodeOk then (0, size + 1, .node data .nil .nil)
    else (-1, size, .nil)
  | .node d left right =>
    if !bitreeIsEob left then (-1, size, .node d left right)
    else if nodeOk then (0, size + 1, .node d (.node data .nil .nil) right)
    else (-1, size, .node d left right)

/-- Insert a leaf to the right of `node`, or as the root when it is empty (C `bitree_ins_right`). -/
def bitreeInsRight (nodeOk : Bool) (size : Int) (node : BiTreeNode α) (data : α) :
    Int × Int × BiTreeNode α :=
  match node with
  | .nil =>
    if size > 0 then (-1, size, .nil)
    else if nodeOk then (0, size + 1, .node data .nil .nil)
    else (-1, size, .nil)
  | .node d left right =>
    if !bitreeIsEob right then (-1, size, .node d left right)
    else if nodeOk then (0, size + 1, .node d left (.node data .nil .nil))
    else (-1, size, .node d left right)

/-- The rotations to the left (C `rotate_left`). -/
def rotateLeft : BiTreeNode (AvlNode D) → Option (BiTreeNode (AvlNode D))
  | .node n (.node left ll lr) r =>
    if left.factor = AVL_LFT_HEAVY then
      -- left-left rotation
      some (.node { left with factor := AVL_BALANCED } ll
        (.node { n with factor := AVL_BALANCED } lr r))
    else
      -- left-right rotation
      match lr with
      | .nil => none
      | .node g gl gr =>
        let factors :=
          if g.factor = AVL_LFT_HEAVY then (AVL_RGT_HEAVY, AVL_BALANCED)
          else if g.factor = AVL_BALANCED then (AVL_BALANCED, AVL_BALANCED)
          else if g.factor = AVL_RGT_HEAVY then (AVL_BALANCED, AVL_LFT_HEAVY)
          else (n.factor, left.factor)
        some (.node { g with factor := AVL_BALANCED }
          (.node { left with factor := factors.2 } ll gl)
          (.node { n with factor := factors.1 } gr r))
  | _ => none

/-- The rotations to the right (C `rotate_right`). -/
def rotateRight : BiTreeNode (AvlNode D) → Option (BiTreeNode (AvlNode D))
  | .node n l (.node right rl rr) =>
    if right.factor = AVL_RGT_HEAVY then
      -- right-right rotation
      some (.node { right with factor := AVL_BALANCED }
        (.node { n with factor := AVL_BALANCED } l rl) rr)
    else
      -- right-left rotation
      match rl with
      | .nil => none
      | .node g gl gr =>
        let factors :=
          if g.factor = AVL_LFT_HEAVY then (AVL_BALANCED, AVL_RGT_HEAVY)
          else if g.factor = AVL_BALANCED then (AVL_BALANCED, AVL_BALANCED)
          else if g.factor = AVL_RGT_HEAVY then (AVL_LFT_HEAVY, AVL_BALANCED)
          else (n.factor, right.factor)
        some (.node { g with factor := AVL_BALANCED }
          (.node { n with factor := factors.1 } l gl)
          (.node { right with factor := factors.2 } gr rr))
  | _ => none

/-- The results of `insert`. -/
structure InsRes (D : Type*) where
  retval : Int
  node : BiTreeNode (AvlNode D)
  size : Int
  balanced : Bool
  destroyed : List D

/-- After a leaf was put below `*node`, or an insertion into its left subtree: the `switch` on the
factor. -/
def growLeft (q : InsRes D) : Option (InsRes D) :=
  if q.balanced then some q
  else
    match q.node with
    | .nil => none
    | .node n l r =>
      if n.factor = AVL_LFT_HEAVY then
        match rotateLeft q.node with
        | none => none
        | some node => some { q with node := node, balanced := true }
      else if n.factor = AVL_BALANCED then
        some { q with node := .node { n with factor := AVL_LFT_HEAVY } l r }
      else if n.factor = AVL_RGT_HEAVY then
        some { q with node := .node { n with factor := AVL_BALANCED } l r, balanced := true }
      else some q

/-- The same after an insertion into the right subtree. -/
def growRight (q : InsRes D) : Option (InsRes D) :=
  if q.balanced then some q
  else
    match q.node with
    | .nil => none
    | .node n l r =>
      if n.factor = AVL_LFT_HEAVY then
        some { q with node := .node { n with factor := AVL_BALANCED } l r, balanced := true }
      else if n.factor = AVL_BALANCED then
        some { q with node := .node { n with factor := AVL_RGT_HEAVY } l r }
      else if n.factor = AVL_RGT_HEAVY then
        match rotateRight q.node with
        | none => none
        | some node => some { q with node := node, balanced := true }
      else some q

/-- The new node data of an insertion. -/
def avlData (data : D) : AvlNode D := { data := data, hidden := false, factor := AVL_BALANCED }

/-- A leaf below `*node`, by one of the two insertions of `bitree.c`: `*balanced` is cleared on
success. -/
def insertLeaf
    (ins : Bool → Int → BiTreeNode (AvlNode D) → AvlNode D → Int × Int × BiTreeNode (AvlNode D))
    (avlOk nodeOk : Bool) (data : D) (size : Int) (balanced : Bool)
    (node : BiTreeNode (AvlNode D)) : InsRes D :=
  if avlOk then
    match ins nodeOk size node (avlData data) with
    | (ret, size, node) =>
      if ret ≠ 0 then ⟨-1, node, size, balanced, []⟩ else ⟨0, node, size, false, []⟩
  else ⟨-1, node, size, balanced, []⟩

/-- Insertion below `*node` (C `insert`). -/
def insert (compare : D → D → Int) (destroy avlOk nodeOk : Bool) (data : D) (size : Int)
    (balanced : Bool) : BiTreeNode (AvlNode D) → Option (InsRes D)
  | .nil =>
    if avlOk then
      match bitreeInsLeft nodeOk size .nil (avlData data) with
      | (ret, size, node) => some ⟨ret, node, size, balanced, []⟩
    else some ⟨-1, .nil, size, balanced, []⟩
  | .node n l r =>
    let cmpval := compare data n.data
    if cmpval < 0 then
      let sub :=
        if bitreeIsEob l then
          some (insertLeaf bitreeInsLeft avlOk nodeOk data size balanced (.node n l r))
        else
          (insert compare destroy avlOk nodeOk data size balanced l).map fun q =>
            { q with node := .node n q.node r }
      match sub with
      | none => none
      | some q => if q.retval ≠ 0 then some q else growLeft q
    else if cmpval > 0 then
      let sub :=
        if bitreeIsEob r then
          some (insertLeaf bitreeInsRight avlOk nodeOk data size balanced (.node n l r))
        else
          (insert compare destroy avlOk nodeOk data size balanced r).map fun q =>
            { q with node := .node n l q.node }
      match sub with
      | none => none
      | some q => if q.retval ≠ 0 then some q else growRight q
    else if !n.hidden then some ⟨1, .node n l r, size, balanced, []⟩
    else
      some ⟨0, .node { n with data := data, hidden := false } l r, size, true,
        if destroy then [n.data] else []⟩

/-- Hide the node of a key (C `hide`); the results are the return value and the subtree. -/
def hide (compare : D → D → Int) (data : D) : BiTreeNode (AvlNode D) → Int × BiTreeNode (AvlNode D)
  | .nil => (-1, .nil)
  | .node n l r =>
    let cmpval := compare data n.data
    if cmpval < 0 then
      let (retval, l) := hide compare data l
      (retval, .node n l r)
    else if cmpval > 0 then
      let (retval, r) := hide compare data r
      (retval, .node n l r)
    else (0, .node { n with hidden := true } l r)

/-- Look a key up (C `lookup`); the results are the return value and `*data` afterwards. -/
def lookup (compare : D → D → Int) (data : D) : BiTreeNode (AvlNode D) → Int × D
  | .nil => (-1, data)
  | .node n l r =>
    let cmpval := compare data n.data
    if cmpval < 0 then lookup compare data l
    else if cmpval > 0 then lookup compare data r
    else if !n.hidden then (0, n.data)
    else (-1, data)

/-- Free the subtree at `*position` (C `destroy_left` and `destroy_right`); the results are the
size, `*position` and the data passed to `destroy`. -/
def destroyAt (destroy : Bool) (size : Int) :
    BiTreeNode (AvlNode D) → Int × BiTreeNode (AvlNode D) × List D
  | .nil => (size, .nil, [])
  | .node n l r =>
    if size = 0 then (size, .node n l r, [])
    else
      let (size, _, destroyedLeft) := destroyAt destroy size l
      let (size, _, destroyedRight) := destroyAt destroy size r
      -- the node is freed with whatever is still below it
      (size - 1, .nil, destroyedLeft ++ destroyedRight ++ if destroy then [n.data] else [])

/-- An empty tree (C `bistree_init`). -/
def bistreeInit (compare : D → D → Int) (destroy : Bool) : BisTree D :=
  { size := 0, compare := compare, destroy := destroy, root := .nil }

/-- C `bistree_destroy`; the results are the tree as `destroy_left` leaves it, before `memset`
clears it, and the data passed to `destroy`. -/
def bistreeDestroy (tree : BisTree D) : BisTree D × List D :=
  let (size, root, destroyed) := destroyAt tree.destroy tree.size tree.root
  ({ tree with size, root }, destroyed)

/-- C `bistree_insert`; the last result lists the data passed to `destroy`. -/
def bistreeInsert (tree : BisTree D) (data : D) (avlOk nodeOk : Bool) :
    Option (Int × BisTree D × List D) :=
  match insert tree.compare tree.destroy avlOk nodeOk data tree.size false tree.root with
  | none => none
  | some q => some (q.retval, { tree with root := q.node, size := q.size }, q.destroyed)

/-- C `bistree_remove`. -/
def bistreeRemove (tree : BisTree D) (data : D) : Int × BisTree D :=
  let (retval, root) := hide tree.compare data tree.root
  (retval, { tree with root := root })

/-- C `bistree_lookup`. -/
def bistreeLookup (tree : BisTree D) (data : D) : Int × D :=
  lookup tree.compare data tree.root

end SweetClib.Avl
