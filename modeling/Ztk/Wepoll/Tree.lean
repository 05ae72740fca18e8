import Ztk.Lib.RedBlack

/-!
# The red-black tree of `wepoll.c`

`tree_add`, `tree_del` and `tree_find`, pointer by pointer.  A node is a number, and `left`,
`right`, `parent`, `key` and `red` are the fields of all nodes; a pointer that may be `NULL` is
an `Option`.  The macros that are written for both sides take a side here, `cis`, and `trans`
is the other one.

A function that would use a `NULL` pointer, or whose loop needs more turns than it is given,
has no result.
-/

namespace Ztk.Wepoll

open Ztk.Lib

/-- `tree_t`, and the fields of every `tree_node_t`. -/
structure Tree (κ : Type) where
  root : Option Nat
  left : Nat → Option Nat
  right : Nat → Option Nat
  parent : Nat → Option Nat
  key : Nat → κ
  red : Nat → Bool

namespace Tree

variable {κ : Type}

/-- `tree_init`, on memory with anything in it. -/
def init (s : Tree κ) : Tree κ := { s with root := none }

def child (s : Tree κ) : Side → Nat → Option Nat
  | .left => s.left
  | .right => s.right

def setChild (s : Tree κ) (side : Side) (i : Nat) (p : Option Nat) : Tree κ :=
  match side with
  | .left => { s with left := Function.update s.left i p }
  | .right => { s with right := Function.update s.right i p }

def setParent (s : Tree κ) (i : Nat) (p : Option Nat) : Tree κ :=
  { s with parent := Function.update s.parent i p }

/-- `if (node) node->parent = p`. -/
def setParentOf (s : Tree κ) (node : Option Nat) (p : Option Nat) : Tree κ :=
  match node with
  | none => s
  | some i => s.setParent i p

def setRed (s : Tree κ) (i : Nat) (red : Bool) : Tree κ :=
  { s with red := Function.update s.red i red }

/-- `if (node) node->red = red`. -/
def setRedOf (s : Tree κ) (node : Option Nat) (red : Bool) : Tree κ :=
  match node with
  | none => s
  | some i => s.setRed i red

/-- `node && node->red`. -/
def redAt (s : Tree κ) : Option Nat → Bool
  | none => false
  | some i => s.red i

/-- Put `q` where `p` was below `parent`, or at the root. -/
def relink (s : Tree κ) (parent : Option Nat) (p : Nat) (q : Option Nat) : Tree κ :=
  match parent with
  | some g => if s.left g = some p then s.setChild .left g q else s.setChild .right g q
  | none => { s with root := q }

/-- `TREE__ROTATE`. -/
def rotate (s : Tree κ) (cis : Side) (p : Nat) : Option (Tree κ) := do
  let q ← s.child cis.flip p
  let parent := s.parent p
  let s := s.relink parent p (some q)
  let s := s.setParent q parent
  let s := s.setParent p (some q)
  let s := s.setChild cis.flip p (s.child cis q)
  let s := s.setParentOf (s.child cis.flip p) (some p)
  return s.setChild cis q (some p)

section Order

variable [LinearOrder κ]

/-- `tree_find`. -/
def find (s : Tree κ) (k : κ) : Nat → Option Nat → Option (Option Nat)
  | _, none => some none
  | 0, some _ => none
  | n + 1, some node =>
      if k < s.key node then s.find k n (s.left node)
      else if s.key node < k then s.find k n (s.right node)
      else some (some node)

/-- The first loop of `tree_add`: where the node goes, unless its key is there already. -/
def descend (s : Tree κ) (k : κ) : Nat → Nat → Option (Option (Nat × Side))
  | 0, _ => none
  | n + 1, parent =>
      if k < s.key parent then
        match s.left parent with
        | some i => s.descend k n i
        | none => some (some (parent, .left))
      else if s.key parent < k then
        match s.right parent with
        | some i => s.descend k n i
        | none => some (some (parent, .right))
      else some none

end Order

/-- The fields of a node that was inserted. -/
def initNode (s : Tree κ) (node : Nat) (k : κ) (parent : Option Nat) : Tree κ :=
  { s with
    key := Function.update s.key node k
    left := Function.update s.left node none
    right := Function.update s.right node none
    parent := Function.update s.parent node parent
    red := Function.update s.red node true }

/-- The rotation of the parent in `TREE__REBALANCE_AFTER_INSERT`; what becomes of `node` and
`parent`. -/
def turnParent (s : Tree κ) (cis : Side) (node parent : Nat) : Option (Tree κ × Nat × Nat) :=
  if some node = s.child cis.flip parent then do
    let s ← s.rotate cis parent
    let q ← s.parent parent
    return (s, parent, q)
  else some (s, node, parent)

/-- `TREE__REBALANCE_AFTER_INSERT`, and what becomes of `node`. -/
def rebalanceAfterInsert (s : Tree κ) (cis : Side) (node parent : Nat) :
    Option (Tree κ × Nat) := do
  let grandparent ← s.parent parent
  match s.child cis.flip grandparent, s.redAt (s.child cis.flip grandparent) with
  | some uncle, true =>
      return (((s.setRed uncle false).setRed parent false).setRed grandparent true, grandparent)
  | _, _ => do
      let (s, node, parent) ← s.turnParent cis node parent
      let s ← ((s.setRed parent false).setRed grandparent true).rotate cis.flip grandparent
      return (s, node)

/-- The second loop of `tree_add`. -/
def insertLoop : Nat → Tree κ → Nat → Option Nat → Option (Tree κ)
  | _, s, _, none => some s
  | n, s, node, some parent =>
      if s.red parent then
        match n with
        | 0 => none
        | n + 1 => do
            let grandparent ← s.parent parent
            let cis := if some parent = s.left grandparent then Side.left else .right
            let (s, node) ← s.rebalanceAfterInsert cis node parent
            insertLoop n s node (s.parent node)
      else some s

/-- The end of `tree_add`. -/
def addEnd (s : Tree κ) (turns node : Nat) (parent : Option Nat) : Option (Tree κ) := do
  let s ← insertLoop turns s node parent
  let root ← s.root
  return s.setRed root false

/-- `tree_add`, and whether it returns zero. -/
def add [LinearOrder κ] (s : Tree κ) (turns node : Nat) (k : κ) : Option (Tree κ × Bool) :=
  match s.root with
  | some root => do
      match ← s.descend k turns root with
      | none => return (s, false)
      | some (parent, side) =>
          let s := (s.setChild side parent (some node)).initNode node k (some parent)
          return (← s.addEnd turns node (some parent), true)
  | none => do
      let s := { s with root := some node }.initNode node k none
      return (← s.addEnd turns node none, true)

/-- The beginning of `TREE__REBALANCE_AFTER_REMOVE`: a red sibling goes above the parent. -/
def raiseSibling (s : Tree κ) (cis : Side) (parent : Nat) : Option (Tree κ × Nat) := do
  let sibling ← s.child cis.flip parent
  if s.red sibling then do
    let s ← ((s.setRed sibling false).setRed parent true).rotate cis parent
    return (s, ← s.child cis.flip parent)
  else return (s, sibling)

/-- The rotation of the sibling in `TREE__REBALANCE_AFTER_REMOVE`. -/
def turnSibling (s : Tree κ) (cis : Side) (parent sibling : Nat) : Option (Tree κ × Nat) :=
  if s.redAt (s.child cis.flip sibling) then some (s, sibling)
  else do
    let near ← s.child cis sibling
    let s ← ((s.setRed near false).setRed sibling true).rotate cis.flip sibling
    return (s, ← s.child cis.flip parent)

/-- The rest of `TREE__REBALANCE_AFTER_REMOVE`, and whether it leaves the loop. -/
def reorderSibling (s : Tree κ) (cis : Side) (parent sibling : Nat) : Option (Tree κ × Bool) :=
  if s.redAt (s.left sibling) || s.redAt (s.right sibling) then do
    let (s, sibling) ← s.turnSibling cis parent sibling
    let s := s.setRed sibling (s.red parent)
    let far ← s.child cis.flip sibling
    return (← ((s.setRed far false).setRed parent false).rotate cis parent, true)
  else some (s.setRed sibling true, false)

/-- `TREE__REBALANCE_AFTER_REMOVE`. -/
def rebalanceAfterRemove (s : Tree κ) (cis : Side) (parent : Nat) : Option (Tree κ × Bool) := do
  let (s, sibling) ← s.raiseSibling cis parent
  s.reorderSibling cis parent sibling

/-- The loop of `tree_del`, and `node` at its end. -/
def deleteLoop : Nat → Tree κ → Option Nat → Option Nat → Option (Tree κ × Option Nat)
  | 0, _, _, _ => none
  | n + 1, s, node, parent =>
      if node = s.root then some (s, node)
      else do
        let p ← parent
        let cis := if node = s.left p then Side.left else .right
        match ← s.rebalanceAfterRemove cis p with
        | (s, true) => return (s, s.root)
        | (s, false) => if s.red p then return (s, some p) else deleteLoop n s (some p) (s.parent p)

/-- The end of `tree_del`. -/
def delEnd (s : Tree κ) (turns : Nat) (red : Bool) (node parent : Option Nat) :
    Option (Tree κ) :=
  let s := s.setParentOf node parent
  if red then some s
  else
    if s.redAt node then some (s.setRedOf node false)
    else do
      let (s, node) ← deleteLoop turns s node parent
      return s.setRedOf node false

/-- The leftmost node below a node. -/
def leftmost (s : Tree κ) : Nat → Nat → Option Nat
  | 0, _ => none
  | n + 1, next =>
      match s.left next with
      | none => some next
      | some i => s.leftmost n i

/-- `tree_del`. -/
def del (s : Tree κ) (turns node : Nat) : Option (Tree κ) :=
  let parent := s.parent node
  match s.left node, s.right node with
  | some left, some right => do
      let next ← s.leftmost turns right
      let s := s.relink parent node (some next)
      let red := s.red next
      let s := s.setRed next (s.red node)
      let s := s.setChild .left next (some left)
      let s := s.setParent left (some next)
      if next ≠ right then do
        let p ← s.parent next
        let s := s.setParent next (s.parent node)
        let child := s.right next
        let s := s.setChild .left p child
        let s := s.setChild .right next (some right)
        let s := s.setParent right (some next)
        s.delEnd turns red child (some p)
      else
        let s := s.setParent next parent
        s.delEnd turns red (s.right next) (some next)
  | none, right => (s.relink parent node right).delEnd turns (s.red node) right parent
  | left, none => (s.relink parent node left).delEnd turns (s.red node) left parent

end Tree

end Ztk.Wepoll
