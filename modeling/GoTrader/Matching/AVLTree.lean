import GoTrader.Matching.Level

/-!
# The AVL tree of price levels

`avltree.go` as a functional program over the tree's shape:

* `Tree` — the node structure: `Left`, the node's address, its stored `Balance`, `Right`. A
  `Parent` pointer is the node above in this structure, so it is implicit.
* `AVLTree` — `root`, `size` and `descending`, with `compare`, `find`, `first`, `insert` and
  `remove`.
* Go's loops that walk up the `Parent` chain (`rebalanceInsert`, `rebalanceRemove`) become the
  return path of a recursion down to the changed node: each call returns the rebuilt subtree
  and whether the loop goes on at the parent (`fixInsert`, `fixRemove` are one loop iteration).
* A nil dereference (`rebalance` on a missing child, a rotation without a pivot) is a Go panic
  and returns `none`.
* `remove`'s two-child case copies the successor's `Level` and `OrderList` into the removed
  node and repoints their orders (`Heap.moveLevel`), then detaches the successor node.

Node payloads (prices) are read from the heap through `price : Nat → UInt64`.
-/

namespace GoTrader.Matching

/-- The shape of an AVL tree: children, node address and stored balance factor.
Source: `avltree.go` (`LevelNode`'s `Left`, `Right`, `Balance`)
Kind: D
Fidelity: exact; `Parent` is implicit -/
inductive Tree where
  | nil
  | node (left : Tree) (id : Nat) (balance : Int) (right : Tree)
deriving DecidableEq, Repr, Inhabited

/-- An AVL tree of level nodes.
Source: `avltree.go` `AVLTree`
Kind: D
Fidelity: exact -/
structure AVLTree where
  root : Tree
  size : Int
  descending : Bool
deriving DecidableEq, Repr, Inhabited

namespace AVLTree

/-- Source: `avltree.go` `NewAVLTree`. Kind: D. Fidelity: exact -/
def newAVLTree (descending : Bool) : AVLTree := ⟨.nil, 0, descending⟩

/-- The order of the tree: `-1` when `a` comes first.
Source: `avltree.go` `(*AVLTree).compare`
Kind: D
Fidelity: exact -/
def compare (descending : Bool) (a b : UInt64) : Int :=
  if descending then
    if a > b then -1 else if a < b then 1 else 0
  else
    if a < b then -1 else if a > b then 1 else 0

end AVLTree

namespace Tree

/-- The in-order sequence of node addresses. Source: none: infrastructure. Kind: D -/
def ids : Tree → List Nat
  | nil => []
  | node l x _ r => l.ids ++ x :: r.ids

/-- Source: `avltree.go` `(*AVLTree).height`. Kind: D. Fidelity: exact -/
def height : Tree → Int
  | nil => 0
  | node l _ _ r => if height l > height r then height l + 1 else height r + 1

/-- The stored balance of a subtree's root (`node.Balance`). Source: `avltree.go`. Kind: D -/
def balance : Tree → Int
  | nil => 0
  | node _ _ b _ => b

/-- Level lookup by price.
Source: `avltree.go` `(*AVLTree).Find`
Kind: D
Fidelity: exact -/
def find (price : Nat → UInt64) (descending : Bool) (p : UInt64) : Tree → Option Nat
  | nil => none
  | node l x _ r =>
    if p = price x then some x
    else if AVLTree.compare descending p (price x) < 0 then find price descending p l
    else find price descending p r

/-- The leftmost node.
Source: `avltree.go` `(*AVLTree).First`
Kind: D
Fidelity: exact -/
def first : Tree → Option Nat
  | nil => none
  | node nil x _ _ => some x
  | node l _ _ _ => first l

/-- Left rotation with the balance-factor update; no pivot is a nil dereference.
Source: `avltree.go` `(*AVLTree).rotateLeft`
Kind: D
Fidelity: exact -/
def rotateLeft : Tree → Option Tree
  | node a x bn (node b y bp c) =>
    let bn' := bn - 1 - max 0 bp
    some (node (node a x bn' b) y (bp - 1 + min 0 bn') c)
  | _ => none

/-- Right rotation with the balance-factor update; no pivot is a nil dereference.
Source: `avltree.go` `(*AVLTree).rotateRight`
Kind: D
Fidelity: exact -/
def rotateRight : Tree → Option Tree
  | node (node a y bp b) x bn c =>
    let bn' := bn + 1 - min 0 bp
    some (node a y (bp + 1 + max 0 bn') (node b x bn' c))
  | _ => none

/-- Single or double rotation at a node whose stored balance is `±2`.
Source: `avltree.go` `(*AVLTree).rebalance`
Kind: D
Fidelity: exact -/
def rebalance : Tree → Option Tree
  | nil => none
  | t@(node l x b r) =>
    if b = -2 then
      match l with
      | nil => none
      | node _ _ lb _ =>
        if lb ≤ 0 then t.rotateRight
        else do
          let l' ← l.rotateLeft
          (node l' x b r).rotateRight
    else if b = 2 then
      match r with
      | nil => none
      | node _ _ rb _ =>
        if rb ≥ 0 then t.rotateLeft
        else do
          let r' ← r.rotateRight
          (node l x b r').rotateLeft
    else some t

/-- One iteration of `rebalanceInsert` at a node whose balance was just adjusted; the flag
says whether the loop goes on at the parent.
Source: `avltree.go` `(*AVLTree).rebalanceInsert` (loop body)
Kind: D
Fidelity: exact -/
def fixInsert : Tree → Option (Tree × Bool)
  | nil => none
  | t@(node _ _ b _) =>
    if b = 0 then some (t, false)
    else if b = -2 ∨ b = 2 then do
      let t' ← t.rebalance
      some (t', false)
    else some (t, true)

/-- `Insert`'s descent by `compare`, attaching `level` at a nil child, and the
`rebalanceInsert` walk back up.
Source: `avltree.go` `(*AVLTree).Insert`, `rebalanceInsert`
Kind: D
Fidelity: exact -/
def insertAux (price : Nat → UInt64) (descending : Bool) (level : Nat) :
    Tree → Option (Tree × Bool)
  | nil => some (node nil level 0 nil, true)
  | node l x b r =>
    if AVLTree.compare descending (price level) (price x) < 0 then do
      let (l', grew) ← insertAux price descending level l
      if grew then fixInsert (node l' x (b - 1) r) else some (node l' x b r, false)
    else do
      let (r', grew) ← insertAux price descending level r
      if grew then fixInsert (node l x (b + 1) r') else some (node l x b r', false)

/-- One iteration of `rebalanceRemove`: recompute the balance from the heights, rotate at `±2`;
the flag says whether the loop goes on at the parent.
Source: `avltree.go` `(*AVLTree).rebalanceRemove` (loop body)
Kind: D
Fidelity: exact -/
def fixRemove : Tree → Option (Tree × Bool)
  | nil => none
  | node l x oldBalance r =>
    let t := node l x (height r - height l) r
    if height r - height l = -2 ∨ height r - height l = 2 then do
      let t' ← t.rebalance
      some (t', !(t'.balance = -1 ∨ t'.balance = 1))
    else some (t, oldBalance ≠ 0)

/-- Detach the leftmost node of a non-empty subtree (the successor), splicing in its right
child, and run `rebalanceRemove` from its parent up; returns the successor's address.
Source: `avltree.go` `(*AVLTree).Remove` (two-child case)
Kind: D
Fidelity: exact -/
def removeMin : Tree → Option (Tree × Nat × Bool)
  | nil => none
  | node nil s _ r => some (r, s, true)
  | node l x b r => do
    let (l', s, cont) ← removeMin l
    if cont then do
      let (t', c) ← fixRemove (node l' x b r)
      some (t', s, c)
    else some (node l' x b r, s, false)

/-- Unlink the node `level`: splice in its only child, or (two children) detach its successor,
whose address is returned so that its payload can be moved into `level`; then run
`rebalanceRemove` from the parent up. A node that is not in the tree returns `none` (Go would
relink through its stale `Parent`).
Source: `avltree.go` `(*AVLTree).Remove`
Kind: D
Fidelity: exact for nodes in the tree -/
def removeAux (level : Nat) : Tree → Option (Tree × Bool × Option Nat)
  | nil => none
  | node l x b r =>
    if x = level then
      match l, r with
      | nil, r => some (r, true, none)
      | l, nil => some (l, true, none)
      | l, r => do
        let (r', s, cont) ← removeMin r
        if cont then do
          let (t', c) ← fixRemove (node l x b r')
          some (t', c, some s)
        else some (node l x b r', false, some s)
    else if level ∈ l.ids then do
      let (l', cont, s) ← removeAux level l
      if cont then do
        let (t', c) ← fixRemove (node l' x b r)
        some (t', c, s)
      else some (node l' x b r, false, s)
    else do
      let (r', cont, s) ← removeAux level r
      if cont then do
        let (t', c) ← fixRemove (node l x b r')
        some (t', c, s)
      else some (node l x b r', false, s)

end Tree

/-- Move the payload of level node `s` into level node `l` and repoint `s`'s orders to `l`.
Source: `avltree.go` `(*AVLTree).Remove` (`level.Level = successor.Level`,
`level.OrderList = successor.OrderList`, and the loop setting `order.Level = level`)
Kind: D
Fidelity: exact -/
def Heap.moveLevel (h : Heap) (s l : Nat) : Heap :=
  { h with
    levelNodes := Function.update h.levelNodes l (h.levelNodes s)
    orderNodes := fun a =>
      if a ∈ (h.levelNodes s).orderList.nodes then { h.orderNodes a with level := some l }
      else h.orderNodes a }

namespace AVLTree

/-- Source: `avltree.go` `(*AVLTree).First`. Kind: D. Fidelity: exact -/
def first (t : AVLTree) : Option Nat := t.root.first

/-- Source: `avltree.go` `(*AVLTree).Find`. Kind: D. Fidelity: exact -/
def find (t : AVLTree) (price : Nat → UInt64) (p : UInt64) : Option Nat :=
  t.root.find price t.descending p

/-- Source: `avltree.go` `(*AVLTree).Insert`. Kind: D. Fidelity: exact -/
def insert (t : AVLTree) (price : Nat → UInt64) (level : Nat) : Option AVLTree :=
  match t.root with
  | .nil => some { t with root := .node .nil level 0 .nil, size := t.size + 1 }
  | root => do
    let (root', _) ← root.insertAux price t.descending level
    some { t with root := root', size := t.size + 1 }

/-- Remove a level node given by pointer (`nil` is a no-op).
Source: `avltree.go` `(*AVLTree).Remove`
Kind: D
Fidelity: exact for nodes in the tree -/
def remove (t : AVLTree) (h : Heap) : Option Nat → Option (AVLTree × Heap)
  | none => some (t, h)
  | some level => do
    let (root', _, succ) ← t.root.removeAux level
    let h' := match succ with
      | none => h
      | some s => h.moveLevel s level
    some ({ t with root := root', size := t.size - 1 }, h')

end AVLTree

end GoTrader.Matching
