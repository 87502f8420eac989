import GoTrader.Matching.AVLMap

/-!
# `avltree.go` with its pointer fields

The same code as `AVLTree.lean`, translated statement by statement over the level nodes'
`Left`, `Right`, `Parent` and `Balance` fields, which `Tree` leaves implicit:

* `Links`, `PTree` — the four fields by node address, and the tree's `root`, `size` and
  `descending`; `setLeft`, `setRight`, `setParent`, `setBalance` are Go's field writes, and
  `replaceChild` and `reparent` the two write patterns the file repeats;
* `loop` — a Go `for` loop, run for at most `fuel` iterations; `loop_mono` (more fuel gives the
  same result) and `loop_of_rank` (a loop whose invariant has a rank that every iteration lowers
  ends in the postcondition) are proved once for the four loops of the file;
* `PTree.rotateLeft`, `rotateRight`, `rebalance`, `height`, `rebalanceInsert`, `rebalanceRemove`,
  `insert`, `remove` — the Go functions; a nil dereference is `none`, as in `AVLTree.lean`;
* `PTree.treeStep`, `PTreeReachable` — `Insert` of a fresh `NewLevelNode`, whose tree fields are
  zero, and `Remove`, as `AVLMap.lean` has them, with the loops run to completion.
-/

namespace GoTrader.Matching

/-! ## Fuelled loops -/

/-- A Go `for` loop run for at most `fuel` iterations: the body goes on with a new state
(`.inl`) or leaves the loop with a result (`.inr`); `none` is a panic, or the fuel run out.
Source: none: the semantics of Go's `for` with `break`
Kind: D -/
def loop {σ α : Type} (body : σ → Option (σ ⊕ α)) : Nat → σ → Option α
  | 0, _ => none
  | n + 1, s =>
    match body s with
    | none => none
    | some (.inl s') => loop body n s'
    | some (.inr a) => some a

/-- A loop that ends with some fuel ends the same way with more, also when its body is replaced
by one that does at least as much.
Source: none
Kind: L -/
theorem loop_mono {σ α : Type} {body body' : σ → Option (σ ⊕ α)}
    (hb : ∀ s r, body s = some r → body' s = some r) :
    ∀ {n : Nat} {s : σ} {a : α} (k : Nat), loop body n s = some a → loop body' (n + k) s = some a
  | 0, _, _, _, h => nomatch h
  | n + 1, s, a, k, h => by
    rw [Nat.add_right_comm]
    simp only [loop] at h ⊢
    rcases e : body s with _ | _ | _
    · rw [e] at h; cases h
    · rw [e] at h; rw [hb s _ e]; exact loop_mono hb k h
    · rw [e] at h; rw [hb s _ e]; exact h

/-- The loop rule: an invariant `I k` ranked by `k`, which every iteration that goes on lowers
and every iteration that leaves turns into `Q`, makes the loop end in `Q` once it has more fuel
than the rank.
Source: none
Kind: L -/
theorem loop_of_rank {σ α : Type} {body : σ → Option (σ ⊕ α)} {I : Nat → σ → Prop}
    {Q : α → Prop}
    (hb : ∀ k s, I k s → (∃ s', body s = some (.inl s') ∧ ∃ k' < k, I k' s') ∨
      ∃ a, body s = some (.inr a) ∧ Q a) :
    ∀ {n k : Nat} {s : σ}, I k s → k < n → ∃ a, loop body n s = some a ∧ Q a
  | 0, _, _, _, hk => absurd hk (Nat.not_lt_zero _)
  | n + 1, k, s, hI, hk => by
    rcases hb k s hI with ⟨s', e, k', hk', hI'⟩ | ⟨a, e, ha⟩
    · simp only [loop, e]
      exact loop_of_rank hb hI' (by omega)
    · exact ⟨a, by simp only [loop, e], ha⟩

/-! ## The pointer fields -/

/-- A level node's tree fields; `default` is a fresh `NewLevelNode`'s (all `nil` and `0`).
Source: `level.go` `LevelNode` (`Left`, `Right`, `Parent`, `Balance`)
Kind: D
Fidelity: exact; `nil` is `none` -/
structure Links where
  left : Option Nat
  right : Option Nat
  parent : Option Nat
  balance : Int
deriving DecidableEq, Repr, Inhabited

/-- An AVL tree over the level nodes' pointer fields.
Source: `avltree.go` `AVLTree`, with the tree fields of `level.go` `LevelNode` by address
Kind: D
Fidelity: exact -/
structure PTree where
  root : Option Nat
  size : Int
  descending : Bool
  links : Nat → Links

namespace PTree

/-- Source: `avltree.go` `NewAVLTree` (no node has been linked yet). Kind: D. Fidelity: exact -/
def newAVLTree (descending : Bool) (links : Nat → Links) : PTree := ⟨none, 0, descending, links⟩

/-- `x.Left = v`. Source: `avltree.go`. Kind: D -/
def setLeft (t : PTree) (x : Nat) (v : Option Nat) : PTree :=
  { t with links := Function.update t.links x { t.links x with left := v } }

/-- `x.Right = v`. Source: `avltree.go`. Kind: D -/
def setRight (t : PTree) (x : Nat) (v : Option Nat) : PTree :=
  { t with links := Function.update t.links x { t.links x with right := v } }

/-- `x.Parent = v`. Source: `avltree.go`. Kind: D -/
def setParent (t : PTree) (x : Nat) (v : Option Nat) : PTree :=
  { t with links := Function.update t.links x { t.links x with parent := v } }

/-- `x.Balance = v`. Source: `avltree.go`. Kind: D -/
def setBalance (t : PTree) (x : Nat) (v : Int) : PTree :=
  { t with links := Function.update t.links x { t.links x with balance := v } }

/-- `if c != nil { c.Parent = p }`.
Source: `avltree.go` (`rotateLeft`, `rotateRight`, `Remove`)
Kind: D -/
def reparent (t : PTree) (c p : Option Nat) : PTree :=
  match c with
  | some c => t.setParent c p
  | none => t

/-- Make the link from `parent` to its child `old` (the root, when `parent` is nil) point to
`new`: `if parent == nil { t.root = new } else if parent.Left == old { parent.Left = new } else
{ parent.Right = new }`.
Source: `avltree.go` (`rotateLeft`, `rotateRight`, `Remove`)
Kind: D -/
def replaceChild (t : PTree) (parent : Option Nat) (old : Nat) (new : Option Nat) : PTree :=
  match parent with
  | none => { t with root := new }
  | some p => if (t.links p).left = some old then t.setLeft p new else t.setRight p new

section Fields

variable (t : PTree) (x y : Nat)

@[simp] theorem setLeft_root (v : Option Nat) : (t.setLeft x v).root = t.root := rfl
@[simp] theorem setRight_root (v : Option Nat) : (t.setRight x v).root = t.root := rfl
@[simp] theorem setParent_root (v : Option Nat) : (t.setParent x v).root = t.root := rfl
@[simp] theorem setBalance_root (v : Int) : (t.setBalance x v).root = t.root := rfl
@[simp] theorem setLeft_size (v : Option Nat) : (t.setLeft x v).size = t.size := rfl
@[simp] theorem setRight_size (v : Option Nat) : (t.setRight x v).size = t.size := rfl
@[simp] theorem setParent_size (v : Option Nat) : (t.setParent x v).size = t.size := rfl
@[simp] theorem setBalance_size (v : Int) : (t.setBalance x v).size = t.size := rfl
@[simp] theorem setLeft_descending (v : Option Nat) :
    (t.setLeft x v).descending = t.descending := rfl
@[simp] theorem setRight_descending (v : Option Nat) :
    (t.setRight x v).descending = t.descending := rfl
@[simp] theorem setParent_descending (v : Option Nat) :
    (t.setParent x v).descending = t.descending := rfl
@[simp] theorem setBalance_descending (v : Int) :
    (t.setBalance x v).descending = t.descending := rfl

theorem setLeft_links (v : Option Nat) :
    (t.setLeft x v).links y = if y = x then { t.links x with left := v } else t.links y :=
  Function.update_apply _ _ _ _

theorem setRight_links (v : Option Nat) :
    (t.setRight x v).links y = if y = x then { t.links x with right := v } else t.links y :=
  Function.update_apply _ _ _ _

theorem setParent_links (v : Option Nat) :
    (t.setParent x v).links y = if y = x then { t.links x with parent := v } else t.links y :=
  Function.update_apply _ _ _ _

theorem setBalance_links (v : Int) :
    (t.setBalance x v).links y = if y = x then { t.links x with balance := v } else t.links y :=
  Function.update_apply _ _ _ _

end Fields

/-! ## Rotations and `height` -/

/-- Left rotation at `node`, returning the pivot that takes its place.
Source: `avltree.go` `(*AVLTree).rotateLeft`
Kind: D
Fidelity: exact; a nil `node.Right` is a nil dereference -/
def rotateLeft (t : PTree) (node : Nat) : Option (PTree × Nat) := do
  let pivot ← (t.links node).right
  let parent := (t.links node).parent
  let t := t.setRight node (t.links pivot).left
  let t := t.reparent (t.links node).right (some node)
  let t := t.setLeft pivot (some node)
  let t := t.setParent node (some pivot)
  let t := t.setParent pivot parent
  let t := t.replaceChild parent node (some pivot)
  let t := t.setBalance node ((t.links node).balance - 1 - max 0 (t.links pivot).balance)
  let t := t.setBalance pivot ((t.links pivot).balance - 1 + min 0 (t.links node).balance)
  some (t, pivot)

/-- Right rotation at `node`, returning the pivot that takes its place.
Source: `avltree.go` `(*AVLTree).rotateRight`
Kind: D
Fidelity: exact; a nil `node.Left` is a nil dereference -/
def rotateRight (t : PTree) (node : Nat) : Option (PTree × Nat) := do
  let pivot ← (t.links node).left
  let parent := (t.links node).parent
  let t := t.setLeft node (t.links pivot).right
  let t := t.reparent (t.links node).left (some node)
  let t := t.setRight pivot (some node)
  let t := t.setParent node (some pivot)
  let t := t.setParent pivot parent
  let t := t.replaceChild parent node (some pivot)
  let t := t.setBalance node ((t.links node).balance + 1 - min 0 (t.links pivot).balance)
  let t := t.setBalance pivot ((t.links pivot).balance + 1 + max 0 (t.links node).balance)
  some (t, pivot)

/-- Single or double rotation at a node whose balance is `±2`; returns the subtree's new root.
Source: `avltree.go` `(*AVLTree).rebalance`
Kind: D
Fidelity: exact; a nil child read for its `Balance` is a nil dereference -/
def rebalance (t : PTree) (node : Nat) : Option (PTree × Nat) :=
  if (t.links node).balance = -2 then do
    let l ← (t.links node).left
    if (t.links l).balance ≤ 0 then t.rotateRight node
    else do
      let (t, _) ← t.rotateLeft l
      t.rotateRight node
  else if (t.links node).balance = 2 then do
    let r ← (t.links node).right
    if (t.links r).balance ≥ 0 then t.rotateLeft node
    else do
      let (t, _) ← t.rotateRight r
      t.rotateLeft node
  else some (t, node)

/-- The height of the subtree at a pointer, recursing at most `fuel` levels deep.
Source: `avltree.go` `(*AVLTree).height`
Kind: D
Fidelity: exact, with fuel for Go's recursion -/
def height (t : PTree) : Nat → Option Nat → Option Int
  | _, none => some 0
  | 0, some _ => none
  | n + 1, some x => do
    let leftHeight ← t.height n (t.links x).left
    let rightHeight ← t.height n (t.links x).right
    some (if leftHeight > rightHeight then leftHeight + 1 else rightHeight + 1)

/-! ## `Insert` -/

/-- One iteration of `rebalanceInsert`'s loop over `(t, node, parent, isLeft)`.
Source: `avltree.go` `(*AVLTree).rebalanceInsert` (loop body)
Kind: D
Fidelity: exact -/
def rebalanceInsertBody (s : PTree × Nat × Option Nat × Bool) :
    Option ((PTree × Nat × Option Nat × Bool) ⊕ PTree) :=
  match s with
  | (t, _, none, _) => some (.inr t)
  | (t, _, some parent, isLeft) =>
    let t := t.setBalance parent
      (if isLeft then (t.links parent).balance - 1 else (t.links parent).balance + 1)
    if (t.links parent).balance = 0 then some (.inr t)
    else if (t.links parent).balance = -2 ∨ (t.links parent).balance = 2 then
      (t.rebalance parent).map fun r => .inr r.1
    else
      let node := parent
      let parent := (t.links node).parent
      let isLeft := match parent with
        | some p => decide ((t.links p).left = some node)
        | none => isLeft
      some (.inl (t, node, parent, isLeft))

/-- Source: `avltree.go` `(*AVLTree).rebalanceInsert`. Kind: D. Fidelity: exact, with fuel -/
def rebalanceInsert (t : PTree) (fuel node : Nat) (parent : Option Nat) (isLeft : Bool) :
    Option PTree :=
  loop rebalanceInsertBody fuel (t, node, parent, isLeft)

/-- One iteration of `Insert`'s descent over `(t, parent)`: attach `level` at a nil child, or
go down.
Source: `avltree.go` `(*AVLTree).Insert` (the `for` loop)
Kind: D
Fidelity: exact -/
def insertBody (price : Nat → UInt64) (level : Nat) (s : PTree × Nat) :
    Option ((PTree × Nat) ⊕ (PTree × Nat × Bool)) :=
  match s with
  | (t, parent) =>
    if AVLTree.compare t.descending (price level) (price parent) < 0 then
      match (t.links parent).left with
      | none => some (.inr ((t.setLeft parent (some level)).setParent level (some parent),
          parent, true))
      | some l => some (.inl (t, l))
    else
      match (t.links parent).right with
      | none => some (.inr ((t.setRight parent (some level)).setParent level (some parent),
          parent, false))
      | some r => some (.inl (t, r))

/-- Source: `avltree.go` `(*AVLTree).Insert`. Kind: D. Fidelity: exact, with fuel -/
def insert (t : PTree) (price : Nat → UInt64) (fuel level : Nat) : Option PTree :=
  match t.root with
  | none => some { t with root := some level, size := t.size + 1 }
  | some root => do
    let (t, parent, isLeft) ← loop (insertBody price level) fuel (t, root)
    let t := { t with size := t.size + 1 }
    t.rebalanceInsert fuel level (some parent) isLeft

/-! ## `Remove` -/

/-- One iteration of `rebalanceRemove`'s loop over `(t, node)`.
Source: `avltree.go` `(*AVLTree).rebalanceRemove` (loop body)
Kind: D
Fidelity: exact, with fuel for `height` -/
def rebalanceRemoveBody (fuel : Nat) (s : PTree × Option Nat) :
    Option ((PTree × Option Nat) ⊕ PTree) :=
  match s with
  | (t, none) => some (.inr t)
  | (t, some node) => do
    let oldBalance := (t.links node).balance
    let leftHeight ← t.height fuel (t.links node).left
    let rightHeight ← t.height fuel (t.links node).right
    let t := t.setBalance node (rightHeight - leftHeight)
    if (t.links node).balance = -2 ∨ (t.links node).balance = 2 then do
      let (t, node) ← t.rebalance node
      if (t.links node).balance = -1 ∨ (t.links node).balance = 1 then some (.inr t)
      else some (.inl (t, (t.links node).parent))
    else if oldBalance = 0 then some (.inr t)
    else some (.inl (t, (t.links node).parent))

/-- Source: `avltree.go` `(*AVLTree).rebalanceRemove`. Kind: D. Fidelity: exact, with fuel -/
def rebalanceRemove (t : PTree) (fuel : Nat) (node : Option Nat) : Option PTree :=
  loop (rebalanceRemoveBody fuel) fuel (t, node)

/-- One iteration of `for successor.Left != nil { successor = successor.Left }`.
Source: `avltree.go` `(*AVLTree).Remove`
Kind: D
Fidelity: exact -/
def successorBody (t : PTree) (successor : Nat) : Option (Nat ⊕ Nat) :=
  match (t.links successor).left with
  | some l => some (.inl l)
  | none => some (.inr successor)

/-- Unlink the node `level` whose children are not both set: `replacement` takes its place
under `parent`, then `rebalanceRemove` runs from `parent`.
Source: `avltree.go` `(*AVLTree).Remove` (after the case split)
Kind: D
Fidelity: exact -/
def splice (t : PTree) (fuel level : Nat) (replacement parent : Option Nat) : Option PTree :=
  let t := t.replaceChild parent level replacement
  let t := t.reparent replacement parent
  let t := { t with size := t.size - 1 }
  match parent with
  | some _ => t.rebalanceRemove fuel parent
  | none => some t

/-- Remove a level node given by pointer (`nil` is a no-op). With two children, the successor's
payload moves into `level` (`Heap.moveLevel`, as in `AVLTree.remove`) and the successor's node is
unlinked.
Source: `avltree.go` `(*AVLTree).Remove`
Kind: D
Fidelity: exact, with fuel -/
def remove (t : PTree) (h : Heap) (fuel : Nat) : Option Nat → Option (PTree × Heap)
  | none => some (t, h)
  | some level =>
    match (t.links level).left, (t.links level).right with
    | none, none => (t.splice fuel level none (t.links level).parent).map (·, h)
    | none, some r => (t.splice fuel level (some r) (t.links level).parent).map (·, h)
    | some l, none => (t.splice fuel level (some l) (t.links level).parent).map (·, h)
    | some _, some r => do
      let successor ← loop t.successorBody fuel r
      let h := h.moveLevel successor level
      let (t, parent) ← if (t.links successor).parent = some level then
          let t := t.setRight level (t.links successor).right
          some (t.reparent (t.links successor).right (some level), level)
        else do
          let sp ← (t.links successor).parent
          let t := t.setLeft sp (t.links successor).right
          some (t.reparent (t.links successor).right (some sp), sp)
      let t := { t with size := t.size - 1 }
      let t ← t.rebalanceRemove fuel (some parent)
      some (t, h)

/-! ## Runs -/

/-- The nodes reachable from a pointer along `Left` and `Right`.
Source: none: what "a node of the tree" means over pointers
Kind: D -/
inductive Reaches (links : Nat → Links) : Option Nat → Nat → Prop where
  | here (x : Nat) : Reaches links (some x) x
  | left {x y : Nat} : Reaches links (links x).left y → Reaches links (some x) y
  | right {x y : Nat} : Reaches links (links x).right y → Reaches links (some x) y

/-- One call, run with `fuel` iterations per loop: `Insert(NewLevelNode(...))` allocates the
node at the next address with zero tree fields; `Remove` takes a node.
Source: `avltree.go` `(*AVLTree).Insert`, `Remove`; `level.go` `NewLevelNode`
Kind: D -/
def treeStep (fuel : Nat) (s : PTree × Heap) : TreeOp → Option (PTree × Heap)
  | .insert n =>
    let t := { s.1 with links := Function.update s.1.links s.2.next default }
    (t.insert (s.2.allocLevel n).price fuel s.2.next).map (·, s.2.allocLevel n)
  | .remove level => s.1.remove s.2 fuel (some level)

/-- The calls the tree's users make: `Insert` of a price that no node reachable from the root
holds, `Remove` of a node reachable from the root.
Source: `orderbook.go` (`AddLevel` after `Find` fails; `DeleteLevel` of an order's level)
Kind: D -/
def Admissible (s : PTree × Heap) : TreeOp → Prop
  | .insert n => ∀ x, Reaches s.1.links s.1.root x → s.2.price x ≠ n.level.price
  | .remove level => Reaches s.1.links s.1.root level

end PTree

/-- The pointer trees reached from `NewAVLTree(d)`, over any heap and any prior contents of the
nodes' fields, by admissible calls that run to completion.
Source: none: the run semantics
Kind: D -/
inductive PTreeReachable (d : Bool) : PTree × Heap → Prop where
  | init (links : Nat → Links) (h : Heap) : PTreeReachable d (PTree.newAVLTree d links, h)
  | step {s s' : PTree × Heap} {op : TreeOp} (fuel : Nat) :
      PTreeReachable d s → PTree.Admissible s op → PTree.treeStep fuel s op = some s' →
      PTreeReachable d s'

end GoTrader.Matching
