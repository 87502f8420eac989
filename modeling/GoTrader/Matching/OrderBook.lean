import GoTrader.Matching.AVLTree

/-!
# The order book

`orderbook.go`: a book keeps six AVL trees of levels and a cached best pointer for each.

* `LevelIndex` names the six trees. The source's six-way branches (`AddLevel`, `DeleteLevel`,
  `AddOrder`) differ only in which tree and pointer they use, the level type, and the strict
  comparison that decides a new best level; those per-tree values are `LevelIndex.descending`,
  `LevelIndex.levelType` and `LevelIndex.improves`, and the branch an order takes is
  `LevelIndex.ofOrder` with the price `routingPrice`.
* `OrderBook.addLevel`, `deleteLevel`, `addOrder`, `reduceOrder`, `deleteOrder` are the source's
  methods, each one generic body.

The `manager` back-pointer is never read and is left out.
-/

namespace GoTrader.Matching

/-- The six level trees of a book.
Source: `orderbook.go` `OrderBook` (fields `bids` ... `trailingSellStopLevels`)
Kind: D -/
inductive LevelIndex where
  | bids
  | asks
  | buyStops
  | sellStops
  | trailingBuyStops
  | trailingSellStops
deriving DecidableEq, Repr

namespace LevelIndex

/-- The direction each tree is created with.
Source: `orderbook.go` `NewOrderBook`
Kind: D
Fidelity: exact -/
def descending : LevelIndex → Bool
  | bids => true
  | asks => false
  | buyStops => false
  | sellStops => true
  | trailingBuyStops => false
  | trailingSellStops => true

/-- The level type `AddLevel` gives a new level of this tree.
Source: `orderbook.go` `(*OrderBook).AddLevel`
Kind: D
Fidelity: exact -/
def levelType : LevelIndex → LevelType
  | bids | buyStops | trailingBuyStops => levelTypeBid
  | asks | sellStops | trailingSellStops => levelTypeAsk

/-- `AddLevel`'s test for a new level to become the best: `price > best.Price` or
`price < best.Price`, per tree.
Source: `orderbook.go` `(*OrderBook).AddLevel`
Kind: D
Fidelity: exact -/
def improves : LevelIndex → UInt64 → UInt64 → Bool
  | bids => fun p b => p > b
  | asks => fun p b => p < b
  | buyStops => fun p b => p < b
  | sellStops => fun p b => p > b
  | trailingBuyStops => fun p b => p < b
  | trailingSellStops => fun p b => p > b

/-- The tree an order is routed to: trailing stops, then stops, then the rest, by side.
Source: `orderbook.go` `AddLevel` / `DeleteLevel` / `AddOrder` (branch conditions)
Kind: D
Fidelity: exact -/
def ofOrder (o : Order) : LevelIndex :=
  if o.isTrailingStop || o.isTrailingStopLimit then
    if o.isBuy then trailingBuyStops else trailingSellStops
  else if o.isStop || o.isStopLimit then
    if o.isBuy then buyStops else sellStops
  else
    if o.isBuy then bids else asks

end LevelIndex

/-- The price an order's level is keyed by: `StopPrice` for the (trailing) stop kinds, `Price`
otherwise.
Source: `orderbook.go` `AddLevel` / `AddOrder`
Kind: D
Fidelity: exact -/
def routingPrice (o : Order) : UInt64 :=
  if o.isTrailingStop || o.isTrailingStopLimit then o.stopPrice
  else if o.isStop || o.isStopLimit then o.stopPrice
  else o.price

/-- An order book.
Source: `orderbook.go` `OrderBook`
Kind: D
Fidelity: exact but for the unread `manager` pointer -/
structure OrderBook where
  symbol : Symbol
  bestBid : Option Nat
  bestAsk : Option Nat
  bids : AVLTree
  asks : AVLTree
  bestBuyStop : Option Nat
  bestSellStop : Option Nat
  buyStopLevels : AVLTree
  sellStopLevels : AVLTree
  bestTrailingBuyStop : Option Nat
  bestTrailingSellStop : Option Nat
  trailingBuyStopLevels : AVLTree
  trailingSellStopLevels : AVLTree
  lastBidPrice : UInt64
  lastAskPrice : UInt64
  matchingPrice : UInt64

namespace OrderBook

/-- Source: `orderbook.go` `NewOrderBook`. Kind: D. Fidelity: exact -/
def newOrderBook (symbol : Symbol) : OrderBook where
  symbol := symbol
  bestBid := none
  bestAsk := none
  bids := AVLTree.newAVLTree true
  asks := AVLTree.newAVLTree false
  bestBuyStop := none
  bestSellStop := none
  buyStopLevels := AVLTree.newAVLTree false
  sellStopLevels := AVLTree.newAVLTree true
  bestTrailingBuyStop := none
  bestTrailingSellStop := none
  trailingBuyStopLevels := AVLTree.newAVLTree false
  trailingSellStopLevels := AVLTree.newAVLTree true
  lastBidPrice := 0
  lastAskPrice := 0
  matchingPrice := 0

/-! ## The six trees by index -/

/-- The tree of an index. Source: `orderbook.go` `OrderBook` fields. Kind: D -/
def levels (ob : OrderBook) : LevelIndex → AVLTree
  | .bids => ob.bids
  | .asks => ob.asks
  | .buyStops => ob.buyStopLevels
  | .sellStops => ob.sellStopLevels
  | .trailingBuyStops => ob.trailingBuyStopLevels
  | .trailingSellStops => ob.trailingSellStopLevels

/-- The best pointer of an index. Source: `orderbook.go` `OrderBook` fields. Kind: D -/
def best (ob : OrderBook) : LevelIndex → Option Nat
  | .bids => ob.bestBid
  | .asks => ob.bestAsk
  | .buyStops => ob.bestBuyStop
  | .sellStops => ob.bestSellStop
  | .trailingBuyStops => ob.bestTrailingBuyStop
  | .trailingSellStops => ob.bestTrailingSellStop

/-- Replace the tree of an index. Source: none: infrastructure. Kind: D -/
def setLevels (ob : OrderBook) (i : LevelIndex) (t : AVLTree) : OrderBook :=
  match i with
  | .bids => { ob with bids := t }
  | .asks => { ob with asks := t }
  | .buyStops => { ob with buyStopLevels := t }
  | .sellStops => { ob with sellStopLevels := t }
  | .trailingBuyStops => { ob with trailingBuyStopLevels := t }
  | .trailingSellStops => { ob with trailingSellStopLevels := t }

/-- Replace the best pointer of an index. Source: none: infrastructure. Kind: D -/
def setBest (ob : OrderBook) (i : LevelIndex) (p : Option Nat) : OrderBook :=
  match i with
  | .bids => { ob with bestBid := p }
  | .asks => { ob with bestAsk := p }
  | .buyStops => { ob with bestBuyStop := p }
  | .sellStops => { ob with bestSellStop := p }
  | .trailingBuyStops => { ob with bestTrailingBuyStop := p }
  | .trailingSellStops => { ob with bestTrailingSellStop := p }

@[simp] theorem levels_setLevels (ob : OrderBook) (i j : LevelIndex) (t : AVLTree) :
    (ob.setLevels i t).levels j = if j = i then t else ob.levels j := by
  cases i <;> cases j <;> rfl

@[simp] theorem best_setLevels (ob : OrderBook) (i j : LevelIndex) (t : AVLTree) :
    (ob.setLevels i t).best j = ob.best j := by
  cases i <;> cases j <;> rfl

@[simp] theorem levels_setBest (ob : OrderBook) (i j : LevelIndex) (p : Option Nat) :
    (ob.setBest i p).levels j = ob.levels j := by
  cases i <;> cases j <;> rfl

@[simp] theorem best_setBest (ob : OrderBook) (i j : LevelIndex) (p : Option Nat) :
    (ob.setBest i p).best j = if j = i then p else ob.best j := by
  cases i <;> cases j <;> rfl

@[simp] theorem symbol_setLevels (ob : OrderBook) (i : LevelIndex) (t : AVLTree) :
    (ob.setLevels i t).symbol = ob.symbol := by
  cases i <;> rfl

@[simp] theorem symbol_setBest (ob : OrderBook) (i : LevelIndex) (p : Option Nat) :
    (ob.setBest i p).symbol = ob.symbol := by
  cases i <;> rfl

@[simp] theorem levels_bids (ob : OrderBook) : ob.levels .bids = ob.bids := rfl
@[simp] theorem levels_asks (ob : OrderBook) : ob.levels .asks = ob.asks := rfl
@[simp] theorem best_bids (ob : OrderBook) : ob.best .bids = ob.bestBid := rfl
@[simp] theorem best_asks (ob : OrderBook) : ob.best .asks = ob.bestAsk := rfl

/-! ## Levels -/

/-- Create the level of `order` in its tree, and make it the best level if the tree was empty
or its price strictly improves on the best one.
Source: `orderbook.go` `(*OrderBook).AddLevel`
Kind: D
Fidelity: exact -/
def addLevel (ob : OrderBook) (h : Heap) (order : Order) : Option (OrderBook × Heap × Nat) := do
  let i := LevelIndex.ofOrder order
  let price := routingPrice order
  let level := h.next
  let h := h.allocLevel (newLevelNode i.levelType price)
  let t ← (ob.levels i).insert h.price level
  let ob := ob.setLevels i t
  let ob := match ob.best i with
    | none => ob.setBest i (some level)
    | some b => if i.improves price (h.price b) then ob.setBest i (some level) else ob
  some (ob, h, level)

/-- Remove `order`'s level from its tree, and re-seat the best pointer if it pointed there.
Source: `orderbook.go` `(*OrderBook).DeleteLevel`
Kind: D
Fidelity: exact -/
def deleteLevel (ob : OrderBook) (h : Heap) (order : OrderNode) : Option (OrderBook × Heap) := do
  let i := LevelIndex.ofOrder order.order
  let (t, h) ← (ob.levels i).remove h order.level
  let ob := ob.setLevels i t
  some (if ob.best i = order.level then ob.setBest i t.first else ob, h)

end OrderBook

/-! ## Orders -/

/-- The part of `AddOrder` after the level is found or created: add the order's quantities to
the level's counters, append the order to the level's list, and point the order at the level.
Source: `orderbook.go` `(*OrderBook).AddOrder` (from `level.TotalVolume += ...` on)
Kind: D
Fidelity: exact; the ghost stamp `placed` is set from the heap's clock -/
def Heap.linkOrder (h : Heap) (level a : Nat) : Heap :=
  let order := (h.orderNodes a).order
  let ln := h.levelNodes level
  let h := h.setLevelNode level
    { level := { ln.level with
        totalVolume := ln.level.totalVolume + order.leavesQuantity
        hiddenVolume := ln.level.hiddenVolume + order.hiddenQuantity
        visibleVolume := ln.level.visibleVolume + order.visibleQuantity
        orders := ln.level.orders + 1 }
      orderList := ln.orderList.pushBack a }
  { h.setOrderNode a { h.orderNodes a with level := some level, placed := h.clock } with
    clock := h.clock + 1 }

/-- The first part of `DeleteOrder`: subtract the order's quantities from its level's counters
and unlink it from the level's list.
Source: `orderbook.go` `(*OrderBook).DeleteOrder` (up to `level.orderList.Remove`)
Kind: D
Fidelity: exact -/
def Heap.unlinkOrder (h : Heap) (level a : Nat) : Heap :=
  let order := (h.orderNodes a).order
  let ln := h.levelNodes level
  h.setLevelNode level
    { level := { ln.level with
        totalVolume := ln.level.totalVolume - order.leavesQuantity
        hiddenVolume := ln.level.hiddenVolume - order.hiddenQuantity
        visibleVolume := ln.level.visibleVolume - order.visibleQuantity
        orders := ln.level.orders - 1 }
      orderList := ln.orderList.remove a }

/-- The counter update of `ReduceOrder`: subtract from the level's volume counters.
Source: `orderbook.go` `(*OrderBook).ReduceOrder`
Kind: D
Fidelity: exact -/
def Heap.reduceLevel (h : Heap) (level : Nat) (quantity hidden visible : UInt64) : Heap :=
  let ln := h.levelNodes level
  h.setLevelNode level
    { ln with level := { ln.level with
        totalVolume := ln.level.totalVolume - quantity
        hiddenVolume := ln.level.hiddenVolume - hidden
        visibleVolume := ln.level.visibleVolume - visible } }

namespace OrderBook

/-- Find or create the order's level, then link the order into it.
Source: `orderbook.go` `(*OrderBook).AddOrder`
Kind: D
Fidelity: exact -/
def addOrder (ob : OrderBook) (h : Heap) (a : Nat) : Option (OrderBook × Heap) := do
  let order := (h.orderNodes a).order
  let i := LevelIndex.ofOrder order
  let (ob, h, level) ← match (ob.levels i).find h.price (routingPrice order) with
    | some l => some (ob, h, l)
    | none => ob.addLevel h order
  some (ob, h.linkOrder level a)

/-- Subtract an execution or reduction from the order's level counters. The receiver is not
read.
Source: `orderbook.go` `(*OrderBook).ReduceOrder`
Kind: D
Fidelity: exact -/
def reduceOrder (h : Heap) (a : Nat) (quantity hidden visible : UInt64) : Option Heap := do
  let level ← (h.orderNodes a).level
  some (h.reduceLevel level quantity hidden visible)

/-- Unlink the order from its level, delete the level if its list is now empty, and clear the
order's level pointer.
Source: `orderbook.go` `(*OrderBook).DeleteOrder`
Kind: D
Fidelity: exact -/
def deleteOrder (ob : OrderBook) (h : Heap) (a : Nat) : Option (OrderBook × Heap) := do
  let level ← (h.orderNodes a).level
  let h := h.unlinkOrder level a
  let (ob, h) ← if (h.levelNodes level).orderList.empty then ob.deleteLevel h (h.orderNodes a)
    else some (ob, h)
  some (ob, h.setOrderNode a { h.orderNodes a with level := none })

/-! ## Spread -/

/-- `bestAsk.Price - bestBid.Price` when positive, else `0`.
Source: `orderbook.go` `(*OrderBook).GetSpread`
Kind: D
Fidelity: exact -/
def getSpread (ob : OrderBook) (h : Heap) : UInt64 :=
  match ob.bestBid, ob.bestAsk with
  | some b, some a => if h.price a > h.price b then h.price a - h.price b else 0
  | _, _ => 0

/-- `(bestBid.Price + bestAsk.Price) / 2` in `uint64` arithmetic, else `0`.
Source: `orderbook.go` `(*OrderBook).GetMidPrice`
Kind: D
Fidelity: exact -/
def getMidPrice (ob : OrderBook) (h : Heap) : UInt64 :=
  match ob.bestBid, ob.bestAsk with
  | some b, some a => (h.price b + h.price a) / 2
  | _, _ => 0

end OrderBook

end GoTrader.Matching
