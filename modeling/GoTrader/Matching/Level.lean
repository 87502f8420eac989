import GoTrader.Matching.Order

/-!
# Price levels, order lists, nodes and the heap

The pointer-linked objects of package `matching` (`level.go`, `order.go`, `handler.go`):

* `Level` — the value part of a price level (type, price, the four counters).
* `OrderList` — a level's FIFO list of orders. The intrusive `Head`/`Tail`/`Next`/`Prev`
  pointers are represented by the sequence of node addresses they spell, from `Head` along
  `Next`; the `Size` counter is kept as its own field, as the source keeps it.
* `OrderNode` — an `*OrderNode`: the embedded `Order`, the `Level` back-pointer and, as a ghost
  that no modelled function reads, the placement stamp `placed` (the value of the heap's
  placement clock when the node was last pushed onto a level list).
* `LevelNode` — the payload of a `*LevelNode` (its `Level` and `OrderList`); the tree links
  `Left`/`Right`/`Balance` live in `AVLTree`'s structure, and `Parent` is implicit there.
* `Heap` — the objects the engine allocates, addressed by `Nat`, with the next fresh address and
  the ghost placement clock.
* `HandlerCall` — one `MarketHandler` callback; `*OrderBook` arguments are given by the book's
  symbol id.
-/

namespace GoTrader.Matching

/-! ## Levels -/

/-- `LevelType` is a `uint8`. Source: `level.go` `LevelType`. Kind: D -/
abbrev LevelType := UInt8

/-- Source: `level.go` `LevelTypeBid`. Kind: D -/
def levelTypeBid : LevelType := 0
/-- Source: `level.go` `LevelTypeAsk`. Kind: D -/
def levelTypeAsk : LevelType := 1

/-- A price level's value part.
Source: `level.go` `Level`
Kind: D
Fidelity: exact -/
structure Level where
  type : LevelType
  price : UInt64
  totalVolume : UInt64
  hiddenVolume : UInt64
  visibleVolume : UInt64
  orders : UInt64
deriving DecidableEq, Repr, Inhabited

/-- A level with zero counters.
Source: `level.go` `NewLevel`
Kind: D
Fidelity: exact -/
def newLevel (levelType : LevelType) (price : UInt64) : Level :=
  ⟨levelType, price, 0, 0, 0, 0⟩

/-! ## Order lists -/

/-- A level's FIFO order list: the node addresses from `Head` along `Next`, and `Size`.
Source: `level.go` `OrderList`
Kind: D
Fidelity: abstracted (the `Prev`/`Next` links are represented by the sequence they spell) -/
structure OrderList where
  nodes : List Nat
  size : UInt64
deriving DecidableEq, Repr, Inhabited

namespace OrderList

/-- Append a node at the tail.
Source: `level.go` `(*OrderList).PushBack`
Kind: D
Fidelity: abstracted -/
def pushBack (ol : OrderList) (order : Nat) : OrderList :=
  ⟨ol.nodes ++ [order], ol.size + 1⟩

/-- Unlink a node.
Source: `level.go` `(*OrderList).Remove`
Kind: D
Fidelity: abstracted -/
def remove (ol : OrderList) (order : Nat) : OrderList :=
  ⟨ol.nodes.erase order, ol.size - 1⟩

/-- The head node. Source: `level.go` `(*OrderList).Front`. Kind: D. Fidelity: abstracted -/
def front (ol : OrderList) : Option Nat := ol.nodes.head?

/-- Source: `level.go` `(*OrderList).Empty`. Kind: D. Fidelity: exact -/
def empty (ol : OrderList) : Bool := ol.size == 0

end OrderList

/-! ## Nodes and the heap -/

/-- An `*OrderNode` object. `placed` is a ghost: no modelled function reads it.
Source: `order.go` `OrderNode`
Kind: D
Fidelity: exact, plus the ghost `placed` -/
structure OrderNode where
  order : Order
  level : Option Nat
  placed : Nat
deriving Inhabited

/-- The payload of an `*LevelNode` object; its tree links live in `AVLTree`.
Source: `level.go` `LevelNode`
Kind: D
Fidelity: exact for `Level` and `OrderList` -/
structure LevelNode where
  level : Level
  orderList : OrderList
deriving Inhabited

/-- A fresh level node.
Source: `level.go` `NewLevelNode`
Kind: D
Fidelity: exact -/
def newLevelNode (levelType : LevelType) (price : UInt64) : LevelNode :=
  ⟨newLevel levelType price, ⟨[], 0⟩⟩

/-- The engine's heap: order nodes and level nodes by address, the next fresh address, and the
ghost placement clock.
Source: the Go heap
Kind: D -/
structure Heap where
  orderNodes : Nat → OrderNode
  levelNodes : Nat → LevelNode
  next : Nat
  clock : Nat

namespace Heap

/-- The price of the level node at `l` (`l.Price`). Source: `level.go`. Kind: D -/
def price (h : Heap) (l : Nat) : UInt64 := (h.levelNodes l).level.price

/-- Write an order node. Source: none: infrastructure. Kind: D -/
def setOrderNode (h : Heap) (a : Nat) (n : OrderNode) : Heap :=
  { h with orderNodes := Function.update h.orderNodes a n }

/-- Write a level node. Source: none: infrastructure. Kind: D -/
def setLevelNode (h : Heap) (l : Nat) (n : LevelNode) : Heap :=
  { h with levelNodes := Function.update h.levelNodes l n }

/-- Allocate a level node at the next fresh address.
Source: `level.go` `NewLevelNode` (the allocation)
Kind: D -/
def allocLevel (h : Heap) (n : LevelNode) : Heap :=
  { h.setLevelNode h.next n with next := h.next + 1 }

/-- Allocate an order node at the next fresh address.
Source: `order.go` `NewOrderNode` (the allocation)
Kind: D -/
def allocOrder (h : Heap) (o : Order) : Heap :=
  { h.setOrderNode h.next ⟨o, none, 0⟩ with next := h.next + 1 }

@[simp] theorem setOrderNode_orderNodes (h : Heap) (a : Nat) (n : OrderNode) :
    (h.setOrderNode a n).orderNodes = Function.update h.orderNodes a n := rfl
@[simp] theorem setOrderNode_levelNodes (h : Heap) (a : Nat) (n : OrderNode) :
    (h.setOrderNode a n).levelNodes = h.levelNodes := rfl
@[simp] theorem setOrderNode_next (h : Heap) (a : Nat) (n : OrderNode) :
    (h.setOrderNode a n).next = h.next := rfl
@[simp] theorem setOrderNode_clock (h : Heap) (a : Nat) (n : OrderNode) :
    (h.setOrderNode a n).clock = h.clock := rfl
@[simp] theorem setLevelNode_orderNodes (h : Heap) (l : Nat) (n : LevelNode) :
    (h.setLevelNode l n).orderNodes = h.orderNodes := rfl
@[simp] theorem setLevelNode_levelNodes (h : Heap) (l : Nat) (n : LevelNode) :
    (h.setLevelNode l n).levelNodes = Function.update h.levelNodes l n := rfl
@[simp] theorem setLevelNode_next (h : Heap) (l : Nat) (n : LevelNode) :
    (h.setLevelNode l n).next = h.next := rfl
@[simp] theorem setLevelNode_clock (h : Heap) (l : Nat) (n : LevelNode) :
    (h.setLevelNode l n).clock = h.clock := rfl

end Heap

/-! ## Handler callbacks -/

/-- One `MarketHandler` callback, with its arguments; a `*OrderBook` is given by its symbol id.
Source: `handler.go` `MarketHandler`
Kind: D
Fidelity: exact up to the book pointer -/
inductive HandlerCall where
  | onAddSymbol (symbol : Symbol)
  | onDeleteSymbol (symbol : Symbol)
  | onAddOrderBook (book : UInt32)
  | onUpdateOrderBook (book : UInt32) (top : Bool)
  | onDeleteOrderBook (book : UInt32)
  | onAddLevel (book : UInt32) (level : Level) (top : Bool)
  | onUpdateLevel (book : UInt32) (level : Level) (top : Bool)
  | onDeleteLevel (book : UInt32) (level : Level) (top : Bool)
  | onAddOrder (order : Order)
  | onUpdateOrder (order : Order)
  | onDeleteOrder (order : Order)
  | onExecuteOrder (order : Order) (price quantity : UInt64)
deriving DecidableEq, Repr

end GoTrader.Matching
