import GoTrader.Matching.OrderBook
import Mathlib.Algebra.Order.Ring.Nat

/-!
# The market manager

`market_manager.go`: registries of symbols, books and orders, the public operations, the
matching loop and the handler callbacks.

* `MarketManager` — the registries are Go maps, modelled as functions to `Option`; the handler
  is the list of callbacks it received; `heap` holds the order and level nodes.
* Every operation returns the new manager and its `ErrorCode`, or `none` where Go dereferences
  nil (a panic). A book is read from `orderBooks` by its key each time the source uses its
  pointer, which is the same object.
* `deleteOrderBook` iterates `m.orders` in Go's map order, which is unspecified: it takes that
  order as an argument `enum` (`Run.lean` requires it to list the registry's keys).
* `matchBook` is the `for {}` loop of `match`, with one more iteration than there are orders
  resting in the book's bid and ask trees.
-/

namespace GoTrader.Matching

/-- The market manager.
Source: `market_manager.go` `MarketManager`
Kind: D
Fidelity: exact; `handler` records the callbacks, `heap` the allocated nodes -/
structure MarketManager where
  handler : List HandlerCall
  symbols : UInt32 → Option Symbol
  orderBooks : UInt32 → Option OrderBook
  orders : UInt64 → Option Nat
  matching : Bool
  heap : Heap

namespace MarketManager

/-- Source: `market_manager.go` `NewMarketManager`. Kind: D. Fidelity: exact -/
def newMarketManager : MarketManager where
  handler := []
  symbols := fun _ => none
  orderBooks := fun _ => none
  orders := fun _ => none
  matching := false
  heap := ⟨fun _ => default, fun _ => default, 0, 0⟩

/-- Issue a handler callback. Source: `market_manager.go` (`m.handler.On...`). Kind: D -/
def call (m : MarketManager) (c : HandlerCall) : MarketManager :=
  { m with handler := m.handler ++ [c] }

/-- Write the order of node `a`. Source: none: infrastructure. Kind: D -/
def setOrder (m : MarketManager) (a : Nat) (o : Order) : MarketManager :=
  { m with heap := m.heap.setOrderNode a { m.heap.orderNodes a with order := o } }

/-- Source: `market_manager.go` `EnableMatching`. Kind: D. Fidelity: exact -/
def enableMatching (m : MarketManager) : MarketManager := { m with matching := true }

/-- Source: `market_manager.go` `DisableMatching`. Kind: D. Fidelity: exact -/
def disableMatching (m : MarketManager) : MarketManager := { m with matching := false }

/-! ## Symbols and books -/

/-- Source: `market_manager.go` `AddSymbol`. Kind: D. Fidelity: exact -/
def addSymbol (m : MarketManager) (symbol : Symbol) : MarketManager × ErrorCode :=
  if (m.symbols symbol.id).isSome then (m, .errorSymbolDuplicate)
  else (call { m with symbols := Function.update m.symbols symbol.id (some symbol) }
    (.onAddSymbol symbol), .errorOK)

/-- Source: `market_manager.go` `AddOrderBook`. Kind: D. Fidelity: exact -/
def addOrderBook (m : MarketManager) (symbol : Symbol) : MarketManager × ErrorCode :=
  if (m.orderBooks symbol.id).isSome then (m, .errorOrderBookDuplicate)
  else
    let books := Function.update m.orderBooks symbol.id (some (OrderBook.newOrderBook symbol))
    (call { m with orderBooks := books } (.onAddOrderBook symbol.id), .errorOK)

/-! ## Level notifications -/

/-- Report the order's level to the handler, with `top` when it is the book's best bid (buy
orders) or best ask (the rest); nothing when the order has no level.
Source: `market_manager.go` `updateLevel`
Kind: D
Fidelity: exact -/
def updateLevel (m : MarketManager) (ob : Option OrderBook) (a : Nat) (updateType : UpdateType) :
    Option MarketManager :=
  let order := m.heap.orderNodes a
  match order.level with
  | none => some m
  | some l => do
    let level := (m.heap.levelNodes l).level
    let ob ← ob
    let top := if order.order.isBuy then ob.bestBid = some l else ob.bestAsk = some l
    let m := match updateType with
      | .updateAdd => m.call (.onAddLevel ob.symbol.id level top)
      | .updateUpdate => m.call (.onUpdateLevel ob.symbol.id level top)
      | .updateDelete => m.call (.onDeleteLevel ob.symbol.id level top)
      | .updateNone => m
    some (m.call (.onUpdateOrderBook ob.symbol.id top))

/-! ## Book calls -/

/-- `ob.AddOrder(order)` on the book stored under `key`.
Source: `market_manager.go` (calls of `(*OrderBook).AddOrder`)
Kind: D -/
def bookAddOrder (m : MarketManager) (key : UInt32) (a : Nat) : Option MarketManager := do
  let ob ← m.orderBooks key
  let (ob, heap) ← ob.addOrder m.heap a
  some { m with heap := heap, orderBooks := Function.update m.orderBooks key (some ob) }

/-- `ob.DeleteOrder(order)` on the book stored under `key`.
Source: `market_manager.go` (calls of `(*OrderBook).DeleteOrder`)
Kind: D -/
def bookDeleteOrder (m : MarketManager) (key : UInt32) (a : Nat) : Option MarketManager := do
  let ob ← m.orderBooks key
  let (ob, heap) ← ob.deleteOrder m.heap a
  some { m with heap := heap, orderBooks := Function.update m.orderBooks key (some ob) }

/-! ## Deleting and executing orders -/

/-- Source: `market_manager.go` `DeleteOrder`. Kind: D. Fidelity: exact -/
def deleteOrder (m : MarketManager) (id : UInt64) : Option (MarketManager × ErrorCode) :=
  match m.orders id with
  | none => some (m, .errorOrderNotFound)
  | some a => do
    let key := (m.heap.orderNodes a).order.symbolID
    let m ← m.updateLevel (m.orderBooks key) a .updateDelete
    let m ← m.bookDeleteOrder key a
    let m := { m with orders := Function.update m.orders id none }
    some (m.call (.onDeleteOrder (m.heap.orderNodes a).order), .errorOK)

/-- Execute `quantity` of node `a` at `price`: update its quantities and its level's counters,
report the execution, then delete the order if it is filled or report the update.
Source: `market_manager.go` `executeOrder` (unexported)
Kind: D
Fidelity: exact -/
def executeOrderNode (m : MarketManager) (a : Nat) (price quantity : UInt64) :
    Option (MarketManager × ErrorCode) := do
  let node := m.heap.orderNodes a
  let key := node.order.symbolID
  let o := { node.order with
    executedQuantity := node.order.executedQuantity + quantity
    leavesQuantity := node.order.leavesQuantity - quantity }
  let m := m.setOrder a o
  let heap ← OrderBook.reduceOrder m.heap a quantity
    (node.order.hiddenQuantity - o.hiddenQuantity) (node.order.visibleQuantity - o.visibleQuantity)
  let m := call { m with heap := heap } (.onExecuteOrder o price quantity)
  if o.leavesQuantity = 0 then do
    let m ← m.updateLevel (m.orderBooks key) a .updateDelete
    let m ← m.bookDeleteOrder key a
    let m := { m with orders := Function.update m.orders o.id none }
    some (m.call (.onDeleteOrder o), .errorOK)
  else do
    let m ← (m.call (.onUpdateOrder o)).updateLevel (m.orderBooks key) a .updateUpdate
    some (m, .errorOK)

/-- Source: `market_manager.go` `ExecuteOrder`. Kind: D. Fidelity: exact -/
def executeOrder (m : MarketManager) (id quantity : UInt64) : Option (MarketManager × ErrorCode) :=
  match m.orders id with
  | none => some (m, .errorOrderNotFound)
  | some a =>
    let o := (m.heap.orderNodes a).order
    if quantity = 0 ∨ quantity > o.leavesQuantity then some (m, .errorOrderQuantityInvalid)
    else m.executeOrderNode a o.price quantity

/-- Source: `market_manager.go` `ExecuteOrderWithPrice`. Kind: D. Fidelity: exact -/
def executeOrderWithPrice (m : MarketManager) (id price quantity : UInt64) :
    Option (MarketManager × ErrorCode) :=
  match m.orders id with
  | none => some (m, .errorOrderNotFound)
  | some a =>
    let o := (m.heap.orderNodes a).order
    if quantity = 0 ∨ quantity > o.leavesQuantity then some (m, .errorOrderQuantityInvalid)
    else m.executeOrderNode a price quantity

/-! ## Matching -/

/-- The number of orders resting in the bid and ask trees of the book under `key`.
Source: none: the iteration bound of `match`
Kind: D -/
def restingCount (m : MarketManager) (key : UInt32) : Nat :=
  match m.orderBooks key with
  | none => 0
  | some ob =>
    ((ob.bids.root.ids ++ ob.asks.root.ids).map
      fun l => (m.heap.levelNodes l).orderList.nodes.length).sum

/-- The test at the top of `match`'s loop body on the book `ob`: `none` when the loop stops (a
side is empty, the best bid is below the best ask, or a front order is missing), otherwise the
two front orders, the execution price (the ask's) and the quantity (the smaller leaves
quantity).
Source: `market_manager.go` `match` (unexported), the `for` loop's body up to the executions
Kind: D
Fidelity: exact -/
def matchPair (m : MarketManager) (ob : OrderBook) : Option (Nat × Nat × UInt64 × UInt64) :=
  match ob.bestBid, ob.bestAsk with
  | some bb, some ba =>
    if m.heap.price bb < m.heap.price ba then none
    else
      match (m.heap.levelNodes bb).orderList.front, (m.heap.levelNodes ba).orderList.front with
      | some bidOrder, some askOrder =>
        let bid := (m.heap.orderNodes bidOrder).order
        let ask := (m.heap.orderNodes askOrder).order
        let quantity := if ask.leavesQuantity < bid.leavesQuantity then ask.leavesQuantity
          else bid.leavesQuantity
        some (bidOrder, askOrder, ask.price, quantity)
      | _, _ => none
  | _, _ => none

/-- The matching loop on the book under `key`, with `fuel` iterations: stop when `matchPair`
says so, otherwise execute the two front orders and go round again.
Source: `market_manager.go` `match` (unexported), the `for` loop
Kind: D
Fidelity: exact within `fuel` iterations -/
def matchLoop (key : UInt32) : Nat → MarketManager → Option MarketManager
  | 0, _ => none
  | fuel + 1, m => do
    let ob ← m.orderBooks key
    match m.matchPair ob with
    | none => some m
    | some (bidOrder, askOrder, price, quantity) => do
      let (m, _) ← m.executeOrderNode bidOrder price quantity
      let (m, _) ← m.executeOrderNode askOrder price quantity
      matchLoop key fuel m

/-- Match the book under `key`.
Source: `market_manager.go` `match` (unexported)
Kind: D
Fidelity: exact, given enough iterations -/
def matchBook (m : MarketManager) (key : UInt32) : Option MarketManager :=
  matchLoop key (m.restingCount key + 1) m

/-- Run `match` if automatic matching is on, and report success.
Source: `market_manager.go` (`if m.matching { m.match(ob) }; return ErrorOK`)
Kind: D -/
def matchIfEnabled (m : MarketManager) (key : UInt32) : Option (MarketManager × ErrorCode) :=
  if m.matching then (m.matchBook key).map (·, .errorOK) else some (m, .errorOK)

/-- Source: `market_manager.go` `Match`. Kind: D. Fidelity: exact -/
def matchSymbol (m : MarketManager) (symbolID : UInt32) : Option (MarketManager × ErrorCode) :=
  match m.orderBooks symbolID with
  | none => some (m, .errorOrderBookNotFound)
  | some _ => (m.matchBook symbolID).map (·, .errorOK)

/-! ## Adding and changing orders -/

/-- The admission checks of `AddOrder`.
Source: `market_manager.go` `validateOrder`
Kind: D
Fidelity: exact -/
def validateOrder (order : Order) : ErrorCode :=
  if order.id = 0 then .errorOrderIDInvalid
  else if order.quantity = 0 then .errorOrderQuantityInvalid
  else if order.type = orderTypeLimit then
    if order.price = 0 then .errorOrderParameterInvalid else .errorOK
  else if order.type = orderTypeStop then
    if order.stopPrice = 0 then .errorOrderParameterInvalid else .errorOK
  else if order.type = orderTypeStopLimit then
    if order.price = 0 ∨ order.stopPrice = 0 then .errorOrderParameterInvalid else .errorOK
  else if order.type = orderTypeTrailingStop then
    if order.trailingDistance = 0 then .errorOrderParameterInvalid else .errorOK
  else if order.type = orderTypeTrailingStopLimit then
    if order.price = 0 ∨ order.trailingDistance = 0 then .errorOrderParameterInvalid else .errorOK
  else .errorOK

/-- Source: `market_manager.go` `AddOrder`. Kind: D. Fidelity: exact -/
def addOrder (m : MarketManager) (order : Order) : Option (MarketManager × ErrorCode) :=
  if validateOrder order ≠ .errorOK then some (m, validateOrder order)
  else if (m.orders order.id).isSome then some (m, .errorOrderDuplicate)
  else if (m.orderBooks order.symbolID).isNone then some (m, .errorOrderBookNotFound)
  else do
    let a := m.heap.next
    let m := { m with heap := m.heap.allocOrder order,
                      orders := Function.update m.orders order.id (some a) }
    let m ← m.bookAddOrder order.symbolID a
    let m := m.call (.onAddOrder order)
    let m ← m.updateLevel (m.orderBooks order.symbolID) a .updateAdd
    m.matchIfEnabled order.symbolID

/-- Source: `market_manager.go` `ReduceOrder`. Kind: D. Fidelity: exact -/
def reduceOrder (m : MarketManager) (id quantity : UInt64) : Option (MarketManager × ErrorCode) :=
  match m.orders id with
  | none => some (m, .errorOrderNotFound)
  | some a =>
    let node := m.heap.orderNodes a
    if quantity = 0 then some (m, .errorOrderQuantityInvalid)
    else if quantity ≥ node.order.leavesQuantity then m.deleteOrder id
    else do
      let key := node.order.symbolID
      let o := { node.order with leavesQuantity := node.order.leavesQuantity - quantity }
      let m := m.setOrder a o
      let heap ← OrderBook.reduceOrder m.heap a quantity
        (node.order.hiddenQuantity - o.hiddenQuantity)
        (node.order.visibleQuantity - o.visibleQuantity)
      let m := call { m with heap := heap } (.onUpdateOrder o)
      let m ← m.updateLevel (m.orderBooks key) a .updateUpdate
      some (m, .errorOK)

/-- Source: `market_manager.go` `ModifyOrder`. Kind: D. Fidelity: exact -/
def modifyOrder (m : MarketManager) (id newPrice newQuantity : UInt64) :
    Option (MarketManager × ErrorCode) :=
  match m.orders id with
  | none => some (m, .errorOrderNotFound)
  | some a =>
    if newQuantity = 0 then some (m, .errorOrderQuantityInvalid)
    else do
      let key := (m.heap.orderNodes a).order.symbolID
      let m ← m.updateLevel (m.orderBooks key) a .updateDelete
      let m ← m.bookDeleteOrder key a
      let o := { (m.heap.orderNodes a).order with
        price := newPrice, quantity := newQuantity, leavesQuantity := newQuantity,
        executedQuantity := 0 }
      let m ← (m.setOrder a o).bookAddOrder key a
      let m := m.call (.onUpdateOrder o)
      let m ← m.updateLevel (m.orderBooks key) a .updateAdd
      m.matchIfEnabled key

/-- Source: `market_manager.go` `MitigateOrder`. Kind: D. Fidelity: exact -/
def mitigateOrder (m : MarketManager) (id newPrice newQuantity : UInt64) :
    Option (MarketManager × ErrorCode) :=
  match m.orders id with
  | none => some (m, .errorOrderNotFound)
  | some a =>
    let key := (m.heap.orderNodes a).order.symbolID
    if newQuantity ≤ (m.heap.orderNodes a).order.executedQuantity then m.deleteOrder id
    else do
      let m ← m.updateLevel (m.orderBooks key) a .updateDelete
      let m ← m.bookDeleteOrder key a
      let node := m.heap.orderNodes a
      let o := { node.order with
        price := newPrice, quantity := newQuantity,
        leavesQuantity := newQuantity - node.order.executedQuantity }
      let m ← (m.setOrder a o).bookAddOrder key a
      let m := m.call (.onUpdateOrder o)
      let m ← m.updateLevel (m.orderBooks key) a .updateAdd
      m.matchIfEnabled key

/-- The order `ReplaceOrder` creates from the old one.
Source: `market_manager.go` `ReplaceOrder` (`newOrder := Order{...}`)
Kind: D
Fidelity: exact -/
def replacement (old : Order) (newID newPrice newQuantity : UInt64) : Order where
  id := newID
  symbolID := old.symbolID
  type := old.type
  side := old.side
  price := newPrice
  stopPrice := old.stopPrice
  quantity := newQuantity
  executedQuantity := 0
  leavesQuantity := newQuantity
  timeInForce := old.timeInForce
  maxVisibleQuantity := old.maxVisibleQuantity
  slippage := old.slippage
  trailingDistance := old.trailingDistance
  trailingStep := old.trailingStep

/-- Source: `market_manager.go` `ReplaceOrder`. Kind: D. Fidelity: exact -/
def replaceOrder (m : MarketManager) (id newID newPrice newQuantity : UInt64) :
    Option (MarketManager × ErrorCode) :=
  match m.orders id with
  | none => some (m, .errorOrderNotFound)
  | some a =>
    if newQuantity = 0 then some (m, .errorOrderQuantityInvalid)
    else if (m.orders newID).isSome then some (m, .errorOrderDuplicate)
    else do
      let key := (m.heap.orderNodes a).order.symbolID
      let m ← m.updateLevel (m.orderBooks key) a .updateDelete
      let m ← m.bookDeleteOrder key a
      let old := (m.heap.orderNodes a).order
      let m := call { m with orders := Function.update m.orders id none } (.onDeleteOrder old)
      let newOrder := replacement old newID newPrice newQuantity
      let b := m.heap.next
      let m := { m with heap := m.heap.allocOrder newOrder,
                        orders := Function.update m.orders newID (some b) }
      let m ← m.bookAddOrder key b
      let m := m.call (.onAddOrder newOrder)
      let m ← m.updateLevel (m.orderBooks key) b .updateAdd
      m.matchIfEnabled key

/-! ## Deleting books and symbols -/

/-- Delete every order of the book (collected in the map order `enum`), then the book.
Source: `market_manager.go` `DeleteOrderBook`
Kind: D
Fidelity: exact, for the iteration order `enum` -/
def deleteOrderBook (m : MarketManager) (id : UInt32) (enum : List UInt64) :
    Option (MarketManager × ErrorCode) :=
  match m.orderBooks id with
  | none => some (m, .errorOrderBookNotFound)
  | some ob => do
    let ordersToDelete := (enum.filterMap m.orders).filter
      fun a => (m.heap.orderNodes a).order.symbolID = id
    let m ← ordersToDelete.foldlM
      (fun m a => (m.deleteOrder (m.heap.orderNodes a).order.id).map Prod.fst) m
    some (call { m with orderBooks := Function.update m.orderBooks id none }
      (.onDeleteOrderBook ob.symbol.id), .errorOK)

/-- Source: `market_manager.go` `DeleteSymbol`. Kind: D. Fidelity: exact -/
def deleteSymbol (m : MarketManager) (id : UInt32) (enum : List UInt64) :
    Option (MarketManager × ErrorCode) :=
  match m.symbols id with
  | none => some (m, .errorSymbolNotFound)
  | some symbol => do
    let m ← if (m.orderBooks id).isSome then (m.deleteOrderBook id enum).map Prod.fst else some m
    some (call { m with symbols := Function.update m.symbols id none } (.onDeleteSymbol symbol),
      .errorOK)

end MarketManager

end GoTrader.Matching
