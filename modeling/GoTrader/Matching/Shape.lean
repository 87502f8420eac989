import GoTrader.Matching.View

/-!
# The shape of every reachable book

`Reachable.inv` read back in the source's own terms, for every state a finite run of public
calls reaches.

* `Reachable.registry_linked` — every registry entry carries its key as `ID`, its book exists,
  and it is linked exactly once, in the level of its routing price in the tree its type and
  side select, which its `Level` field points at; every linked order is registered; no level of
  any tree is empty.
* `Reachable.level_aggregates` — each level's `Orders`, `OrderList.Size` and volume counters are
  the count and the sums over its list, in `uint64` arithmetic, so hidden plus visible volume is
  the total;
* `overflow_wraps` — where the modulus bites: one book, two limit buys of `2 ^ 63` at price
  `2 ^ 63` and a limit sell of 1 at `2 ^ 63 + 2` (`overflowOps`), matching off. The bid level's
  orders hold `2 ^ 64` shares while `TotalVolume` and `VisibleVolume` read `0`, and `GetMidPrice`
  returns `1` where the midpoint is `2 ^ 63 + 1`.
* `Reachable.best_eq_first` — each of a book's six cached pointers is its tree's `First()`: nil
  exactly when the tree is empty, and otherwise the level of the best price in the tree's
  direction.

The witnesses run `demoOps` (one book, two bids at one price, one ask) from
`NewMarketManager()`.
-/

namespace GoTrader.Matching

open MarketManager

/-! ## A small run -/

/-- A book for symbol 1, two buy orders at price 10 and a sell order at 12, matching off.
Source: none: a run for the witnesses
Kind: D -/
def demoOps : List Op :=
  [.addOrderBook ⟨1, [65]⟩,
   .addOrder (newLimitOrder 1 1 orderSideBuy 10 5),
   .addOrder (newLimitOrder 2 1 orderSideBuy 10 3),
   .addOrder (newLimitOrder 3 1 orderSideSell 12 4)]

/-- The state `demoOps` reaches. Source: none. Kind: D -/
def demo : MarketManager := (newMarketManager.run demoOps).getD newMarketManager

/-- Its book. Source: none. Kind: D -/
def demoBook : OrderBook := (demo.orderBooks 1).getD (OrderBook.newOrderBook ⟨1, [65]⟩)

theorem demo_reachable : Reachable demo :=
  Reachable.init.run (show newMarketManager.run demoOps = some demo from rfl)
    (by simp [demoOps, Op.Admissible])

theorem demo_orderBooks : demo.orderBooks 1 = some demoBook := rfl

/-! ## The registry and the level lists -/

/-- In every reachable state: (i) every registry entry `orders[id]` has `ID = id` and its book
exists; (ii) it is linked exactly once, in the one level of its book's tree
`LevelIndex.ofOrder` whose price is its routing price, and its `Level` field points at that
level; (iii) every order linked in any level list is registered under its `ID`; (iv) no level
of any tree has an empty list.
Source: `market_manager.go` (`AddOrder` ... `DeleteOrderBook`); `orderbook.go`
(`AddLevel` ... `DeleteOrder`); `avltree.go` `(*AVLTree).Remove`
Kind: P -/
theorem Reachable.registry_linked {m : MarketManager} (hm : Reachable m) :
    (∀ {id a}, m.orders id = some a →
      (m.heap.orderNodes a).order.id = id ∧
      (m.orderBooks (m.heap.orderNodes a).order.symbolID).isSome) ∧
    (∀ {id a}, m.orders id = some a → ∃ L,
      L ∈ m.levelIds (m.heap.orderNodes a).order.symbolID
        (LevelIndex.ofOrder (m.heap.orderNodes a).order) ∧
      m.heap.price L = routingPrice (m.heap.orderNodes a).order ∧
      (m.heap.orderNodes a).level = some L ∧ (m.heap.nodes L).count a = 1 ∧
      ∀ {k i L'}, L' ∈ m.levelIds k i → a ∈ m.heap.nodes L' → L' = L) ∧
    (∀ {k i L b}, L ∈ m.levelIds k i → b ∈ m.heap.nodes L →
      m.orders (m.heap.orderNodes b).order.id = some b) ∧
    (∀ {k i L}, L ∈ m.levelIds k i → m.heap.nodes L ≠ []) := by
  have hI := hm.inv
  refine ⟨fun hr => ?_, fun hr => ?_, fun hL hb => (hI.linked hL hb).registered,
    fun hL => hI.nonempty hL nofun⟩
  · obtain ⟨L, hL, -⟩ := (hI.registered hr).placed nofun
    exact ⟨(hI.registered hr).id, Inv.isSome_of_mem_levelIds hL⟩
  · obtain ⟨L, hL, ha⟩ := (hI.registered hr).placed nofun
    have l := hI.linked hL ha
    exact ⟨L, hL, l.price.symm, l.level, List.count_eq_one_of_mem (hI.nodes_nodup hL) ha,
      fun hL' ha' => hI.level_unique hL ha hL' ha'⟩

theorem demo_registry_linked :
    Reachable demo ∧
    (∀ {id a}, demo.orders id = some a →
      (demo.heap.orderNodes a).order.id = id ∧
      (demo.orderBooks (demo.heap.orderNodes a).order.symbolID).isSome) ∧
    (∀ {id a}, demo.orders id = some a → ∃ L,
      L ∈ demo.levelIds (demo.heap.orderNodes a).order.symbolID
        (LevelIndex.ofOrder (demo.heap.orderNodes a).order) ∧
      demo.heap.price L = routingPrice (demo.heap.orderNodes a).order ∧
      (demo.heap.orderNodes a).level = some L ∧ (demo.heap.nodes L).count a = 1 ∧
      ∀ {k i L'}, L' ∈ demo.levelIds k i → a ∈ demo.heap.nodes L' → L' = L) ∧
    (∀ {k i L b}, L ∈ demo.levelIds k i → b ∈ demo.heap.nodes L →
      demo.orders (demo.heap.orderNodes b).order.id = some b) ∧
    (∀ {k i L}, L ∈ demo.levelIds k i → demo.heap.nodes L ≠ []) :=
  ⟨demo_reachable, Reachable.registry_linked demo_reachable⟩

/-! ## Level counters -/

/-- In every reachable state, each level `L` of any tree of any book has, in `uint64`
arithmetic, `Orders = OrderList.Size =` the length of its list, `TotalVolume`, `HiddenVolume`
and `VisibleVolume` the sums of `LeavesQuantity`, `HiddenQuantity()` and `VisibleQuantity()`
over the list, and so `HiddenVolume + VisibleVolume = TotalVolume`.
Source: `orderbook.go` `(*OrderBook).AddOrder` / `ReduceOrder` / `DeleteOrder`;
`market_manager.go` `ReduceOrder`, `executeOrder`; `avltree.go` `(*AVLTree).Remove`
Kind: P -/
theorem Reachable.level_aggregates {m : MarketManager} (hm : Reachable m) {k : UInt32}
    {i : LevelIndex} {L : Nat} (hL : L ∈ m.levelIds k i) :
    (m.heap.levelNodes L).level.orders = UInt64.ofNat (m.heap.nodes L).length ∧
    (m.heap.levelNodes L).orderList.size = UInt64.ofNat (m.heap.nodes L).length ∧
    (m.heap.levelNodes L).level.totalVolume =
      ((m.heap.nodes L).map fun a => (m.heap.orderNodes a).order.leavesQuantity).sum ∧
    (m.heap.levelNodes L).level.hiddenVolume =
      ((m.heap.nodes L).map fun a => (m.heap.orderNodes a).order.hiddenQuantity).sum ∧
    (m.heap.levelNodes L).level.visibleVolume =
      ((m.heap.nodes L).map fun a => (m.heap.orderNodes a).order.visibleQuantity).sum ∧
    (m.heap.levelNodes L).level.hiddenVolume + (m.heap.levelNodes L).level.visibleVolume =
      (m.heap.levelNodes L).level.totalVolume := by
  have hc := hm.inv.counts hL
  refine ⟨hc.orders, hc.size, hc.total, hc.hidden, hc.visible, ?_⟩
  rw [hc.hidden, hc.visible, hc.total, ← List.sum_map_add]
  simp only [Order.hiddenQuantity_add_visibleQuantity]

theorem demo_level_aggregates :
    Reachable demo ∧ 1 ∈ demo.levelIds 1 .bids ∧
    (demo.heap.levelNodes 1).level.orders = UInt64.ofNat (demo.heap.nodes 1).length ∧
    (demo.heap.levelNodes 1).orderList.size = UInt64.ofNat (demo.heap.nodes 1).length ∧
    (demo.heap.levelNodes 1).level.totalVolume =
      ((demo.heap.nodes 1).map fun a => (demo.heap.orderNodes a).order.leavesQuantity).sum ∧
    (demo.heap.levelNodes 1).level.hiddenVolume =
      ((demo.heap.nodes 1).map fun a => (demo.heap.orderNodes a).order.hiddenQuantity).sum ∧
    (demo.heap.levelNodes 1).level.visibleVolume =
      ((demo.heap.nodes 1).map fun a => (demo.heap.orderNodes a).order.visibleQuantity).sum ∧
    (demo.heap.levelNodes 1).level.hiddenVolume + (demo.heap.levelNodes 1).level.visibleVolume =
      (demo.heap.levelNodes 1).level.totalVolume :=
  have h0 : 1 ∈ demo.levelIds 1 .bids := by decide
  ⟨demo_reachable, h0, Reachable.level_aggregates demo_reachable h0⟩

/-! ### Where the modulus bites

`validateOrder` bounds no quantity and no price from above, so public calls reach books whose
`uint64` sums leave the type. -/

/-- A book for symbol 1, two buy orders of `2 ^ 63` at price `2 ^ 63` and a sell order of 1 at
`2 ^ 63 + 2`, matching off.
Source: none: a run for the overflow
Kind: D -/
def overflowOps : List Op :=
  [.addOrderBook ⟨1, [65]⟩,
   .addOrder (newLimitOrder 1 1 orderSideBuy (2 ^ 63) (2 ^ 63)),
   .addOrder (newLimitOrder 2 1 orderSideBuy (2 ^ 63) (2 ^ 63)),
   .addOrder (newLimitOrder 3 1 orderSideSell (2 ^ 63 + 2) 1)]

/-- The state `overflowOps` reaches. Source: none. Kind: D -/
def overflow : MarketManager := (newMarketManager.run overflowOps).getD newMarketManager

/-- Its book. Source: none. Kind: D -/
def overflowBook : OrderBook := (overflow.orderBooks 1).getD (OrderBook.newOrderBook ⟨1, [65]⟩)

/-- After `overflowOps`, which public calls reach, the bid level's orders hold `2 ^ 64` shares
between them while its `TotalVolume` and `VisibleVolume` read `0`, and the best prices add up to
`2 ^ 64 + 2` while `GetMidPrice` reads `1`.
Source: `orderbook.go` `(*OrderBook).AddOrder`, `(*OrderBook).GetMidPrice`;
`market_manager.go` `validateOrder`
Kind: P -/
theorem overflow_wraps :
    Reachable overflow ∧ overflow.orderBooks 1 = some overflowBook ∧
    (∃ L ∈ overflow.levelIds 1 .bids,
      ((overflow.heap.nodes L).map fun a =>
        (overflow.heap.orderNodes a).order.leavesQuantity.toNat).sum = 2 ^ 64 ∧
      ((overflow.heap.nodes L).map fun a =>
        (overflow.heap.orderNodes a).order.visibleQuantity.toNat).sum = 2 ^ 64 ∧
      (overflow.heap.levelNodes L).level.totalVolume = 0 ∧
      (overflow.heap.levelNodes L).level.visibleVolume = 0) ∧
    ∃ b a, overflowBook.bestBid = some b ∧ overflowBook.bestAsk = some a ∧
      (overflow.heap.price b).toNat + (overflow.heap.price a).toNat = 2 ^ 64 + 2 ∧
      overflowBook.getMidPrice overflow.heap = 1 :=
  ⟨Reachable.init.run (show newMarketManager.run overflowOps = some overflow from rfl)
      (by simp [overflowOps, Op.Admissible]),
    rfl, ⟨1, by decide, by decide, by decide, by decide, by decide⟩,
    ⟨_, _, rfl, rfl, by decide, by decide⟩⟩

/-! ## Best pointers -/

/-- In every reachable state, each of a book's six cached best pointers is its tree's
`First()`; it is nil exactly when the tree is empty; and otherwise its level's price is strictly
better, in the tree's direction, than every other level's (highest bid, lowest ask, lowest buy
stop, highest sell stop, lowest trailing buy stop, highest trailing sell stop).
Source: `orderbook.go` `(*OrderBook).AddLevel` / `DeleteLevel`; `avltree.go` `(*AVLTree).First`,
`Remove`
Kind: P -/
theorem Reachable.best_eq_first {m : MarketManager} (hm : Reachable m) {k : UInt32}
    {ob : OrderBook} (hob : m.orderBooks k = some ob) (i : LevelIndex) :
    ob.best i = (ob.levels i).first ∧
    (ob.best i = none ↔ (ob.levels i).root = .nil) ∧
    ∀ b, ob.best i = some b → ∀ L ∈ (ob.levels i).root.ids, L ≠ b →
      if i.descending then m.heap.price L < m.heap.price b
      else m.heap.price b < m.heap.price L := by
  have hI := hm.inv
  have hb := hI.best i hob
  rw [levelIds_of_some hob] at hb
  refine ⟨by rw [hb, AVLTree.first, Tree.first_eq_head], ?_, fun b hbb L hL hne => ?_⟩
  · rw [hb, List.head?_eq_none_iff]
    cases (ob.levels i).root <;> simp [Tree.ids]
  · have := hI.head_precedes ((levelIds_of_some hob i).symm ▸ hbb ▸ hb.symm)
      ((levelIds_of_some hob i).symm ▸ hL) hne
    rw [AVLTree.precedes_iff] at this
    split_ifs at * <;> simpa [UInt64.lt_iff_toNat_lt]

theorem demo_best_eq_first :
    Reachable demo ∧ demo.orderBooks 1 = some demoBook ∧
    demoBook.best .bids = (demoBook.levels .bids).first ∧
    (demoBook.best .bids = none ↔ (demoBook.levels .bids).root = .nil) ∧
    ∀ b, demoBook.best .bids = some b → ∀ L ∈ (demoBook.levels .bids).root.ids, L ≠ b →
      if LevelIndex.bids.descending then demo.heap.price L < demo.heap.price b
      else demo.heap.price b < demo.heap.price L :=
  ⟨demo_reachable, demo_orderBooks, Reachable.best_eq_first demo_reachable demo_orderBooks .bids⟩

end GoTrader.Matching
