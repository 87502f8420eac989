import GoTrader.Matching.ExecutionPrice
import GoTrader.Matching.Termination

/-!
# The trades of `match`

Every iteration of `match` executes its bid and then its ask, each with `executeOrder` at the
same price and quantity, so the `OnExecuteOrder` calls of a match come in pairs; and it only
ever takes orders from the fronts of the bid and ask trees, so stop orders never trade and the
four stop trees are never touched (the stop activation of the source is a `TODO`).

* `HandlerCall.executions` — the `OnExecuteOrder` calls of a stretch of the handler log;
  `executeOrderNode_executions` — an execution reports one, with the order's new value;
* `Trade` — an iteration's pair of calls; `Trade.Valid` — the bid is a non-stop order of the
  bid tree, the ask one of the ask tree, both of the book, at the ask's price, and the trade
  fills one of them;
* `Inv.matchIter_trade` — one iteration makes one valid trade and changes no tree but the
  book's bid and ask trees; `MatchStops.trades` — so does every run of the loop, trade by trade;
* `Reachable.match_trades` — from every reachable state, `match` on any book returns, its
  executions are a list of valid trades, and every other tree is as it was.
-/

namespace GoTrader.Matching

open MarketManager

/-! ## Executions in the handler log -/

namespace HandlerCall

/-- The `OnExecuteOrder` calls of a stretch of the handler log, in order: the order's value,
the price and the quantity.
Source: `handler.go` `OnExecuteOrder(order, price, quantity)`
Kind: D -/
def executions (cs : List HandlerCall) : List (Order × UInt64 × UInt64) :=
  cs.filterMap fun
    | .onExecuteOrder o price quantity => some (o, price, quantity)
    | _ => none

@[simp] theorem executions_append (cs ds : List HandlerCall) :
    executions (cs ++ ds) = executions cs ++ executions ds :=
  List.filterMap_append _ _ _

theorem executionPrices_eq_map (cs : List HandlerCall) :
    executionPrices cs = (executions cs).map fun x => x.2.1 := by
  rw [executions, List.map_filterMap]
  unfold executionPrices
  congr 1
  funext c
  cases c <;> rfl

end HandlerCall

namespace MarketManager

variable {m m' : MarketManager}

/-- `updateLevel` reports no execution. Source: `market_manager.go` `updateLevel`. Kind: L -/
theorem updateLevel_executions {ob : Option OrderBook} {a : Nat} {u : UpdateType}
    (h : m.updateLevel ob a u = some m') :
    ∃ cs, m' = { m with handler := m.handler ++ cs } ∧ HandlerCall.executions cs = [] := by
  obtain ⟨cs, rfl, hcs⟩ := updateLevel_executionPrices h
  rw [HandlerCall.executionPrices_eq_map, List.map_eq_nil_iff] at hcs
  exact ⟨cs, rfl, hcs⟩

/-- An execution reports exactly one `OnExecuteOrder`: the order's new value, with the price
and quantity it is given.
Source: `market_manager.go` `executeOrder`
Kind: L -/
theorem executeOrderNode_executions {a : Nat} {p q : UInt64} {e : ErrorCode}
    (h : m.executeOrderNode a p q = some (m', e)) :
    ∃ cs, m'.handler = m.handler ++ cs ∧ HandlerCall.executions cs =
      [({ (m.heap.orderNodes a).order with
          executedQuantity := (m.heap.orderNodes a).order.executedQuantity + q
          leavesQuantity := (m.heap.orderNodes a).order.leavesQuantity - q }, p, q)] := by
  unfold MarketManager.executeOrderNode at h
  dsimp only at h
  obtain ⟨heap, -, h⟩ := Option.bind_eq_some.1 h
  split at h
  · obtain ⟨m₃, h₃, h⟩ := Option.bind_eq_some.1 h
    obtain ⟨m₄, h₄, h⟩ := Option.bind_eq_some.1 h
    cases h
    obtain ⟨cs, rfl, hcs⟩ := updateLevel_executions h₃
    exact ⟨_, by simp only [call, setOrder, bookDeleteOrder_handler h₄, List.append_assoc]; rfl,
      by simp only [HandlerCall.executions_append, hcs]; rfl⟩
  · obtain ⟨m₃, h₃, h⟩ := Option.bind_eq_some.1 h
    cases h
    obtain ⟨cs, rfl, hcs⟩ := updateLevel_executions h₃
    exact ⟨_, by simp only [call, setOrder, List.append_assoc]; rfl,
      by simp only [HandlerCall.executions_append, hcs]; rfl⟩

end MarketManager

/-! ## Trades -/

/-- The two `OnExecuteOrder` calls of one iteration of `match`: the bid's and then the ask's,
each with the order's value after the execution.
Source: `market_manager.go` `match` (`m.executeOrder(bidOrder, ...)`, then `askOrder`)
Kind: D -/
structure Trade where
  bid : Order
  ask : Order
  price : UInt64
  quantity : UInt64
deriving DecidableEq, Repr

/-- The calls a trade stands for. Source: none. Kind: D -/
def Trade.calls (t : Trade) : List (Order × UInt64 × UInt64) :=
  [(t.bid, t.price, t.quantity), (t.ask, t.price, t.quantity)]

/-- A trade of book `key` as `match` makes it: a non-stop order of the bid tree against a
non-stop order of the ask tree, both of the book, at the ask's price, filling one of the two.
Source: `market_manager.go` `match`
Kind: D -/
structure Trade.Valid (key : UInt32) (t : Trade) : Prop where
  bid : LevelIndex.ofOrder t.bid = .bids
  ask : LevelIndex.ofOrder t.ask = .asks
  bidSymbol : t.bid.symbolID = key
  askSymbol : t.ask.symbolID = key
  price : t.price = t.ask.price
  fills : t.bid.leavesQuantity = 0 ∨ t.ask.leavesQuantity = 0

/-! ## One iteration, then the loop -/


namespace Inv

variable {m m₁ m₂ : MarketManager} {key : UInt32} {ob : OrderBook} {b a : Nat} {p q : UInt64}
  {e₁ e₂ : ErrorCode}

/-- One iteration of `match` makes one valid trade, reported as its two `OnExecuteOrder` calls,
and changes no tree but the book's bid and ask trees.
Source: `market_manager.go` `match`, `executeOrder`
Kind: L -/
theorem matchIter_trade (hI : Inv m none none) (hob : m.orderBooks key = some ob)
    (h : m.matchPair ob = some (b, a, p, q)) (h₁ : m.executeOrderNode b p q = some (m₁, e₁))
    (h₂ : m₁.executeOrderNode a p q = some (m₂, e₂)) :
    ∃ t : Trade, t.Valid key ∧ (∃ cs, m₂.handler = m.handler ++ cs ∧
      HandlerCall.executions cs = t.calls) ∧
      ∀ k j, ¬ (k = key ∧ (j = .bids ∨ j = .asks)) → m₂.view k j = m.view k j := by
  obtain ⟨-, -, -, -, -, -, -, hp, hq⟩ := MarketManager.matchPair_eq_some h
  obtain ⟨bb, ba, hbh, hah, lb, la, hbb, hba⟩ := hI.matchPair_linked hob h
  obtain ⟨-, hr₁, hv₁⟩ := hI.matchIter_registered hob h h₁
  have hI₁ := (hI.executeOrderNode lb.registered h₁).1
  obtain ⟨cs₁, hh₁, hx₁⟩ := MarketManager.executeOrderNode_executions h₁
  obtain ⟨cs₂, hh₂, hx₂⟩ := MarketManager.executeOrderNode_executions h₂
  rw [hv₁] at hx₂
  set bo := (m.heap.orderNodes b).order
  set ao := (m.heap.orderNodes a).order
  refine ⟨⟨
    { bo with executedQuantity := bo.executedQuantity + q, leavesQuantity := bo.leavesQuantity - q },
    { ao with executedQuantity := ao.executedQuantity + q, leavesQuantity := ao.leavesQuantity - q },
    p, q⟩, ⟨lb.index, la.index, lb.symbol, la.symbol, hp, ?_⟩,
    ⟨cs₁ ++ cs₂, by rw [hh₂, hh₁, List.append_assoc],
      by rw [HandlerCall.executions_append, hx₁, hx₂]; rfl⟩, fun k j hkj => ?_⟩
  · dsimp only
    split_ifs at hq with hlt
    · exact .inr (by rw [hq, sub_self])
    · exact .inl (by rw [hq, sub_self])
  · have hb : ¬ (k = key ∧ j = .bids) := fun e => hkj ⟨e.1, .inl e.2⟩
    have ha : ¬ (k = key ∧ j = .asks) := fun e => hkj ⟨e.1, .inr e.2⟩
    rw [hI₁.view_executeOrderNode hr₁ h₂, hI.view_executeOrderNode lb.registered h₁,
      hI.erase_view_of_ne (List.mem_of_mem_head? hbh) hbb hb, ite_self,
      hI.erase_view_of_ne (List.mem_of_mem_head? hah) hba ha, ite_self]

end Inv

/-- Every run of the loop makes a list of valid trades, reported in order as their
`OnExecuteOrder` calls, and changes no tree but the book's bid and ask trees.
Source: `market_manager.go` `match`
Kind: L -/
theorem MatchStops.trades {key : UInt32} {n : Nat} {m m' : MarketManager}
    (hs : MatchStops key n m m') (hI : Inv m none none) :
    ∃ trades : List Trade, (∀ t ∈ trades, t.Valid key) ∧
      (∃ cs, m'.handler = m.handler ++ cs ∧
        HandlerCall.executions cs = trades.flatMap Trade.calls) ∧
      ∀ k j, ¬ (k = key ∧ (j = .bids ∨ j = .asks)) → m'.view k j = m.view k j := by
  induction hs with
  | stop => exact ⟨[], nofun, ⟨[], by simp, rfl⟩, fun _ _ _ => rfl⟩
  | step hob hp h₁ h₂ _ ih =>
    obtain ⟨t, ht, ⟨cs, hcs, hx⟩, hv⟩ := hI.matchIter_trade hob hp h₁ h₂
    obtain ⟨ts, hts, ⟨cs', hcs', hx'⟩, hv'⟩ := ih (hI.matchIter hob hp h₁ h₂)
    refine ⟨t :: ts, ?_, ⟨cs ++ cs', by rw [hcs', hcs, List.append_assoc],
      by rw [HandlerCall.executions_append, hx, hx', List.flatMap_cons]⟩,
      fun k j hkj => (hv' k j hkj).trans (hv k j hkj)⟩
    intro t' ht'
    rcases List.mem_cons.1 ht' with rfl | ht'
    exacts [ht, hts t' ht']

/-- **The trades of `match`.** From every reachable state, `match` on any book returns, and its
`OnExecuteOrder` calls come in pairs, one pair per iteration: the front order of the best bid
level, then the front order of the best ask level, at the ask's price and one quantity, which
fills one of them. Both are non-stop orders of that book; the stop and trailing-stop trees, and
every other book, are left as they were, so no stop order is ever executed or moved by
matching.
Source: `market_manager.go` `match`, `executeOrder`
Kind: P -/
theorem Reachable.match_trades {m : MarketManager} (hm : Reachable m) {key : UInt32}
    {ob : OrderBook} (hob : m.orderBooks key = some ob) :
    ∃ (m' : MarketManager) (trades : List Trade), m.matchBook key = some m' ∧ (∀ t ∈ trades, Trade.Valid key t) ∧
      (∃ cs, m'.handler = m.handler ++ cs ∧
        HandlerCall.executions cs = trades.flatMap Trade.calls) ∧
      ∀ k j, ¬ (k = key ∧ (j = .bids ∨ j = .asks)) → m'.view k j = m.view k j := by
  obtain ⟨n, m', hn, hs⟩ := hm.inv.matchStops hm.balanced hob
  obtain ⟨trades, ht, hcs, hv⟩ := hs.trades hm.inv
  exact ⟨m', trades, matchLoop_of_matchStops hs (Nat.lt_succ_of_le hn), ht, hcs, hv⟩

theorem crossed_match_trades :
    Reachable crossed ∧ crossed.orderBooks 1 = some crossedBook ∧
    ∃ (m' : MarketManager) (trades : List Trade), crossed.matchBook 1 = some m' ∧ (∀ t ∈ trades, Trade.Valid 1 t) ∧
      (∃ cs, m'.handler = crossed.handler ++ cs ∧
        HandlerCall.executions cs = trades.flatMap Trade.calls) ∧
      ∀ k j, ¬ (k = 1 ∧ (j = .bids ∨ j = .asks)) → m'.view k j = crossed.view k j :=
  ⟨crossed_reachable, rfl,
    Reachable.match_trades crossed_reachable (show crossed.orderBooks 1 = some crossedBook from rfl)⟩

end GoTrader.Matching
