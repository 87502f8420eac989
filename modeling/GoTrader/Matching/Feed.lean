import GoTrader.Matching.Priority
import GoTrader.Matching.Trades

/-!
# The handler's callbacks as change logs

`MarketHandler` receives `OnAddOrder`, `OnUpdateOrder` and `OnDeleteOrder`, each with the
order's value, whenever an order is registered, changed or removed. A subscriber that keeps a
map from order ids to orders, stores the order under its id on `OnAddOrder` and
`OnUpdateOrder` and removes its id on `OnDeleteOrder`, holds exactly the engine's registry after
every run: every public call, the matching loop and the deletions of `DeleteOrderBook` and
`DeleteSymbol` included. The level callbacks that `updateLevel` reports are no such log of the
book's levels.

* `HandlerCall.applyOrder`, `HandlerCall.orderFeed` — the subscriber;
* `FeedStep` — `m'` follows `m` by callbacks that carry `m`'s registry to `m'`'s;
  `FeedStep.trans`, `FeedStep.of_updateLevel`;
* `levelMap`, `bookLevel` — the subscriber of the level-event contract and the levels it should
  hold; `levelMap_diverges` — on `demo` the subscriber's map is right; `DeleteOrder(1)` then
  drops the bid level at 10 from it while order 2 still rests there, and a buy stop at 15 enters
  it as a bid level at 15;
* `executeOrderNode_feed`, `deleteOrder_feed`, `matchLoop_feed`, `matchIfEnabled_feed`,
  `addOrder_feed`, `reinsertCalls_feed`, `replaceOrder_feed`, `deleteOrders_feed` — one per
  routine of the engine;
* `Inv.step_feed` — every public call; `Reachable.orderFeed_registry` — every run.
-/

namespace GoTrader.Matching

open MarketManager

/-! ## The subscriber -/

namespace HandlerCall

/-- A subscriber's copy of the registry after one callback: `OnAddOrder` and `OnUpdateOrder`
store the order under its id, `OnDeleteOrder` removes its id, the other callbacks change
nothing.
Source: `handler.go` `MarketHandler` (`OnAddOrder`, `OnUpdateOrder`, `OnDeleteOrder`)
Kind: D -/
def applyOrder (r : UInt64 → Option Order) : HandlerCall → UInt64 → Option Order
  | .onAddOrder o => Function.update r o.id (some o)
  | .onUpdateOrder o => Function.update r o.id (some o)
  | .onDeleteOrder o => Function.update r o.id none
  | _ => r

/-- The subscriber's copy after a stretch of the handler log.
Source: `handler.go` `MarketHandler`
Kind: D -/
def orderFeed (r : UInt64 → Option Order) (cs : List HandlerCall) : UInt64 → Option Order :=
  cs.foldl applyOrder r

@[simp] theorem orderFeed_nil (r : UInt64 → Option Order) : orderFeed r [] = r := rfl

@[simp] theorem orderFeed_cons (r : UInt64 → Option Order) (c : HandlerCall)
    (cs : List HandlerCall) : orderFeed r (c :: cs) = orderFeed (applyOrder r c) cs := rfl

@[simp] theorem orderFeed_append (r : UInt64 → Option Order) (cs ds : List HandlerCall) :
    orderFeed r (cs ++ ds) = orderFeed (orderFeed r cs) ds :=
  List.foldl_append _ _ _ _

end HandlerCall

/-! ## Steps the subscriber follows -/

/-- `m'` follows `m` by handler callbacks that carry `m`'s registry to `m'`'s.
Source: none: what a subscriber of the callbacks sees
Kind: D -/
def FeedStep (m m' : MarketManager) : Prop :=
  ∃ cs, m'.handler = m.handler ++ cs ∧ HandlerCall.orderFeed m.registry cs = m'.registry

namespace FeedStep

variable {m m₁ m' : MarketManager}

theorem refl (m : MarketManager) : FeedStep m m := ⟨[], by simp, rfl⟩

theorem trans (h₁ : FeedStep m m₁) (h₂ : FeedStep m₁ m') : FeedStep m m' := by
  obtain ⟨cs, hh, hr⟩ := h₁
  obtain ⟨ds, hh', hr'⟩ := h₂
  exact ⟨cs ++ ds, by rw [hh', hh, List.append_assoc], by
    rw [HandlerCall.orderFeed_append, hr, hr']⟩

/-- The registry and the handler log as they were. Source: none. Kind: L -/
theorem of_eq (hh : m'.handler = m.handler) (hr : m'.registry = m.registry) : FeedStep m m' :=
  ⟨[], by rw [hh, List.append_nil], hr.symm⟩

/-- A change of the registry made with no callback, then reported by one callback.
Source: none. Kind: L -/
theorem call_of {c : HandlerCall} (hh : m₁.handler = m.handler)
    (hr : m₁.registry = HandlerCall.applyOrder m.registry c) : FeedStep m (m₁.call c) :=
  ⟨[c], by rw [MarketManager.call, hh], hr.symm⟩

end FeedStep

variable {m m' : MarketManager} {e : ErrorCode}

/-- `updateLevel` reports only level and book callbacks, which leave the copy as it is.
Source: `market_manager.go` `updateLevel`
Kind: L -/
theorem updateLevel_quiet {ob : Option OrderBook} {a : Nat} {u : UpdateType}
    (h : m.updateLevel ob a u = some m') :
    ∃ cs, m' = { m with handler := m.handler ++ cs } ∧ ∀ r, HandlerCall.orderFeed r cs = r := by
  unfold updateLevel at h
  dsimp only at h
  split at h
  · cases h; exact ⟨[], by simp, fun _ => rfl⟩
  · cases ob with
    | none => cases h
    | some ob => cases u <;> (cases h; exact ⟨_, by simp [call]; rfl, fun _ => by rfl⟩)

theorem FeedStep.of_updateLevel {ob : Option OrderBook} {a : Nat} {u : UpdateType}
    (h : m.updateLevel ob a u = some m') : FeedStep m m' := by
  obtain ⟨cs, rfl, hcs⟩ := updateLevel_quiet h
  exact ⟨cs, rfl, hcs _⟩

theorem updateLevel_registry {ob : Option OrderBook} {a : Nat} {u : UpdateType}
    (h : m.updateLevel ob a u = some m') : m'.registry = m.registry := by
  obtain ⟨cs, rfl, -⟩ := updateLevel_quiet h
  rfl

/-- A change of the registry made with no callback, reported by one callback and followed by
`updateLevel`: the shape of every routine that changes one order.
Source: `market_manager.go` (`m.handler.OnUpdateOrder(order)`, then `m.updateLevel(...)`)
Kind: L -/
theorem FeedStep.call_updateLevel {m₁ : MarketManager} {c : HandlerCall} {ob : Option OrderBook}
    {a : Nat} {u : UpdateType} (hu : (m₁.call c).updateLevel ob a u = some m')
    (hh : m₁.handler = m.handler) (hr : m'.registry = HandlerCall.applyOrder m.registry c) :
    FeedStep m m' :=
  (FeedStep.call_of hh ((updateLevel_registry hu).symm.trans hr)).trans (.of_updateLevel hu)

/-! ### What the level callbacks report

The handler that the level-event contract describes keeps, per book, the levels it was told
about, keyed by `(Level.Type, Level.Price)`: `OnAddLevel` inserts, `OnUpdateLevel` overwrites,
`OnDeleteLevel` removes (`levelMap`). It should then hold the book's current bid and ask levels
(`bookLevel`). `DeleteOrder` calls `updateLevel(ob, orderNode, UpdateDelete)` before
`ob.DeleteOrder`, so it issues `OnDeleteLevel`, with the counters from before the deletion,
whether or not the level empties (`executeOrder` on a fill, `ModifyOrder`, `MitigateOrder` and
`ReplaceOrder` do the same); and `AddLevel` types a stop level `LevelTypeBid` or `LevelTypeAsk`,
which `AddOrder` reports like any other level. -/

/-- The contract's handler: the level it holds for book `k` under type `t` and price `p` after
the calls `cs`.
Source: none: the handler of the level-event contract
Kind: D -/
def levelMap (cs : List HandlerCall) (k : UInt32) (t : LevelType) (p : UInt64) : Option Level :=
  cs.foldl (fun held c => match c with
    | .onAddLevel b l _ => if b = k ∧ l.type = t ∧ l.price = p then some l else held
    | .onUpdateLevel b l _ => if b = k ∧ l.type = t ∧ l.price = p then some l else held
    | .onDeleteLevel b l _ => if b = k ∧ l.type = t ∧ l.price = p then none else held
    | _ => held) none

/-- The bid (type `LevelTypeBid`) or ask (`LevelTypeAsk`) level of book `k` at price `p`.
Source: none: the book the handler should mirror
Kind: D -/
def bookLevel (m : MarketManager) (k : UInt32) (t : LevelType) (p : UInt64) : Option Level :=
  let tree := if t = levelTypeBid then some LevelIndex.bids
    else if t = levelTypeAsk then some LevelIndex.asks else none
  tree.bind fun i => ((m.levelIds k i).find? fun L => m.heap.price L = p).map
    fun L => (m.heap.levelNodes L).level

/-- On `demo` the contract's subscriber holds the bid level at 10. After `DeleteOrder(1)` it
holds no level there while order 2 still rests at 10; after `AddOrder` of a buy stop at 15 it
holds a bid level at 15, which is no level of the bid tree.
Source: `market_manager.go` `DeleteOrder`, `AddOrder`, `updateLevel`; `orderbook.go` `AddLevel`;
`handler.go` `OnDeleteLevel`
Kind: P -/
theorem levelMap_diverges :
    levelMap demo.handler 1 levelTypeBid 10 = bookLevel demo 1 levelTypeBid 10 ∧
    (∃ m', demo.deleteOrder 1 = some (m', .errorOK) ∧
      levelMap m'.handler 1 levelTypeBid 10 = none ∧
      bookLevel m' 1 levelTypeBid 10 = some ⟨levelTypeBid, 10, 3, 0, 3, 1⟩) ∧
    ∃ m', demo.addOrder (newOrder 4 1 orderTypeStop orderSideBuy 0 15 2) = some (m', .errorOK) ∧
      levelMap m'.handler 1 levelTypeBid 15 = some ⟨levelTypeBid, 15, 2, 0, 2, 1⟩ ∧
      bookLevel m' 1 levelTypeBid 15 = none :=
  ⟨by decide, ⟨_, rfl, by decide, by decide⟩, ⟨_, rfl, by decide, by decide⟩⟩

/-! ## One routine at a time -/

namespace Inv

variable {a : Nat}

/-- An execution reports `OnExecuteOrder`, then `OnDeleteOrder` of a filled order or
`OnUpdateOrder` with its new value: the copy follows the registry.
Source: `market_manager.go` `executeOrder`
Kind: L -/
theorem executeOrderNode_feed {id p q : UInt64} (hI : Inv m none none) (ha : m.orders id = some a)
    (h : m.executeOrderNode a p q = some (m', e)) : FeedStep m m' := by
  have hreg := hI.registry_executeOrderNode ha h
  have hid := (hI.registered ha).id
  unfold MarketManager.executeOrderNode at h
  dsimp only at h
  obtain ⟨heap, -, h⟩ := Option.bind_eq_some.1 h
  split at h
  · rename_i hfull
    obtain ⟨m₃, h₃, h⟩ := Option.bind_eq_some.1 h
    obtain ⟨m₄, h₄, h⟩ := Option.bind_eq_some.1 h
    cases h
    obtain ⟨cs, rfl, hcs⟩ := updateLevel_quiet h₃
    exact ⟨_, by simp only [MarketManager.call, MarketManager.setOrder, bookDeleteOrder_handler h₄,
        List.append_assoc]; rfl,
      by rw [hreg, if_pos hfull]; simp [HandlerCall.applyOrder, hcs, hid]⟩
  · rename_i hpart
    obtain ⟨m₃, h₃, h⟩ := Option.bind_eq_some.1 h
    cases h
    obtain ⟨cs, rfl, hcs⟩ := updateLevel_quiet h₃
    exact ⟨_, by simp only [MarketManager.call, MarketManager.setOrder, List.append_assoc]; rfl,
      by rw [hreg, if_neg hpart]; simp [HandlerCall.applyOrder, hcs, hid]⟩

/-- `DeleteOrder` reports `OnDeleteOrder` of the order it unregisters.
Source: `market_manager.go` `DeleteOrder`
Kind: L -/
theorem deleteOrder_feed {id : UInt64} (hI : Inv m none none)
    (h : m.deleteOrder id = some (m', e)) : FeedStep m m' := by
  obtain ⟨-, ho, hv⟩ := hI.deleteOrder h
  unfold MarketManager.deleteOrder at h
  split at h
  · cases h; exact .refl _
  · rename_i a ha
    obtain ⟨m₁, h₁, h⟩ := Option.bind_eq_some.1 h
    obtain ⟨m₂, h₂, h⟩ := Option.bind_eq_some.1 h
    cases h
    obtain ⟨cs, rfl, hcs⟩ := updateLevel_quiet h₁
    have hva : (m₂.heap.orderNodes a).order = (m.heap.orderNodes a).order := hv a
    exact ⟨_, by simp only [MarketManager.call, bookDeleteOrder_handler h₂, List.append_assoc]; rfl,
      by rw [hI.registry_unregister ha ho fun c _ => hv c]
         simp [HandlerCall.applyOrder, hcs, hva, (hI.registered ha).id]⟩

/-- Every run of the matching loop: each iteration is two executions.
Source: `market_manager.go` `match`
Kind: L -/
theorem matchLoop_feed {key : UInt32} :
    ∀ (fuel : Nat) {m m' : MarketManager}, Inv m none none → m.matchLoop key fuel = some m' →
      FeedStep m m'
  | 0, _, _, _, h => by cases h
  | fuel + 1, m, m', hI, h => by
    obtain ⟨ob, hob, h⟩ := Option.bind_eq_some.1 h
    split at h
    · cases h; exact .refl _
    · rename_i b a p q hp
      obtain ⟨⟨m₁, e₁⟩, h₁, h⟩ := Option.bind_eq_some.1 h
      obtain ⟨⟨m₂, e₂⟩, h₂, h⟩ := Option.bind_eq_some.1 h
      obtain ⟨_, _, -, -, lb, -, -, -⟩ := hI.matchPair_linked hob hp
      obtain ⟨-, hr₁, -⟩ := hI.matchIter_registered hob hp h₁
      exact ((hI.executeOrderNode_feed lb.registered h₁).trans
        ((hI.executeOrderNode lb.registered h₁).1.executeOrderNode_feed hr₁ h₂)).trans
        (matchLoop_feed fuel (hI.matchIter hob hp h₁ h₂) h)

theorem matchIfEnabled_feed {key : UInt32} (hI : Inv m none none)
    (h : m.matchIfEnabled key = some (m', e)) : FeedStep m m' := by
  unfold MarketManager.matchIfEnabled at h
  split at h
  · obtain ⟨m₁, h₁, h⟩ := Option.map_eq_some'.1 h
    cases h
    exact matchLoop_feed _ hI h₁
  · cases h; exact .refl _

theorem matchSymbol_feed {key : UInt32} (hI : Inv m none none)
    (h : m.matchSymbol key = some (m', e)) : FeedStep m m' := by
  unfold MarketManager.matchSymbol at h
  split at h
  · cases h; exact .refl _
  · obtain ⟨m₁, h₁, h⟩ := Option.map_eq_some'.1 h
    cases h
    exact matchLoop_feed _ hI h₁

/-- `AddOrder` reports `OnAddOrder` of the order it registers, then matches.
Source: `market_manager.go` `AddOrder`
Kind: L -/
theorem addOrder_feed {order : Order} (hI : Inv m none none)
    (h : m.addOrder order = some (m', e)) : FeedStep m m' := by
  unfold MarketManager.addOrder at h
  split_ifs at h with hv hdup hnone
  · cases h; exact .refl _
  · cases h; exact .refl _
  · cases h; exact .refl _
  · obtain ⟨m₁, hb, h₁⟩ := Option.bind_eq_some.1 h
    obtain ⟨m₂, hu, h₂⟩ := Option.bind_eq_some.1 h₁
    obtain ⟨hI₁, -, -, -, hreg, -⟩ :=
      hI.register_enqueue (Option.not_isSome_iff_eq_none.1 hdup) rfl hb
    have hreg₂ : m₂.registry = HandlerCall.applyOrder m.registry (.onAddOrder order) := by
      rw [updateLevel_registry hu, HandlerCall.applyOrder]
      exact hreg
    have hh : m₁.handler = m.handler := by rw [bookAddOrder_handler hb]
    exact (FeedStep.call_updateLevel hu hh hreg₂).trans
      (matchIfEnabled_feed ((hI₁.call _).updateLevel hu) h₂)

/-- `ReduceOrder` reports `OnUpdateOrder` with the lowered order, or deletes it.
Source: `market_manager.go` `ReduceOrder`
Kind: L -/
theorem reduceOrder_feed {id q : UInt64} (hI : Inv m none none)
    (h : m.reduceOrder id q = some (m', e)) : FeedStep m m' := by
  have h' := h
  unfold MarketManager.reduceOrder at h
  split at h
  · cases h; exact .refl _
  · rename_i a ha
    dsimp only at h
    split_ifs at h with hq hge
    · cases h; exact .refl _
    · exact hI.deleteOrder_feed h
    · have hreg := (hI.reduceOrder_partial ha hq hge h').2.2
      obtain ⟨heap, -, h⟩ := Option.bind_eq_some.1 h
      obtain ⟨m₃, hu, h⟩ := Option.bind_eq_some.1 h
      cases h
      exact FeedStep.call_updateLevel hu rfl
        (hreg.trans (by simp [HandlerCall.applyOrder, (hI.registered ha).id]))

/-- What `ModifyOrder` and `MitigateOrder` do once they move the order: the rewritten order is
reported by `OnUpdateOrder`, then the book is matched.
Source: `market_manager.go` `ModifyOrder`, `MitigateOrder`
Kind: L -/
theorem reinsertCalls_feed {id : UInt64} (hI : Inv m none none) (ha : m.orders id = some a)
    (f : Order → Order) (hfid : ∀ o, (f o).id = o.id) (hfsym : ∀ o, (f o).symbolID = o.symbolID)
    (h : ((m.updateLevel (m.orderBooks (m.heap.orderNodes a).order.symbolID) a .updateDelete).bind
      fun m₁ => (m₁.bookDeleteOrder (m.heap.orderNodes a).order.symbolID a).bind
      fun m₂ => ((m₂.setOrder a (f (m₂.heap.orderNodes a).order)).bookAddOrder
        (m.heap.orderNodes a).order.symbolID a).bind
      fun m₃ => ((m₃.call (.onUpdateOrder (f (m₂.heap.orderNodes a).order))).updateLevel
        ((m₃.call (.onUpdateOrder (f (m₂.heap.orderNodes a).order))).orderBooks
          (m.heap.orderNodes a).order.symbolID) a .updateAdd).bind
      fun m₄ => m₄.matchIfEnabled (m.heap.orderNodes a).order.symbolID) = some (m', e)) :
    FeedStep m m' := by
  obtain ⟨m₁, hu₁, h₁⟩ := Option.bind_eq_some.1 h
  have hI₁ := hI.updateLevel hu₁
  obtain ⟨cs, rfl⟩ := MarketManager.updateLevel_eq hu₁
  obtain ⟨m₂, hd, h₂⟩ := Option.bind_eq_some.1 h₁
  obtain ⟨m₃, hb, h₃⟩ := Option.bind_eq_some.1 h₂
  obtain ⟨m₄, hu₄, h₄⟩ := Option.bind_eq_some.1 h₃
  have hv := (hI₁.bookDeleteOrder ha rfl hd).2.2 a
  have hI₄ := ((hI₁.reinsert_effect ha hd (by rw [hfid, hv]) (by rw [hfsym, hv]) hb).1.inv.call
    _).updateLevel hu₄
  have hreg := (hI₁.reinsert_requeues ha hd (by rw [hfid, hv]) (by rw [hfsym, hv]) hb).1
  have hid : (f (m₂.heap.orderNodes a).order).id = id := by
    rw [hfid, hv]; exact (hI.registered ha).id
  have hreg₄ : m₄.registry = HandlerCall.applyOrder (MarketManager.registry
      { m with handler := m.handler ++ cs }) (.onUpdateOrder (f (m₂.heap.orderNodes a).order)) := by
    rw [updateLevel_registry hu₄, HandlerCall.applyOrder, hid]
    exact hreg
  have hh : m₃.handler = m.handler ++ cs := by
    rw [bookAddOrder_handler hb]
    exact bookDeleteOrder_handler hd
  exact ((FeedStep.of_updateLevel hu₁).trans (FeedStep.call_updateLevel hu₄ hh hreg₄)).trans
    (matchIfEnabled_feed hI₄ h₄)

theorem modifyOrder_feed {id p q : UInt64} (hI : Inv m none none)
    (h : m.modifyOrder id p q = some (m', e)) : FeedStep m m' := by
  unfold MarketManager.modifyOrder at h
  split at h
  · cases h; exact .refl _
  · rename_i a ha
    split_ifs at h
    · cases h; exact .refl _
    · simp only [Option.bind_eq_bind] at h
      exact hI.reinsertCalls_feed ha
        (fun o => { o with price := p, quantity := q, leavesQuantity := q, executedQuantity := 0 })
        (fun _ => rfl) (fun _ => rfl) h

theorem mitigateOrder_feed {id p q : UInt64} (hI : Inv m none none)
    (h : m.mitigateOrder id p q = some (m', e)) : FeedStep m m' := by
  unfold MarketManager.mitigateOrder at h
  split at h
  · cases h; exact .refl _
  · rename_i a ha
    dsimp only at h
    split_ifs at h
    · exact hI.deleteOrder_feed h
    · simp only [Option.bind_eq_bind] at h
      exact hI.reinsertCalls_feed ha
        (fun o => { o with price := p, quantity := q, leavesQuantity := q - o.executedQuantity })
        (fun _ => rfl) (fun _ => rfl) h

theorem executeOrder_feed {id q : UInt64} (hI : Inv m none none)
    (h : m.executeOrder id q = some (m', e)) : FeedStep m m' := by
  unfold MarketManager.executeOrder at h
  split at h
  · cases h; exact .refl _
  · rename_i a ha
    dsimp only at h
    split_ifs at h
    · cases h; exact .refl _
    · exact hI.executeOrderNode_feed ha h

theorem executeOrderWithPrice_feed {id p q : UInt64} (hI : Inv m none none)
    (h : m.executeOrderWithPrice id p q = some (m', e)) : FeedStep m m' := by
  unfold MarketManager.executeOrderWithPrice at h
  split at h
  · cases h; exact .refl _
  · rename_i a ha
    dsimp only at h
    split_ifs at h
    · cases h; exact .refl _
    · exact hI.executeOrderNode_feed ha h

/-- The deletion loop of `DeleteOrderBook`: one `DeleteOrder` per order.
Source: `market_manager.go` `DeleteOrderBook`
Kind: L -/
theorem deleteOrders_feed :
    ∀ (l : List Nat) {m mf : MarketManager}, Inv m none none →
      l.foldlM (fun m a => (m.deleteOrder (m.heap.orderNodes a).order.id).map Prod.fst) m =
        some mf → FeedStep m mf
  | [], _, _, _, h => by cases h; exact .refl _
  | a :: l, m, mf, hI, h => by
    rw [List.foldlM_cons] at h
    obtain ⟨m₁, h₁, h⟩ := Option.bind_eq_some.1 h
    obtain ⟨⟨m₁, e⟩, hd, rfl⟩ := Option.map_eq_some'.1 h₁
    exact (hI.deleteOrder_feed hd).trans (deleteOrders_feed l (hI.deleteOrder hd).1 h)

theorem deleteOrderBook_feed {k : UInt32} {enum : List UInt64} (hI : Inv m none none)
    (h : m.deleteOrderBook k enum = some (m', e)) : FeedStep m m' := by
  unfold MarketManager.deleteOrderBook at h
  split at h
  · cases h; exact .refl _
  · obtain ⟨mf, hf, h⟩ := Option.bind_eq_some.1 h
    cases h
    exact (deleteOrders_feed _ hI hf).trans ⟨[_], rfl, rfl⟩

theorem deleteSymbol_feed {k : UInt32} {enum : List UInt64} (hI : Inv m none none)
    (h : m.deleteSymbol k enum = some (m', e)) : FeedStep m m' := by
  unfold MarketManager.deleteSymbol at h
  split at h
  · cases h; exact .refl _
  · dsimp only at h
    split_ifs at h
    · obtain ⟨m₁, h₁, h⟩ := Option.bind_eq_some.1 h
      obtain ⟨⟨m₂, e₂⟩, h₂, rfl⟩ := Option.map_eq_some'.1 h₁
      cases h
      exact (hI.deleteOrderBook_feed h₂).trans ⟨[_], rfl, rfl⟩
    · cases h; exact ⟨[_], rfl, rfl⟩

/-- `ReplaceOrder` reports `OnDeleteOrder` of the old order and `OnAddOrder` of its replacement,
then matches.
Source: `market_manager.go` `ReplaceOrder`
Kind: L -/
theorem replaceOrder_feed {id newID p q : UInt64} (hI : Inv m none none)
    (h : m.replaceOrder id newID p q = some (m', e)) : FeedStep m m' := by
  unfold MarketManager.replaceOrder at h
  split at h
  · cases h; exact .refl _
  · rename_i a ha
    split_ifs at h with hq hdup
    · cases h; exact .refl _
    · cases h; exact .refl _
    · simp only [Option.bind_eq_bind] at h
      obtain ⟨m₁, hu₁, h₁⟩ := Option.bind_eq_some.1 h
      have hI₁ := hI.updateLevel hu₁
      obtain ⟨cs, rfl⟩ := MarketManager.updateLevel_eq hu₁
      obtain ⟨m₂, hd, h₂⟩ := Option.bind_eq_some.1 h₁
      obtain ⟨m₃, hb, h₃⟩ := Option.bind_eq_some.1 h₂
      obtain ⟨m₄, hu₄, h₄⟩ := Option.bind_eq_some.1 h₃
      obtain ⟨hI₂, ho₂, hv₂⟩ := hI₁.bookDeleteOrder ha rfl hd
      have hr₂ : m₂.orders id = some a := ho₂ ▸ ha
      have hnew : Function.update m₂.orders id none
          (replacement (m₂.heap.orderNodes a).order newID p q).id = none := by
        rw [Function.update_apply, ho₂]
        split_ifs
        · rfl
        · exact Option.not_isSome_iff_eq_none.1 hdup
      obtain ⟨hI₃, -, -, -, hreg, -⟩ :=
        ((hI₂.unregister hr₂).call (.onDeleteOrder (m₂.heap.orderNodes a).order)).register_enqueue
          hnew (show (m₂.heap.orderNodes a).order.symbolID = _ from
            congrArg Order.symbolID (hv₂ a)) hb
      have hid : (m₂.heap.orderNodes a).order.id = id := by
        rw [hv₂ a]; exact (hI.registered ha).id
      have hreg₂ : m₂.registry = m.registry :=
        funext fun x => by simp only [MarketManager.registry, ho₂, hv₂]
      have hh₂ : ({ m₂ with orders := Function.update m₂.orders id none } : MarketManager).handler =
          ({ m with handler := m.handler ++ cs } : MarketManager).handler :=
        by dsimp only; exact bookDeleteOrder_handler hd
      have hdel := FeedStep.call_of (c := .onDeleteOrder (m₂.heap.orderNodes a).order) hh₂ (by
        rw [HandlerCall.applyOrder, hid]
        exact hreg₂ ▸ hI₂.registry_unregister hr₂ rfl fun _ _ => rfl)
      have hreg₄ : m₄.registry = HandlerCall.applyOrder (MarketManager.registry
          (MarketManager.call { m₂ with orders := Function.update m₂.orders id none }
            (.onDeleteOrder (m₂.heap.orderNodes a).order)))
          (.onAddOrder (replacement (m₂.heap.orderNodes a).order newID p q)) := by
        rw [updateLevel_registry hu₄, HandlerCall.applyOrder]
        exact hreg
      have hh : m₃.handler = (MarketManager.call { m₂ with orders := Function.update m₂.orders id none }
          (.onDeleteOrder (m₂.heap.orderNodes a).order)).handler := by
        rw [bookAddOrder_handler hb]
      exact (FeedStep.of_updateLevel hu₁).trans (hdel.trans
        ((FeedStep.call_updateLevel hu₄ hh hreg₄).trans (matchIfEnabled_feed ((hI₃.call _).updateLevel hu₄) h₄)))

/-- Every public call carries the subscriber's copy along with the registry.
Source: `market_manager.go`
Kind: L -/
theorem step_feed {op : Op} (hI : Inv m none none) (h : m.step op = some (m', e)) :
    FeedStep m m' := by
  cases op with
  | addSymbol s =>
    obtain rfl : (m.addSymbol s).1 = m' := by rw [Option.some.inj h]
    unfold MarketManager.addSymbol
    split_ifs
    · exact .refl _
    · exact ⟨[_], rfl, rfl⟩
  | deleteSymbol k enum => exact hI.deleteSymbol_feed h
  | addOrderBook s =>
    obtain rfl : (m.addOrderBook s).1 = m' := by rw [Option.some.inj h]
    unfold MarketManager.addOrderBook
    split_ifs
    · exact .refl _
    · exact ⟨[_], rfl, rfl⟩
  | deleteOrderBook k enum => exact hI.deleteOrderBook_feed h
  | addOrder order => exact hI.addOrder_feed h
  | reduceOrder id q => exact hI.reduceOrder_feed h
  | modifyOrder id p q => exact hI.modifyOrder_feed h
  | mitigateOrder id p q => exact hI.mitigateOrder_feed h
  | replaceOrder id newID p q => exact hI.replaceOrder_feed h
  | deleteOrder id => exact hI.deleteOrder_feed h
  | executeOrder id q => exact hI.executeOrder_feed h
  | executeOrderWithPrice id p q => exact hI.executeOrderWithPrice_feed h
  | matchSymbol k => exact hI.matchSymbol_feed h
  | enableMatching => cases h; exact .of_eq rfl rfl
  | disableMatching => cases h; exact .of_eq rfl rfl

end Inv

/-- The order callbacks are a change log of the registry. Take any state reachable from
`NewMarketManager()` by public calls, with matching on or off and each deletion of a book or a
symbol in any iteration order of the orders map. Take a subscriber that starts with no orders
and applies the handler log's `OnAddOrder`, `OnUpdateOrder` and `OnDeleteOrder` calls in order,
storing the order under its id on the first two and removing the id on the third. It holds
exactly the engine's registry: every registered order under its id, with its current value, and
nothing else.
Source: `market_manager.go` (every public method, `match`, `executeOrder`, `updateLevel`);
`handler.go` `MarketHandler`
Kind: P -/
theorem Reachable.orderFeed_registry {m : MarketManager} (hm : Reachable m) :
    HandlerCall.orderFeed (fun _ => none) m.handler = m.registry := by
  induction hm with
  | init => rfl
  | step hm _ h ih =>
    obtain ⟨cs, hh, hr⟩ := hm.inv.step_feed h
    rw [hh, HandlerCall.orderFeed_append, ih, hr]

/-- In the demo run with matching on, the sell at 9 traded against the resting bid: the
callbacks still give back the registry. -/
theorem demoMatching_orderFeed :
    Reachable demoMatching ∧
      HandlerCall.orderFeed (fun _ => none) demoMatching.handler = demoMatching.registry :=
  ⟨reachable_demoMatching, Reachable.orderFeed_registry reachable_demoMatching⟩

end GoTrader.Matching
