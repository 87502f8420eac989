import GoTrader.Matching.Effects

/-!
# The execution price of `match`

`match` executes both orders of every iteration at `askOrder.Price`. When the order that set
off the match is a buy, the ask is a resting order; when it is a sell, the ask is that sell
itself, so a sell that crosses resting bids trades at its own price, not at theirs.

* `HandlerCall.executionPrices` — the prices of the `OnExecuteOrder` calls of a stretch of the
  handler log; `executeOrderNode_executionPrices` — an execution reports one price, the one it
  is given;
* `CrossedOnlyBy key c m` — every bid level of the book is priced below every ask level, except
  an ask level that holds order `c` alone; `Inv.matchIter_crossedOnlyBy` — every iteration keeps
  it and executes `c` as its ask, so every execution of the loop is at `c`'s price
  (`Inv.matchLoop_executionPrices`);
* `Inv.crossedOnlyBy_of_frame` — a state that differs from one with an uncrossed book only by
  order `c`, which is not a bid, has `CrossedOnlyBy`;
* `Reachable.addOrder_sell_execution_price` — a sell that `AddOrder` places into an uncrossed
  book with matching on trades only at its own price.
-/

namespace GoTrader.Matching

open MarketManager

/-! ## Execution prices in the handler log -/

/-- The prices of the `OnExecuteOrder` calls of a stretch of the handler log, in order.
Source: `handler.go` `OnExecuteOrder(order, price, quantity)`
Kind: D -/
def HandlerCall.executionPrices (cs : List HandlerCall) : List UInt64 :=
  cs.filterMap fun
    | .onExecuteOrder _ price _ => some price
    | _ => none

@[simp] theorem HandlerCall.executionPrices_append (cs ds : List HandlerCall) :
    executionPrices (cs ++ ds) = executionPrices cs ++ executionPrices ds :=
  List.filterMap_append _ _ _

namespace MarketManager

variable {m m' : MarketManager}

/-- `updateLevel` reports no execution. Source: `market_manager.go` `updateLevel`. Kind: L -/
theorem updateLevel_executionPrices {ob : Option OrderBook} {a : Nat} {u : UpdateType}
    (h : m.updateLevel ob a u = some m') :
    ∃ cs, m' = { m with handler := m.handler ++ cs } ∧ HandlerCall.executionPrices cs = [] := by
  unfold updateLevel at h
  dsimp only at h
  split at h
  · cases h; exact ⟨[], by simp, rfl⟩
  · cases ob with
    | none => cases h
    | some ob => cases u <;> (cases h; exact ⟨_, by simp [call]; rfl, by rfl⟩)

theorem bookAddOrder_handler {key : UInt32} {a : Nat} (h : m.bookAddOrder key a = some m') :
    m'.handler = m.handler := by
  obtain ⟨ob, -, h⟩ := Option.bind_eq_some.1 h
  obtain ⟨_, -, h⟩ := Option.bind_eq_some.1 h
  cases h
  rfl

theorem bookDeleteOrder_handler {key : UInt32} {a : Nat} (h : m.bookDeleteOrder key a = some m') :
    m'.handler = m.handler := by
  obtain ⟨ob, -, h⟩ := Option.bind_eq_some.1 h
  obtain ⟨_, -, h⟩ := Option.bind_eq_some.1 h
  cases h
  rfl

/-- An execution reports exactly one price, the one it is given.
Source: `market_manager.go` `executeOrder`
Kind: L -/
theorem executeOrderNode_executionPrices {a : Nat} {p q : UInt64} {e : ErrorCode}
    (h : m.executeOrderNode a p q = some (m', e)) :
    ∃ cs, m'.handler = m.handler ++ cs ∧ HandlerCall.executionPrices cs = [p] := by
  unfold MarketManager.executeOrderNode at h
  dsimp only at h
  obtain ⟨heap, -, h⟩ := Option.bind_eq_some.1 h
  split at h
  · obtain ⟨m₃, h₃, h⟩ := Option.bind_eq_some.1 h
    obtain ⟨m₄, h₄, h⟩ := Option.bind_eq_some.1 h
    cases h
    obtain ⟨cs, rfl, hcs⟩ := updateLevel_executionPrices h₃
    exact ⟨_, by simp only [call, setOrder, bookDeleteOrder_handler h₄, List.append_assoc]; rfl,
      by simp only [HandlerCall.executionPrices_append, hcs]; rfl⟩
  · obtain ⟨m₃, h₃, h⟩ := Option.bind_eq_some.1 h
    cases h
    obtain ⟨cs, rfl, hcs⟩ := updateLevel_executionPrices h₃
    exact ⟨_, by simp only [call, setOrder, List.append_assoc]; rfl,
      by simp only [HandlerCall.executionPrices_append, hcs]; rfl⟩

end MarketManager

/-! ## A book crossed only by one order -/

namespace View

/-- Every level of `bids` is priced below every level of `asks`, except a level of `asks` that
holds `c` alone. Source: none. Kind: D -/
def CrossedOnlyBy (c : Nat) (bids asks : List (UInt64 × List Nat)) : Prop :=
  ∀ e ∈ bids, ∀ e' ∈ asks, e.1 < e'.1 ∨ e'.2 = [c]

/-- Taking an order off both sides keeps the only crossing at `c`: a level that held `c` alone
either still does or is gone. Source: none. Kind: L -/
theorem CrossedOnlyBy.erase {c : Nat} {vb va : List (UInt64 × List Nat)}
    (h : CrossedOnlyBy c vb va) (x : Nat) :
    CrossedOnlyBy c (View.erase x vb) (View.erase x va) := by
  intro e he e' he'
  obtain ⟨l, hl⟩ := price_mem_of_mem_erase he
  obtain ⟨⟨p', l'⟩, hl', rfl⟩ := List.mem_map.1 (List.mem_filter.1 he').1
  have hne := (List.mem_filter.1 he').2
  rcases h _ hl _ hl' with hlt | hc
  · exact .inl hlt
  · dsimp only at hc hne ⊢
    subst hc
    by_cases hx : c = x
    · subst hx; simp at hne
    · exact .inr (List.erase_of_not_mem (by simpa [eq_comm] using hx))

theorem CrossedOnlyBy.ite_erase {c : Nat} {vb va : List (UInt64 × List Nat)}
    (h : CrossedOnlyBy c vb va) (p : Prop) [Decidable p] (x : Nat) :
    CrossedOnlyBy c (if p then View.erase x vb else vb) (if p then View.erase x va else va) := by
  split_ifs
  · exact h.erase x
  · exact h

end View

/-- Every bid level of the book under `key` is priced below every ask level, except an ask
level that holds order `c` alone.
Source: none: the state `AddOrder` leaves for `match` after a sell
Kind: D -/
def CrossedOnlyBy (key : UInt32) (c : Nat) (m : MarketManager) : Prop :=
  View.CrossedOnlyBy c (m.view key .bids) (m.view key .asks)

namespace Inv

variable {m m₁ m₂ : MarketManager} {key : UInt32} {ob : OrderBook} {b a c : Nat}
  {p q : UInt64} {e₁ e₂ : ErrorCode}

/-- An execution changes no order's price. Source: `market_manager.go` `executeOrder`. Kind: L -/
theorem executeOrderNode_price {id : UInt64} {e : ErrorCode} (hI : Inv m none none)
    (hr : m.orders id = some a) (h : m.executeOrderNode a p q = some (m₁, e)) (d : Nat) :
    (m₁.heap.orderNodes d).order.price = (m.heap.orderNodes d).order.price := by
  rw [(hI.executeOrderNode hr h).2.2 d]
  split_ifs with hd
  · rw [hd]
  · rfl

/-- An iteration on a book crossed only by `c` executes `c` as its ask, at `c`'s price, and
leaves the book crossed only by `c`.
Source: `market_manager.go` `match` (`price := askOrder.Price`)
Kind: L -/
theorem matchIter_crossedOnlyBy (hI : Inv m none none) (hJ : CrossedOnlyBy key c m)
    (hob : m.orderBooks key = some ob) (h : m.matchPair ob = some (b, a, p, q))
    (h₁ : m.executeOrderNode b p q = some (m₁, e₁))
    (h₂ : m₁.executeOrderNode a p q = some (m₂, e₂)) :
    a = c ∧ p = (m.heap.orderNodes c).order.price ∧ CrossedOnlyBy key c m₂ := by
  obtain ⟨bb, ba, hbb, hba, hnlt, -, hao, hp, -⟩ := MarketManager.matchPair_eq_some h
  obtain ⟨_, _, -, -, lb, -, -, -⟩ := hI.matchPair_linked hob h
  obtain ⟨-, hr₁, -⟩ := hI.matchIter_registered hob h h₁
  have hac : a = c := by
    have hb := hI.best .bids hob
    have ha := hI.best .asks hob
    rw [OrderBook.best_bids, hbb] at hb
    rw [OrderBook.best_asks, hba] at ha
    rcases hJ _ (List.mem_map_of_mem _ (List.mem_of_mem_head? hb.symm)) _
      (List.mem_map_of_mem _ (List.mem_of_mem_head? ha.symm)) with hlt | hc
    · exact absurd hlt hnlt
    · dsimp only at hc
      rw [hc] at hao
      exact (Option.some.inj hao).symm
  subst hac
  refine ⟨rfl, hp, ?_⟩
  have hI₁ := (hI.executeOrderNode lb.registered h₁).1
  unfold CrossedOnlyBy
  rw [hI₁.view_executeOrderNode hr₁ h₂, hI₁.view_executeOrderNode hr₁ h₂,
    hI.view_executeOrderNode lb.registered h₁, hI.view_executeOrderNode lb.registered h₁]
  exact (hJ.ite_erase _ b).ite_erase _ a

/-- Every execution of the loop on a book crossed only by `c` is at `c`'s price.
Source: `market_manager.go` `match`
Kind: L -/
theorem matchLoop_executionPrices (key : UInt32) (c : Nat) :
    ∀ (fuel : Nat) {m m' : MarketManager}, Inv m none none → CrossedOnlyBy key c m →
      MarketManager.matchLoop key fuel m = some m' →
      ∃ cs, m'.handler = m.handler ++ cs ∧
        ∀ p ∈ HandlerCall.executionPrices cs, p = (m.heap.orderNodes c).order.price
  | 0, _, _, _, _, h => by cases h
  | fuel + 1, m, m', hI, hJ, h => by
    unfold MarketManager.matchLoop at h
    obtain ⟨ob, hob, h⟩ := Option.bind_eq_some.1 h
    split at h
    · cases h; exact ⟨[], by simp, by simp [HandlerCall.executionPrices]⟩
    · rename_i b a p q hp
      obtain ⟨⟨m₁, e₁⟩, h₁, h⟩ := Option.bind_eq_some.1 h
      obtain ⟨⟨m₂, e₂⟩, h₂, h⟩ := Option.bind_eq_some.1 h
      obtain ⟨_, _, -, -, lb, -, -, -⟩ := hI.matchPair_linked hob hp
      obtain ⟨-, hr₁, -⟩ := hI.matchIter_registered hob hp h₁
      obtain ⟨-, hpc, hJ₂⟩ := hI.matchIter_crossedOnlyBy hJ hob hp h₁ h₂
      have hI₁ := (hI.executeOrderNode lb.registered h₁).1
      obtain ⟨cs, hcs, hrest⟩ :=
        matchLoop_executionPrices key c fuel (hI.matchIter hob hp h₁ h₂) hJ₂ h
      obtain ⟨cs₁, hh₁, hp₁⟩ := MarketManager.executeOrderNode_executionPrices h₁
      obtain ⟨cs₂, hh₂, hp₂⟩ := MarketManager.executeOrderNode_executionPrices h₂
      have hprice : (m₂.heap.orderNodes c).order.price = (m.heap.orderNodes c).order.price := by
        rw [hI₁.executeOrderNode_price hr₁ h₂, hI.executeOrderNode_price lb.registered h₁]
      refine ⟨cs₁ ++ cs₂ ++ cs, by simp only [hcs, hh₂, hh₁, List.append_assoc], ?_⟩
      intro p' hp'
      simp only [HandlerCall.executionPrices_append, hp₁, hp₂, List.mem_append,
        List.mem_singleton] at hp'
      rcases hp' with (rfl | rfl) | hp'
      · exact hpc
      · exact hpc
      · exact (hrest p' hp').trans hprice

/-! ## The book `AddOrder` leaves for `match` -/

/-- A level of book `key` at `mc` that holds an order other than `c` has the price of a level of
the same tree at `m`, when `mc` has the registry entries and order values of `m` except at `c`.
Source: none. Kind: L -/
theorem price_of_frame {mc : MarketManager} (hI : Inv m none none) (hIc : Inv mc none none)
    (hreg : ∀ {id d}, mc.orders id = some d → d ≠ c → m.orders id = some d)
    (hval : ∀ d, d ≠ c → (mc.heap.orderNodes d).order = (m.heap.orderNodes d).order)
    {j : LevelIndex} {L' d : Nat} (hL' : L' ∈ mc.levelIds key j) (hd : d ∈ mc.heap.nodes L')
    (hdc : d ≠ c) : ∃ L ∈ m.levelIds key j, m.heap.price L = mc.heap.price L' := by
  have l := hIc.linked hL' hd
  have hv := hval d hdc
  obtain ⟨L, hL, hdL⟩ := (hI.registered (hreg l.registered hdc)).placed nofun
  have hp := (hI.linked hL hdL).price
  rw [← hv, l.symbol, l.index] at hL
  rw [← hv, l.price] at hp
  exact ⟨L, hL, hp.symm⟩

/-- A state whose registry entries and order values are those of a state with an uncrossed book,
except at order `c`, which rests in no bid level, has its book crossed only by `c`.
Source: none. Kind: L -/
theorem crossedOnlyBy_of_frame {mc : MarketManager} (hI : Inv m none none)
    (hu : Uncrossed key m) (hIc : Inv mc none none)
    (hreg : ∀ {id d}, mc.orders id = some d → d ≠ c → m.orders id = some d)
    (hval : ∀ d, d ≠ c → (mc.heap.orderNodes d).order = (m.heap.orderNodes d).order)
    (hc : LevelIndex.ofOrder (mc.heap.orderNodes c).order ≠ .bids) : CrossedOnlyBy key c mc := by
  intro e he e' he'
  obtain ⟨L₁, hL₁, rfl⟩ := List.mem_map.1 he
  obtain ⟨L₂, hL₂, rfl⟩ := List.mem_map.1 he'
  obtain ⟨d, hd⟩ := List.exists_mem_of_ne_nil _ (hIc.nonempty hL₁ nofun)
  have hdc : d ≠ c := fun e => hc (e ▸ (hIc.linked hL₁ hd).index)
  obtain ⟨L, hL, hp⟩ := hI.price_of_frame hIc hreg hval hL₁ hd hdc
  by_cases hs : mc.heap.nodes L₂ = [c]
  · exact .inr hs
  · rcases ((hIc.nodes_nodup hL₂).ne_singleton_iff c).1 hs with h0 | ⟨d', hd', hd'c⟩
    · exact absurd h0 (hIc.nonempty hL₂ nofun)
    · obtain ⟨L', hL', hp'⟩ := hI.price_of_frame hIc hreg hval hL₂ hd' hd'c
      refine .inl ?_
      show mc.heap.price L₁ < mc.heap.price L₂
      rw [← hp, ← hp']
      exact hu _ (List.mem_map_of_mem _ hL) _ (List.mem_map_of_mem _ hL')

end Inv

/-- A sell is routed to no bid tree. Source: `orderbook.go` `AddOrder`. Kind: L -/
theorem LevelIndex.ofOrder_ne_bids {o : Order} (hs : o.side = orderSideSell) :
    LevelIndex.ofOrder o ≠ .bids := by
  have hb : o.isBuy = false := by simp [Order.isBuy, hs, orderSideSell, orderSideBuy]
  unfold LevelIndex.ofOrder
  simp only [hb, Bool.false_eq_true, ↓reduceIte]
  split_ifs <;> decide

/-- **Execution price of an incoming sell.** In a reachable state with matching on and an
uncrossed book, every `OnExecuteOrder` that `AddOrder` of a sell reports carries the sell's own
`Price`, also against resting bids priced above it: `match` takes `askOrder.Price`, and the
only ask that crosses the book is the incoming sell.
Source: `market_manager.go` `AddOrder`, `match`
Kind: P -/
theorem Reachable.addOrder_sell_execution_price {m m' : MarketManager} {order : Order}
    {e : ErrorCode} (hm : Reachable m) (hmatch : m.matching = true)
    (hu : Uncrossed order.symbolID m) (hs : order.side = orderSideSell)
    (h : m.addOrder order = some (m', e)) :
    ∃ cs, m'.handler = m.handler ++ cs ∧ ∀ p ∈ HandlerCall.executionPrices cs, p = order.price := by
  have hI := hm.inv
  unfold MarketManager.addOrder at h
  split_ifs at h with h₁ h₂ h₃
  · cases h; exact ⟨[], by simp, by simp [HandlerCall.executionPrices]⟩
  · cases h; exact ⟨[], by simp, by simp [HandlerCall.executionPrices]⟩
  · cases h; exact ⟨[], by simp, by simp [HandlerCall.executionPrices]⟩
  · obtain ⟨m₁, hb, h⟩ := Option.bind_eq_some.1 h
    obtain ⟨m₂, hu₂, h⟩ := Option.bind_eq_some.1 h
    have hI₁ := (hI.register (Option.not_isSome_iff_eq_none.1 h₂)).bookAddOrder
      (by dsimp only; rw [Heap.allocOrder_orderNodes, Function.update_same, Function.update_same])
      (by dsimp only; rw [Heap.allocOrder_orderNodes, Function.update_same]) hb
    obtain ⟨ho₁, hm₁, hv₁⟩ := MarketManager.bookAddOrder_frame hb
    have hI₂ := (hI₁.call _).updateLevel hu₂
    obtain ⟨cs₂, rfl, hcs₂⟩ := MarketManager.updateLevel_executionPrices hu₂
    have hc : (m₁.heap.orderNodes m.heap.next).order = order := by
      rw [hv₁]; simp
    unfold MarketManager.matchIfEnabled at h
    split_ifs at h with hmc
    swap
    · exact absurd (hm₁.trans hmatch) hmc
    obtain ⟨m₃, h₃, h⟩ := Option.map_eq_some'.1 h
    cases h
    have hJ : CrossedOnlyBy order.symbolID m.heap.next
        { m₁.call (.onAddOrder order) with handler := (m₁.call (.onAddOrder order)).handler ++ cs₂ } :=
      hI.crossedOnlyBy_of_frame hu hI₂
        (fun {id d} hd hdc => by
          simp only [MarketManager.call, ho₁, Function.update_apply] at hd
          split_ifs at hd
          · exact absurd (Option.some.inj hd).symm hdc
          · exact hd)
        (fun d hdc => by
          simp only [MarketManager.call, hv₁, Heap.allocOrder_orderNodes,
            Function.update_noteq hdc])
        (by simp only [MarketManager.call, hc]; exact LevelIndex.ofOrder_ne_bids hs)
    obtain ⟨cs, hcs, hp⟩ := hI₂.matchLoop_executionPrices _ _ _ hJ h₃
    refine ⟨[.onAddOrder order] ++ cs₂ ++ cs, ?_, fun p hp' => ?_⟩
    · simp only [hcs, MarketManager.call, MarketManager.bookAddOrder_handler hb, List.append_assoc]
    · simp only [HandlerCall.executionPrices_append, hcs₂, List.mem_append] at hp'
      rcases hp' with (hp' | hp') | hp'
      · simp [HandlerCall.executionPrices] at hp'
      · simp at hp'
      · simpa [MarketManager.call, hc] using hp p hp'

/-- `demoOps` (bids at 10, an ask at 12), then matching switched on.
Source: none: a run for the failing input
Kind: D -/
def matchingOps : List Op := demoOps ++ [.enableMatching]

/-- The state `matchingOps` reaches. Source: none. Kind: D -/
def demoMatching : MarketManager := (newMarketManager.run matchingOps).getD newMarketManager

/-- A sell at 9 for 2, below the resting bids. Source: none. Kind: D -/
def sellThrough : Order := newLimitOrder 4 1 orderSideSell 9 2

/-- The state after `AddOrder(sellThrough)`. Source: none. Kind: D -/
def soldThrough : MarketManager :=
  ((demoMatching.addOrder sellThrough).map Prod.fst).getD demoMatching

theorem reachable_demoMatching : Reachable demoMatching :=
  Reachable.init.run (show newMarketManager.run matchingOps = some demoMatching from rfl)
    (by simp [matchingOps, demoOps, Op.Admissible])

/-- The sell at 9 hits the bid resting at 10, and both executions are reported at 9. -/
theorem sell_through_bid_price :
    Reachable demoMatching ∧ demoMatching.matching = true ∧ Uncrossed 1 demoMatching ∧
    sellThrough.side = orderSideSell ∧
    demoMatching.addOrder sellThrough = some (soldThrough, .errorOK) ∧
    (∃ cs, soldThrough.handler = demoMatching.handler ++ cs ∧
      ∀ p ∈ HandlerCall.executionPrices cs, p = sellThrough.price) ∧
    (demoMatching.heap.orderNodes 0).order.price = 10 ∧
    HandlerCall.executionPrices (soldThrough.handler.drop demoMatching.handler.length) = [9, 9] := by
  have hu : Uncrossed 1 demoMatching := by unfold Uncrossed; decide
  have hadd : demoMatching.addOrder sellThrough = some (soldThrough, .errorOK) := rfl
  exact ⟨reachable_demoMatching, rfl, hu, rfl, hadd,
    Reachable.addOrder_sell_execution_price reachable_demoMatching rfl hu rfl hadd, by decide,
    by decide⟩

end GoTrader.Matching
