import GoTrader.Matching.Priority

/-!
# Stop orders: what `Match` touches, and why a stop order is never triggered

`match` reads `ob.bestBid` and `ob.bestAsk` and executes the front orders of those two levels;
the activation of stop and trailing-stop orders is a `TODO` of the source. So a call to
`Match(symbolID)` changes the bid and ask trees of that book and nothing else: every other book,
and the four stop trees of this one, keep their levels, prices and FIFO lists, and every order
that rests outside the two trees keeps its registry entry. Every other public call changes the
registry only at the ids it names, at the orders of a book or symbol it deletes, and through the
matching it ends with. So a stop order rests, unchanged, until a call names it.

* `MatchTouches` — the trees `match` may change: the bids and asks of its book;
* `KeepsUntouched` — the frame: views and registry entries outside those trees are unchanged;
* `Inv.matchIter_keepsUntouched` — one iteration of the loop keeps the frame;
  `Inv.matchLoop_keepsUntouched` — so does every run of the loop;
* `Reachable.match_keeps_stops` — from every reachable state, `Match` returns and keeps the
  frame;
* `LevelIndex.isStop`, `Op.names` — the stop trees, and the calls that name an order id or a
  symbol;
* `Inv.step_keepsStop` — one call that names neither a resting stop order nor its symbol keeps
  its registry entry; `Reachable.stop_order_rests` — so does every run of such calls.
-/

namespace GoTrader.Matching

open MarketManager

/-- Tree `j` of book `k` is one that `match` on book `key` reads: its bids or its asks.
Source: `market_manager.go` `match` (it reads `ob.bestBid` and `ob.bestAsk` only)
Kind: D -/
def MatchTouches (key k : UInt32) (j : LevelIndex) : Prop :=
  k = key ∧ (j = .bids ∨ j = .asks)

instance (key k : UInt32) (j : LevelIndex) : Decidable (MatchTouches key k j) :=
  inferInstanceAs (Decidable (k = key ∧ (j = .bids ∨ j = .asks)))

/-- From `m` to `m'`, every tree outside the bids and asks of book `key` keeps its view, and
every order resting outside them keeps its registry entry.
Source: none: a frame condition
Kind: D -/
structure KeepsUntouched (key : UInt32) (m m' : MarketManager) : Prop where
  view : ∀ k j, ¬ MatchTouches key k j → m'.view k j = m.view k j
  registry : ∀ x o, m.registry x = some o →
    ¬ MatchTouches key o.symbolID (LevelIndex.ofOrder o) → m'.registry x = some o

namespace KeepsUntouched

variable {key : UInt32} {m m₁ m₂ : MarketManager}

theorem refl (key : UInt32) (m : MarketManager) : KeepsUntouched key m m :=
  ⟨fun _ _ _ => rfl, fun _ _ hx _ => hx⟩

theorem trans (h₁ : KeepsUntouched key m m₁) (h₂ : KeepsUntouched key m₁ m₂) :
    KeepsUntouched key m m₂ :=
  ⟨fun k j hkj => (h₂.view k j hkj).trans (h₁.view k j hkj),
    fun x o hx ho => h₂.registry x o (h₁.registry x o hx ho) ho⟩

end KeepsUntouched

/-- An order resting outside the two trees is not registered under the id of an order resting
in them. Source: none: infrastructure. Kind: L -/
theorem registry_ne_of_touches {m : MarketManager} {key : UInt32} {x : UInt64} {o : Order} {c : Nat} (hx : m.registry x = some o)
    (ho : ¬ MatchTouches key o.symbolID (LevelIndex.ofOrder o))
    (hr : m.orders (m.heap.orderNodes c).order.id = some c)
    (hc : MatchTouches key (m.heap.orderNodes c).order.symbolID
      (LevelIndex.ofOrder (m.heap.orderNodes c).order)) :
    x ≠ (m.heap.orderNodes c).order.id := by
  rintro rfl
  simp only [registry, hr, Option.map_some', Option.some.injEq] at hx
  exact ho (hx ▸ hc)

namespace Inv

variable {m : MarketManager} {key : UInt32}

/-- One iteration of `match` executes a bid and an ask of book `key`, and so keeps the frame.
Source: `market_manager.go` `match`, `executeOrder`
Kind: L -/
theorem matchIter_keepsUntouched {ob : OrderBook} {b a : Nat} {p q : UInt64}
    {m₁ m₂ : MarketManager} {e₁ e₂ : ErrorCode} (hI : Inv m none none)
    (hob : m.orderBooks key = some ob) (h : m.matchPair ob = some (b, a, p, q))
    (h₁ : m.executeOrderNode b p q = some (m₁, e₁))
    (h₂ : m₁.executeOrderNode a p q = some (m₂, e₂)) : KeepsUntouched key m m₂ := by
  obtain ⟨bb, ba, hbb, hba, lb, la, hbL, haL⟩ := hI.matchPair_linked hob h
  obtain ⟨hI₁, -, -⟩ := hI.executeOrderNode lb.registered h₁
  obtain ⟨-, hr₁, hv₁⟩ := hI.matchIter_registered hob h h₁
  refine ⟨fun k j hkj => ?_, fun x o hx ho => ?_⟩
  · have hb := hI.erase_view_of_ne (List.mem_of_mem_head? hbb) hbL fun h => hkj ⟨h.1, .inl h.2⟩
    have ha := hI.erase_view_of_ne (List.mem_of_mem_head? hba) haL fun h => hkj ⟨h.1, .inr h.2⟩
    rw [hI₁.view_executeOrderNode hr₁ h₂, hI.view_executeOrderNode lb.registered h₁, hb,
      ite_self, ha, ite_self]
  · have hxb := registry_ne_of_touches hx ho lb.registered ⟨lb.symbol, .inl lb.index⟩
    have hxa := registry_ne_of_touches hx ho la.registered ⟨la.symbol, .inr la.index⟩
    rw [hI₁.registry_executeOrderNode hr₁ h₂, Function.update_noteq hxa,
      hI.registry_executeOrderNode lb.registered h₁, Function.update_noteq hxb, hx]

/-- Every run of the loop of `match` on book `key` keeps the frame.
Source: `market_manager.go` `match`
Kind: L -/
theorem matchLoop_keepsUntouched (key : UInt32) :
    ∀ (fuel : Nat) {m m' : MarketManager}, Inv m none none →
      MarketManager.matchLoop key fuel m = some m' → KeepsUntouched key m m'
  | 0, _, _, _, h => by cases h
  | fuel + 1, m, m', hI, h => by
    unfold MarketManager.matchLoop at h
    obtain ⟨ob, hob, h⟩ := Option.bind_eq_some.1 h
    split at h
    · cases h
      exact .refl key m
    · rename_i b a p q hp
      obtain ⟨⟨m₁, e₁⟩, h₁, h⟩ := Option.bind_eq_some.1 h
      obtain ⟨⟨m₂, e₂⟩, h₂, h⟩ := Option.bind_eq_some.1 h
      exact (hI.matchIter_keepsUntouched hob hp h₁ h₂).trans
        (matchLoop_keepsUntouched key fuel (hI.matchIter hob hp h₁ h₂) h)

theorem matchIfEnabled_keepsUntouched {m' : MarketManager} {e : ErrorCode} (hI : Inv m none none)
    (h : m.matchIfEnabled key = some (m', e)) : KeepsUntouched key m m' := by
  unfold MarketManager.matchIfEnabled at h
  split_ifs at h
  · obtain ⟨m₁, h₁, h⟩ := Option.map_eq_some'.1 h
    cases h
    exact hI.matchLoop_keepsUntouched key _ h₁
  · cases h
    exact .refl key m

theorem matchSymbol_keepsUntouched {m' : MarketManager} {e : ErrorCode} (hI : Inv m none none)
    (h : m.matchSymbol key = some (m', e)) : KeepsUntouched key m m' := by
  unfold MarketManager.matchSymbol at h
  split at h
  · cases h
    exact .refl key m
  · obtain ⟨m₁, h₁, h⟩ := Option.map_eq_some'.1 h
    cases h
    exact hI.matchLoop_keepsUntouched key _ h₁

end Inv

/-- From every reachable state, `Match(symbolID)` returns, and changes nothing outside the bid
and ask trees of book `symbolID`: every other tree of every book, stop and trailing-stop trees
included, keeps its levels, prices and FIFO lists, and every order resting outside those two
trees (every stop order, and every order of another symbol) keeps its registry entry. Stop
orders are never activated or executed by matching.
Source: `market_manager.go` `Match`, `match`, `executeOrder`
Kind: P -/
theorem Reachable.match_keeps_stops {m : MarketManager} (hm : Reachable m) (key : UInt32) :
    ∃ m' e, m.matchSymbol key = some (m', e) ∧
      (∀ k j, ¬ MatchTouches key k j → m'.view k j = m.view k j) ∧
      ∀ x o, m.registry x = some o →
        ¬ MatchTouches key o.symbolID (LevelIndex.ofOrder o) → m'.registry x = some o := by
  have hI := hm.inv
  obtain ⟨⟨m', e⟩, h⟩ := Option.isSome_iff_exists.1 (hI.matchSymbol_isSome hm.balanced key)
  have hk := hI.matchSymbol_keepsUntouched h
  exact ⟨m', e, h, hk.view, hk.registry⟩

theorem crossed_match_keeps_stops :
    Reachable crossed ∧ ∃ m' e, crossed.matchSymbol 1 = some (m', e) ∧
      (∀ k j, ¬ MatchTouches 1 k j → m'.view k j = crossed.view k j) ∧
      ∀ x o, crossed.registry x = some o →
        ¬ MatchTouches 1 o.symbolID (LevelIndex.ofOrder o) → m'.registry x = some o :=
  ⟨crossed_reachable, Reachable.match_keeps_stops crossed_reachable 1⟩

/-! ## A resting stop order waits for a call that names it -/

/-- The stop and trailing-stop trees, which `match` never reads.
Source: `orderbook.go` `OrderBook` (`buyStop`, `sellStop`, `trailingBuyStop`, `trailingSellStop`);
`market_manager.go` `match` (stop activation is a `TODO`)
Kind: D -/
def LevelIndex.isStop : LevelIndex → Bool
  | .bids | .asks => false
  | _ => true

theorem not_matchTouches_of_isStop {o : Order} (hs : (LevelIndex.ofOrder o).isStop = true)
    (key : UInt32) : ¬ MatchTouches key o.symbolID (LevelIndex.ofOrder o) := by
  rintro ⟨-, h | h⟩ <;> rw [h] at hs <;> cases hs

/-- The call names the order under id `x` or the symbol `k`: it is a call on that order, or it
deletes that book or that symbol.
Source: `market_manager.go` (the public methods and their arguments)
Kind: D -/
def Op.names (x : UInt64) (k : UInt32) : Op → Bool
  | .reduceOrder id _ | .modifyOrder id _ _ | .mitigateOrder id _ _ | .replaceOrder id _ _ _
  | .deleteOrder id | .executeOrder id _ | .executeOrderWithPrice id _ _ => id == x
  | .deleteOrderBook id _ | .deleteSymbol id _ => id == k
  | _ => false

namespace Inv

variable {m m' : MarketManager} {e : ErrorCode} {x : UInt64} {o : Order}

/-- A stop order registered before a `matchIfEnabled` is registered after it, unchanged.
Source: `market_manager.go` (`if m.matching { m.match(ob) }`)
Kind: L -/
theorem registry_of_matchIfEnabled {key : UInt32} (hI : Inv m none none)
    (h : m.matchIfEnabled key = some (m', e)) (hx : m.registry x = some o)
    (hs : (LevelIndex.ofOrder o).isStop = true) : m'.registry x = some o :=
  (hI.matchIfEnabled_keepsUntouched h).registry x o hx (not_matchTouches_of_isStop hs _)

theorem registry_deleteOrder_of_ne {id : UInt64} (hI : Inv m none none)
    (h : m.deleteOrder id = some (m', e)) (hx : x ≠ id) : m'.registry x = m.registry x := by
  obtain ⟨-, ho, hv⟩ := hI.deleteOrder h
  simp only [MarketManager.registry, ho, Function.update_noteq hx, hv]

theorem registry_executeOrder_of_ne {id q : UInt64} (hI : Inv m none none)
    (h : m.executeOrder id q = some (m', e)) (hx : x ≠ id) : m'.registry x = m.registry x := by
  unfold MarketManager.executeOrder at h
  split at h
  · cases h; rfl
  · rename_i a ha
    dsimp only at h
    split_ifs at h
    · cases h; rfl
    · rw [hI.registry_executeOrderNode ha h, Function.update_noteq hx]

theorem registry_executeOrderWithPrice_of_ne {id p q : UInt64} (hI : Inv m none none)
    (h : m.executeOrderWithPrice id p q = some (m', e)) (hx : x ≠ id) :
    m'.registry x = m.registry x := by
  unfold MarketManager.executeOrderWithPrice at h
  split at h
  · cases h; rfl
  · rename_i a ha
    dsimp only at h
    split_ifs at h
    · cases h; rfl
    · rw [hI.registry_executeOrderNode ha h, Function.update_noteq hx]

theorem registry_reduceOrder_of_ne {id q : UInt64} (hI : Inv m none none)
    (h : m.reduceOrder id q = some (m', e)) (hx : x ≠ id) : m'.registry x = m.registry x := by
  have h' := h
  unfold MarketManager.reduceOrder at h
  split at h
  · cases h; rfl
  · rename_i a ha
    dsimp only at h
    split_ifs at h with hq hge
    · cases h; rfl
    · exact hI.registry_deleteOrder_of_ne h hx
    · rw [(hI.reduceOrder_partial ha hq hge h').2.2, Function.update_noteq hx]

theorem addOrder_keepsStop {order : Order} (hI : Inv m none none)
    (h : m.addOrder order = some (m', e)) (hx : m.registry x = some o)
    (hs : (LevelIndex.ofOrder o).isStop = true) : m'.registry x = some o := by
  have h' := h
  unfold MarketManager.addOrder at h
  split_ifs at h with hv hdup hnone
  · cases h; exact hx
  · cases h; exact hx
  · cases h; exact hx
  · have hnew := Option.not_isSome_iff_eq_none.1 hdup
    obtain ⟨mc, hIc, -, -, -, hreg, -, -, hmc⟩ := hI.addOrder_spec (not_not.1 hv) hnew
      (Option.isSome_iff_ne_none.2 fun hn => hnone (by rw [hn]; rfl)) h'
    have hxn : x ≠ order.id := by rintro rfl; simp [MarketManager.registry, hnew] at hx
    exact hIc.registry_of_matchIfEnabled hmc (by rw [hreg, Function.update_noteq hxn, hx]) hs

theorem modifyOrder_keepsStop {id p q : UInt64} (hI : Inv m none none)
    (h : m.modifyOrder id p q = some (m', e)) (hx : m.registry x = some o)
    (hs : (LevelIndex.ofOrder o).isStop = true) (hxid : x ≠ id) : m'.registry x = some o := by
  unfold MarketManager.modifyOrder at h
  split at h
  · cases h; exact hx
  · rename_i a ha
    split_ifs at h with hq
    · cases h; exact hx
    · simp only [Option.bind_eq_bind] at h
      obtain ⟨mc, hIc, -, hreg, -, -, hmc⟩ := hI.reinsertCalls_spec ha
        (fun o => { o with price := p, quantity := q, leavesQuantity := q, executedQuantity := 0 })
        (fun _ => rfl) (fun _ => rfl) h
      exact hIc.registry_of_matchIfEnabled hmc (by rw [hreg, Function.update_noteq hxid, hx]) hs

theorem mitigateOrder_keepsStop {id p q : UInt64} (hI : Inv m none none)
    (h : m.mitigateOrder id p q = some (m', e)) (hx : m.registry x = some o)
    (hs : (LevelIndex.ofOrder o).isStop = true) (hxid : x ≠ id) : m'.registry x = some o := by
  unfold MarketManager.mitigateOrder at h
  split at h
  · cases h; exact hx
  · rename_i a ha
    dsimp only at h
    split_ifs at h
    · rw [hI.registry_deleteOrder_of_ne h hxid, hx]
    · simp only [Option.bind_eq_bind] at h
      obtain ⟨mc, hIc, -, hreg, -, -, hmc⟩ := hI.reinsertCalls_spec ha
        (fun o => { o with price := p, quantity := q, leavesQuantity := q - o.executedQuantity })
        (fun _ => rfl) (fun _ => rfl) h
      exact hIc.registry_of_matchIfEnabled hmc (by rw [hreg, Function.update_noteq hxid, hx]) hs

theorem replaceOrder_keepsStop {id newID p q : UInt64} (hI : Inv m none none)
    (h : m.replaceOrder id newID p q = some (m', e)) (hx : m.registry x = some o)
    (hs : (LevelIndex.ofOrder o).isStop = true) (hxid : x ≠ id) : m'.registry x = some o := by
  have h' := h
  unfold MarketManager.replaceOrder at h
  split at h
  · cases h; exact hx
  · rename_i a ha
    split_ifs at h with hq hdup
    · cases h; exact hx
    · cases h; exact hx
    · have hnew := Option.not_isSome_iff_eq_none.1 hdup
      obtain ⟨mc, b, hIc, -, -, hreg, -, -, hmc⟩ := hI.replaceOrder_spec ha hq hnew h'
      have hxn : x ≠ newID := by rintro rfl; simp [MarketManager.registry, hnew] at hx
      exact hIc.registry_of_matchIfEnabled hmc
        (by rw [hreg, Function.update_noteq hxn, Function.update_noteq hxid, hx]) hs

theorem deleteOrderBook_keepsStop {k : UInt32} {enum : List UInt64} (hI : Inv m none none)
    (hB : m.Balanced) (henum : IsEnum enum m.orders) (h : m.deleteOrderBook k enum = some (m', e))
    (hx : m.registry x = some o) (hk : o.symbolID ≠ k) : m'.registry x = some o := by
  by_cases hob : (m.orderBooks k).isSome
  · obtain ⟨m₁, h₁, -, hreg, -⟩ := hI.deleteOrderBook_spec hB henum hob
    obtain ⟨rfl, -⟩ := Prod.mk.inj (Option.some.inj (h₁.symm.trans h))
    simp [hreg, hx, Option.filter_some, hk]
  · simp only [MarketManager.deleteOrderBook, Option.not_isSome_iff_eq_none.1 hob,
      Option.some.injEq, Prod.mk.injEq] at h
    exact h.1 ▸ hx

theorem deleteSymbol_keepsStop {k : UInt32} {enum : List UInt64} (hI : Inv m none none)
    (hB : m.Balanced) (henum : IsEnum enum m.orders) (h : m.deleteSymbol k enum = some (m', e))
    (hx : m.registry x = some o) (hk : o.symbolID ≠ k) : m'.registry x = some o := by
  by_cases hsym : (m.symbols k).isSome
  · obtain ⟨m₁, h₁, -, -, hreg, -⟩ := hI.deleteSymbol_spec hB henum hsym
    obtain ⟨rfl, -⟩ := Prod.mk.inj (Option.some.inj (h₁.symm.trans h))
    simp [hreg, hx, Option.filter_some, hk]
  · simp only [MarketManager.deleteSymbol, Option.not_isSome_iff_eq_none.1 hsym,
      Option.some.injEq, Prod.mk.injEq] at h
    exact h.1 ▸ hx

/-- One public call that names neither a resting stop order's id nor its symbol leaves its
registry entry as it was.
Source: `market_manager.go`
Kind: L -/
theorem step_keepsStop {op : Op} (hI : Inv m none none) (hB : m.Balanced) (hop : op.Admissible m)
    (h : m.step op = some (m', e)) (hx : m.registry x = some o)
    (hs : (LevelIndex.ofOrder o).isStop = true) (hn : op.names x o.symbolID = false) :
    m'.registry x = some o := by
  cases op with
  | addSymbol s =>
    obtain rfl : (m.addSymbol s).1 = m' := by rw [Option.some.inj h]
    unfold MarketManager.addSymbol
    split_ifs <;> exact hx
  | deleteSymbol k enum => exact hI.deleteSymbol_keepsStop hB hop h hx (ne_of_beq_false hn).symm
  | addOrderBook s =>
    obtain rfl : (m.addOrderBook s).1 = m' := by rw [Option.some.inj h]
    unfold MarketManager.addOrderBook
    split_ifs <;> exact hx
  | deleteOrderBook k enum =>
    exact hI.deleteOrderBook_keepsStop hB hop h hx (ne_of_beq_false hn).symm
  | addOrder order => exact hI.addOrder_keepsStop h hx hs
  | reduceOrder id q => rw [hI.registry_reduceOrder_of_ne h (ne_of_beq_false hn).symm, hx]
  | modifyOrder id p q => exact hI.modifyOrder_keepsStop h hx hs (ne_of_beq_false hn).symm
  | mitigateOrder id p q => exact hI.mitigateOrder_keepsStop h hx hs (ne_of_beq_false hn).symm
  | replaceOrder id newID p q =>
    exact hI.replaceOrder_keepsStop h hx hs (ne_of_beq_false hn).symm
  | deleteOrder id => rw [hI.registry_deleteOrder_of_ne h (ne_of_beq_false hn).symm, hx]
  | executeOrder id q => rw [hI.registry_executeOrder_of_ne h (ne_of_beq_false hn).symm, hx]
  | executeOrderWithPrice id p q =>
    rw [hI.registry_executeOrderWithPrice_of_ne h (ne_of_beq_false hn).symm, hx]
  | matchSymbol k =>
    exact (hI.matchSymbol_keepsUntouched h).registry x o hx (not_matchTouches_of_isStop hs _)
  | enableMatching => cases h; exact hx
  | disableMatching => cases h; exact hx

end Inv

/-- Stop orders are never triggered. From every reachable state, along every run of public
calls (each with a genuine iteration order), a resting stop or trailing-stop order keeps its
registry entry, value unchanged, as long as no call names its id (`ReduceOrder`, `ModifyOrder`,
`MitigateOrder`, `ReplaceOrder`, `DeleteOrder`, `ExecuteOrder`, `ExecuteOrderWithPrice`) or
deletes its book or its symbol: no `Match`, and no matching after another call, executes or
activates it, however the market moves.
Source: `market_manager.go` (every public method; `match` leaves stop activation as a `TODO`)
Kind: P -/
theorem Reachable.stop_order_rests {m m' : MarketManager} {ops : List Op} (hm : Reachable m)
    (hr : Runs m ops m') {x : UInt64} {o : Order} (hx : m.registry x = some o)
    (hs : (LevelIndex.ofOrder o).isStop = true)
    (hn : ∀ op ∈ ops, op.names x o.symbolID = false) : m'.registry x = some o := by
  induction hr with
  | nil => exact hx
  | cons hop h _ ih =>
    exact ih (.step hm hop h) (hm.inv.step_keepsStop hm.balanced hop h hx hs
      (hn _ (List.mem_cons_self _ _))) fun op hop' => hn op (List.mem_cons_of_mem _ hop')

/-- A buy stop order at 11 for symbol 1. Source: none: an order for the witnesses. Kind: D -/
def stopOrder : Order := newOrder 5 1 orderTypeStop orderSideBuy 0 11 2

/-- The demo state with `stopOrder` resting. Source: none: a state for the witnesses. Kind: D -/
def stopDemo : MarketManager := (demo.run [.addOrder stopOrder]).getD demo

theorem stopDemo_reachable : Reachable stopDemo :=
  demo_reachable.run (show demo.run [.addOrder stopOrder] = some stopDemo from rfl)
    (by simp [Op.Admissible])

/-- Matching on, then a sell at 9 for 20 that trades through both bids at 10.
Source: none: a run for the witnesses
Kind: D -/
def stopOps : List Op := [.enableMatching, .addOrder (newLimitOrder 6 1 orderSideSell 9 20)]

/-- The state `stopOps` reaches from `stopDemo`. Source: none. Kind: D -/
def stopRun : MarketManager := (stopDemo.run stopOps).getD stopDemo

theorem stopDemo_stop_order_rests :
    Reachable stopDemo ∧ Runs stopDemo stopOps stopRun ∧ stopDemo.registry 5 = some stopOrder ∧
    (LevelIndex.ofOrder stopOrder).isStop = true ∧
    (∀ op ∈ stopOps, op.names 5 stopOrder.symbolID = false) ∧ stopRun.registry 5 = some stopOrder :=
  have hr : Runs stopDemo stopOps stopRun := Runs.of_run rfl (by simp [stopOps, Op.Admissible])
  have hx : stopDemo.registry 5 = some stopOrder := rfl
  ⟨stopDemo_reachable, hr, hx, rfl, by decide,
    Reachable.stop_order_rests stopDemo_reachable hr hx rfl (by decide)⟩

end GoTrader.Matching
