import GoTrader.Matching.InvariantBook
import Mathlib.Tactic.Abel

/-!
# The registry and order updates keep the invariant

* `Inv.register` / `Inv.unregister` — `m.orders[id] = order` on a fresh node, and
  `delete(m.orders, id)` on the free one;
* `Inv.setOrder` — rewriting the value of the free order (keeping its id);
* `Inv.reduce` — `executeOrder` and `ReduceOrder` on a linked order: its quantities and its
  level's counters change together;
* `Inv.deleteOrder`, `Inv.executeOrderNode` — the two ways an order leaves the book, with the
  frame facts the matching loop and `DeleteOrderBook` need (`deleteOrder_frame`,
  `executeOrderNode_orders`);
* `Inv.matchLoop` — every iteration of `match` executes two linked orders.
-/

namespace GoTrader.Matching

/-- Changing one summand of a list without repetitions changes the `uint64` sum by the
difference. Source: none: infrastructure. Kind: L -/
theorem sum_map_change {l : List Nat} {a : Nat} (hnd : l.Nodup) (ha : a ∈ l)
    (f f' : Nat → UInt64) (hf : ∀ b ∈ l, b ≠ a → f' b = f b) :
    (l.map f').sum = (l.map f).sum - (f a - f' a) := by
  have hrest : (l.erase a).map f' = (l.erase a).map f :=
    List.map_congr_left fun b hb => hf b (List.mem_of_mem_erase hb) ((hnd.mem_erase_iff.1 hb).1)
  rw [← List.sum_map_erase f ha, ← List.sum_map_erase f' ha, hrest]
  abel

/-- A level's counters stay right when one of its orders gets a new value and the counters
drop by the differences.
Source: `orderbook.go` `(*OrderBook).ReduceOrder`
Kind: L -/
theorem Counts.reduce {h : Heap} {L a : Nat} (hc : Counts h L) (hnd : (h.nodes L).Nodup)
    (ha : a ∈ h.nodes L) (o : Order) :
    Counts ((h.setOrderNode a { h.orderNodes a with order := o }).reduceLevel L
      ((h.orderNodes a).order.leavesQuantity - o.leavesQuantity)
      ((h.orderNodes a).order.hiddenQuantity - o.hiddenQuantity)
      ((h.orderNodes a).order.visibleQuantity - o.visibleQuantity)) L := by
  have hsum : ∀ g : Order → UInt64, ((h.nodes L).map fun b =>
      g (Function.update h.orderNodes a { h.orderNodes a with order := o } b).order).sum =
      ((h.nodes L).map fun b => g (h.orderNodes b).order).sum - (g (h.orderNodes a).order - g o) :=
    fun g => by
    rw [sum_map_change hnd ha (fun b => g (h.orderNodes b).order) _
      fun b _ hb => by simp [Function.update_noteq hb]]
    simp
  refine ⟨?_, ?_, ?_, ?_, ?_⟩ <;>
    simp only [Heap.nodes_reduceLevel, Heap.nodes_setOrderNode, Heap.reduceLevel_orderNodes,
      Heap.setOrderNode_orderNodes, Heap.reduceLevel_levelNodes, if_pos, hsum,
      Heap.setOrderNode_levelNodes, ← hc.total, ← hc.hidden, ← hc.visible]
  · exact hc.size
  · exact hc.orders

/-- When the loop goes on, its test has found the fronts of the best bid and best ask levels,
at crossing prices, with the ask's price and the smaller leaves quantity.
Source: `market_manager.go` `match`
Kind: L -/
theorem MarketManager.matchPair_eq_some {m : MarketManager} {ob : OrderBook} {b a : Nat}
    {p q : UInt64} (h : m.matchPair ob = some (b, a, p, q)) :
    ∃ bb ba, ob.bestBid = some bb ∧ ob.bestAsk = some ba ∧
      ¬ m.heap.price bb < m.heap.price ba ∧
      (m.heap.nodes bb).head? = some b ∧ (m.heap.nodes ba).head? = some a ∧
      p = (m.heap.orderNodes a).order.price ∧
      q = (if (m.heap.orderNodes a).order.leavesQuantity < (m.heap.orderNodes b).order.leavesQuantity
        then (m.heap.orderNodes a).order.leavesQuantity
        else (m.heap.orderNodes b).order.leavesQuantity) := by
  unfold MarketManager.matchPair at h
  split at h
  · rename_i bb ba hbb hba
    split_ifs at h with hlt
    split at h
    · rename_i hbo hao
      cases h
      exact ⟨bb, ba, hbb, hba, hlt, hbo, hao, rfl, rfl⟩
    · cases h
  · cases h

namespace Inv

variable {m : MarketManager} {a : Nat}

/-- Allocating a node for a new order and registering it under its (unused) id: the new node is
the free order.
Source: `market_manager.go` `AddOrder` (`NewOrderNode`, `m.orders[order.ID] = orderNode`)
Kind: L -/
theorem register (hI : Inv m none none) {o : Order} (hnew : m.orders o.id = none) :
    Inv { m with heap := m.heap.allocOrder o,
                 orders := Function.update m.orders o.id (some m.heap.next) }
      (some m.heap.next) none := by
  set N := m.heap.next
  have hlt : ∀ {k i x b}, x ∈ m.levelIds k i → b ∈ m.heap.nodes x → b ≠ N :=
    fun hx hb => Nat.ne_of_lt (hI.registered (hI.linked hx hb).registered).lt
  have hid : ∀ {k i x b}, x ∈ m.levelIds k i → b ∈ m.heap.nodes x →
      (m.heap.orderNodes b).order.id ≠ o.id := fun hx hb e => by
    have := (hI.linked hx hb).registered
    rw [e, hnew] at this
    cases this
  have ho : ∀ {b}, b ≠ N → (m.heap.allocOrder o).orderNodes b = m.heap.orderNodes b :=
    fun hb => Function.update_noteq hb _ _
  refine ⟨hI.descending, hI.best, hI.sorted, hI.nodup, hI.unique,
    fun hx => Nat.lt_succ_of_lt (hI.level_lt hx), hI.nonempty, hI.nodes_nodup,
    fun hx => (hI.counts hx).of_eq rfl fun b hb => by rw [ho (hlt hx hb)], fun hx hb => ?_,
    fun hx => (hI.fifo hx).imp_of_mem fun hb hc h => by rwa [ho (hlt hx hb), ho (hlt hx hc)],
    fun {id b} hb => ?_⟩
  · exact (hI.linked hx hb).of_eq (ho (hlt hx hb)) rfl
      ((Function.update_noteq (hid hx hb) _ _).trans (hI.linked hx hb).registered) le_rfl
  · dsimp only at hb
    by_cases e : id = o.id
    · subst e
      rw [Function.update_same] at hb
      cases hb
      exact ⟨by simp [Heap.allocOrder], Nat.lt_succ_self _, fun h => absurd rfl h,
        fun _ {k i x} hx hN => hlt hx hN rfl⟩
    · rw [Function.update_noteq e] at hb
      have r := hI.registered hb
      have hbN : b ≠ N := Nat.ne_of_lt r.lt
      exact ⟨by rw [ho hbN]; exact r.id, Nat.lt_succ_of_lt r.lt,
        fun _ => by rw [ho hbN]; exact r.placed nofun,
        fun e' => absurd (Option.some.inj e').symm hbN⟩

/-- Unregistering the free order: no order is free any more.
Source: `market_manager.go` `DeleteOrder` (`delete(m.orders, id)`)
Kind: L -/
theorem unregister {id : UInt64} (hI : Inv m (some a) none) (hr : m.orders id = some a) :
    Inv { m with orders := Function.update m.orders id none } none none := by
  have ra := hI.registered hr
  have hne : ∀ {k i x b}, x ∈ m.levelIds k i → b ∈ m.heap.nodes x →
      (m.heap.orderNodes b).order.id ≠ id := fun hx hb e => by
    have := (hI.linked hx hb).registered
    rw [e, hr] at this
    exact ra.detached rfl hx (Option.some.inj this ▸ hb)
  refine ⟨hI.descending, hI.best, hI.sorted, hI.nodup, hI.unique, hI.level_lt, hI.nonempty,
    hI.nodes_nodup, hI.counts, fun hx hb => ?_, hI.fifo, fun {id' b} hb => ?_⟩
  · exact (hI.linked hx hb).of_eq rfl rfl
      ((Function.update_noteq (hne hx hb) _ _).trans (hI.linked hx hb).registered) le_rfl
  · dsimp only at hb
    have hid : id' ≠ id := fun e => by rw [e, Function.update_same] at hb; cases hb
    rw [Function.update_noteq hid] at hb
    have r := hI.registered hb
    have hba : b ≠ a := fun e => hid (r.id.symm.trans (e ▸ ra.id))
    exact ⟨r.id, r.lt, fun _ => r.placed fun e => hba (Option.some.inj e).symm, nofun⟩

/-- Rewriting the free order's value, with its id kept.
Source: `market_manager.go` `ModifyOrder`, `MitigateOrder` (`order.Price = ...` while off the
book)
Kind: L -/
theorem setOrder (hI : Inv m (some a) none)
    (hr : m.orders (m.heap.orderNodes a).order.id = some a) {o : Order}
    (hid : o.id = (m.heap.orderNodes a).order.id) : Inv (m.setOrder a o) (some a) none := by
  have hfree : ∀ {k i x}, x ∈ m.levelIds k i → a ∉ m.heap.nodes x :=
    (hI.registered hr).detached rfl
  have hne : ∀ {k i x b}, x ∈ m.levelIds k i → b ∈ m.heap.nodes x → b ≠ a :=
    fun hx hb e => hfree hx (e ▸ hb)
  have ho : ∀ {b}, b ≠ a →
      (m.setOrder a o).heap.orderNodes b = m.heap.orderNodes b :=
    fun hb => Function.update_noteq hb _ _
  refine ⟨hI.descending, hI.best, hI.sorted, hI.nodup, hI.unique, hI.level_lt, hI.nonempty,
    hI.nodes_nodup, fun hx => (hI.counts hx).of_eq rfl fun b hb => by rw [ho (hne hx hb)],
    fun hx hb => (hI.linked hx hb).setOrderNode _ (hne hx hb),
    fun hx => (hI.fifo hx).imp_of_mem fun hb hc h => by rwa [ho (hne hx hb), ho (hne hx hc)],
    fun {id b} hb => ?_⟩
  have r := hI.registered hb
  by_cases hba : b = a
  · subst hba
    refine ⟨?_, r.lt, nofun, fun _ => ?_⟩
    · simp only [MarketManager.setOrder, Heap.setOrderNode_orderNodes, Function.update_same]
      rw [hid, r.id]
    · exact fun hx => hfree hx
  · exact ⟨by rw [ho hba]; exact r.id, r.lt,
      fun _ => by rw [ho hba]; exact r.placed fun e => hba (Option.some.inj e).symm,
      fun e => absurd (Option.some.inj e).symm hba⟩

/-- `executeOrder` and `ReduceOrder` on a registered order: its value changes (same id, book,
tree and price) and its level's counters drop by the differences of its quantities.
Source: `market_manager.go` `executeOrder`, `ReduceOrder`; `orderbook.go`
`(*OrderBook).ReduceOrder`
Kind: L -/
theorem reduce {id : UInt64} {o : Order} {h' : Heap} {q qh qv : UInt64} (hI : Inv m none none)
    (hr : m.orders id = some a)
    (hred : OrderBook.reduceOrder (m.setOrder a o).heap a q qh qv = some h')
    (hid : o.id = (m.heap.orderNodes a).order.id)
    (hsym : o.symbolID = (m.heap.orderNodes a).order.symbolID)
    (hidx : LevelIndex.ofOrder o = LevelIndex.ofOrder (m.heap.orderNodes a).order)
    (hprice : routingPrice o = routingPrice (m.heap.orderNodes a).order)
    (hq : (m.heap.orderNodes a).order.leavesQuantity - o.leavesQuantity = q)
    (hqh : (m.heap.orderNodes a).order.hiddenQuantity - o.hiddenQuantity = qh)
    (hqv : (m.heap.orderNodes a).order.visibleQuantity - o.visibleQuantity = qv) :
    Inv { m.setOrder a o with heap := h' } none none := by
  subst hq hqh hqv
  have r := hI.registered hr
  obtain ⟨L, hL, ha⟩ := r.placed nofun
  have l := hI.linked hL ha
  obtain ⟨L', hL', rfl⟩ := OrderBook.reduceOrder_spec hred
  have e : L' = L := by
    simpa [MarketManager.setOrder, l.level] using hL'.symm
  subst e
  set h₁ := (m.setOrder a o).heap
  have hat : ∀ {k i x}, x ∈ m.levelIds k i → a ∈ m.heap.nodes x → x = L' :=
    fun hx hax => Option.some.inj ((hI.linked hx hax).level.symm.trans l.level)
  have ho : ∀ {b}, b ≠ a → h₁.orderNodes b = m.heap.orderNodes b :=
    fun hb => Function.update_noteq hb _ _
  have hoa : h₁.orderNodes a = { m.heap.orderNodes a with order := o } := Function.update_same _ _ _
  have hp : ∀ q hq vq x, (h₁.reduceLevel L' q hq vq).price x = m.heap.price x := fun _ _ _ x => by
    simp [h₁, MarketManager.setOrder]
  refine ⟨hI.descending, hI.best, fun k i => ?_, hI.nodup, hI.unique, hI.level_lt,
    fun hx hne => by simpa [h₁] using hI.nonempty hx hne,
    fun hx => by simpa [h₁] using hI.nodes_nodup hx, fun {k i x} hx => ?_, fun {k i x b} hx hb => ?_,
    fun hx => ?_, fun {id' b} hb => ?_⟩
  · simpa [h₁] using hI.sorted k i
  · by_cases hxL : x = L'
    · subst hxL
      exact (hI.counts hL).reduce (hI.nodes_nodup hL) ha o
    · refine (hI.counts hx).of_eq (by simp [h₁, MarketManager.setOrder, Heap.reduceLevel_levelNodes, hxL])
        fun b hb => ?_
      rw [Heap.reduceLevel_orderNodes, ho fun e => hxL (hat hx (e ▸ hb))]
  · simp only [h₁, Heap.nodes_reduceLevel, MarketManager.setOrder, Heap.nodes_setOrderNode] at hb
    rcases eq_or_ne a b with rfl | hba
    · obtain ⟨rfl, rfl⟩ := hI.unique hL (hat hx hb ▸ hx)
      have hx' := hat hx hb
      subst hx'
      exact ⟨by rw [Heap.reduceLevel_orderNodes, hoa]; exact l.level,
        by rw [Heap.reduceLevel_orderNodes, hoa]; exact hidx.trans l.index,
        by rw [Heap.reduceLevel_orderNodes, hoa, hp]; exact hprice.trans l.price,
        by rw [Heap.reduceLevel_orderNodes, hoa]; exact hsym.trans l.symbol,
        by rw [Heap.reduceLevel_orderNodes, hoa]; exact hid ▸ l.registered,
        by rw [Heap.reduceLevel_orderNodes, hoa]; exact l.placed⟩
    · exact (hI.linked hx hb).of_eq (ho hba.symm) (hp _ _ _ x) (hI.linked hx hb).registered le_rfl
  · have hpl : ∀ b, (h₁.orderNodes b).placed = (m.heap.orderNodes b).placed := fun b => by
      by_cases hba : b = a
      · rw [hba, hoa]
      · rw [ho hba]
    simpa only [Heap.reduceLevel_orderNodes, Heap.nodes_reduceLevel, hpl] using hI.fifo hx
  · have r' := hI.registered hb
    rcases eq_or_ne a b with rfl | hba
    · refine ⟨by rw [Heap.reduceLevel_orderNodes, hoa]; exact hid.trans r'.id, r'.lt,
        fun _ => ⟨L', ?_, by simpa [h₁] using ha⟩, nofun⟩
      rw [Heap.reduceLevel_orderNodes, hoa]
      exact hsym ▸ hidx ▸ hL
    · have hpl := r'.placed nofun
      exact ⟨by rw [Heap.reduceLevel_orderNodes, ho hba.symm]; exact r'.id, r'.lt,
        fun _ => by simpa [h₁, MarketManager.setOrder, Function.update_noteq hba.symm] using hpl,
        nofun⟩

/-- `DeleteOrder` keeps the invariant; it unregisters exactly `id` and changes no order value.
Source: `market_manager.go` `DeleteOrder`
Kind: L -/
theorem deleteOrder {m' : MarketManager} {id : UInt64} {e : ErrorCode} (hI : Inv m none none)
    (h : m.deleteOrder id = some (m', e)) :
    Inv m' none none ∧ m'.orders = Function.update m.orders id none ∧
      ∀ b, (m'.heap.orderNodes b).order = (m.heap.orderNodes b).order := by
  unfold MarketManager.deleteOrder at h
  split at h
  · rename_i hnone
    cases h
    exact ⟨hI, by rw [← hnone, Function.update_eq_self], fun _ => rfl⟩
  · rename_i a ha
    obtain ⟨m₁, h₁, h⟩ := Option.bind_eq_some.1 h
    obtain ⟨m₂, h₂, h⟩ := Option.bind_eq_some.1 h
    cases h
    have hI₁ := hI.updateLevel h₁
    obtain ⟨cs, rfl⟩ := MarketManager.updateLevel_eq h₁
    obtain ⟨hI₂, ho₂, hv₂⟩ := hI₁.bookDeleteOrder ha rfl h₂
    exact ⟨(hI₂.unregister (ho₂ ▸ ha)).call _, by simp [ho₂, MarketManager.call], hv₂⟩

/-- `executeOrder` (unexported) keeps the invariant on a registered order; it unregisters the
order exactly when it fills it, and changes no order value but its quantities.
Source: `market_manager.go` `executeOrder`
Kind: L -/
theorem executeOrderNode {m' : MarketManager} {id price q : UInt64} {e : ErrorCode}
    (hI : Inv m none none) (hr : m.orders id = some a)
    (h : m.executeOrderNode a price q = some (m', e)) :
    Inv m' none none ∧
      m'.orders = (if (m.heap.orderNodes a).order.leavesQuantity - q = 0
        then Function.update m.orders id none else m.orders) ∧
      ∀ c, (m'.heap.orderNodes c).order = if c = a then { (m.heap.orderNodes a).order with
          executedQuantity := (m.heap.orderNodes a).order.executedQuantity + q
          leavesQuantity := (m.heap.orderNodes a).order.leavesQuantity - q }
        else (m.heap.orderNodes c).order := by
  unfold MarketManager.executeOrderNode at h
  dsimp only at h
  obtain ⟨heap, hred, h⟩ := Option.bind_eq_some.1 h
  have hI₁ := (hI.reduce hr hred rfl rfl rfl rfl (sub_sub_cancel _ _) rfl rfl).call
    (.onExecuteOrder { (m.heap.orderNodes a).order with
      executedQuantity := (m.heap.orderNodes a).order.executedQuantity + q
      leavesQuantity := (m.heap.orderNodes a).order.leavesQuantity - q } price q)
  obtain ⟨L, -, rfl⟩ := OrderBook.reduceOrder_spec hred
  have hid : (m.heap.orderNodes a).order.id = id := (hI.registered hr).id
  split at h
  · rename_i hfill
    obtain ⟨m₃, h₃, h⟩ := Option.bind_eq_some.1 h
    obtain ⟨m₄, h₄, h⟩ := Option.bind_eq_some.1 h
    cases h
    have hI₃ := hI₁.updateLevel h₃
    obtain ⟨cs, rfl⟩ := MarketManager.updateLevel_eq h₃
    obtain ⟨hI₄, ho₄, hv₄⟩ := hI₃.bookDeleteOrder hr
      (by simp [MarketManager.call, MarketManager.setOrder]) h₄
    refine ⟨(hI₄.unregister (by rw [ho₄]; exact hid ▸ hr)).call _, ?_, fun c => ?_⟩
    · simp [MarketManager.call, MarketManager.setOrder, ho₄, hid, hfill]
    · refine (hv₄ c).trans ?_
      simp only [MarketManager.call, MarketManager.setOrder, Heap.reduceLevel_orderNodes,
        Heap.setOrderNode_orderNodes, Function.update_apply]
      split_ifs <;> rfl
  · rename_i hfill
    obtain ⟨m₃, h₃, h⟩ := Option.bind_eq_some.1 h
    cases h
    refine ⟨(hI₁.call _).updateLevel h₃, ?_, fun c => ?_⟩ <;>
      obtain ⟨cs, rfl⟩ := MarketManager.updateLevel_eq h₃
    · rw [if_neg hfill]; rfl
    · simp only [MarketManager.call, MarketManager.setOrder, Heap.reduceLevel_orderNodes,
        Heap.setOrderNode_orderNodes, Function.update_apply]
      split_ifs <;> rfl

/-- The two orders an iteration executes are linked in the best bid and best ask levels of the
book, and so are distinct registered orders.
Source: `market_manager.go` `match`
Kind: L -/
theorem matchPair_linked {key : UInt32} {ob : OrderBook} {b a : Nat} {p q : UInt64}
    (hI : Inv m none none) (hob : m.orderBooks key = some ob)
    (h : m.matchPair ob = some (b, a, p, q)) :
    ∃ bb ba, (m.levelIds key .bids).head? = some bb ∧ (m.levelIds key .asks).head? = some ba ∧
      Linked m.orders m.heap key .bids bb b ∧ Linked m.orders m.heap key .asks ba a ∧
      b ∈ m.heap.nodes bb ∧ a ∈ m.heap.nodes ba := by
  obtain ⟨bb, ba, hbb, hba, -, hbo, hao, -⟩ := MarketManager.matchPair_eq_some h
  have hb := hI.best .bids hob
  have ha := hI.best .asks hob
  rw [OrderBook.best_bids, hbb] at hb
  rw [OrderBook.best_asks, hba] at ha
  exact ⟨bb, ba, hb.symm, ha.symm, hI.linked (List.mem_of_mem_head? hb.symm)
    (List.mem_of_mem_head? hbo), hI.linked (List.mem_of_mem_head? ha.symm)
    (List.mem_of_mem_head? hao), List.mem_of_mem_head? hbo, List.mem_of_mem_head? hao⟩

/-- One iteration of the loop keeps the invariant.
Source: `market_manager.go` `match`
Kind: L -/
theorem matchIter {key : UInt32} {ob : OrderBook} {b a : Nat} {p q : UInt64}
    {m₁ m₂ : MarketManager} {e₁ e₂ : ErrorCode} (hI : Inv m none none)
    (hob : m.orderBooks key = some ob) (h : m.matchPair ob = some (b, a, p, q))
    (h₁ : m.executeOrderNode b p q = some (m₁, e₁))
    (h₂ : m₁.executeOrderNode a p q = some (m₂, e₂)) : Inv m₂ none none := by
  obtain ⟨bb, ba, -, -, lb, la, -, -⟩ := hI.matchPair_linked hob h
  obtain ⟨hI₁, ho₁, -⟩ := hI.executeOrderNode lb.registered h₁
  have hab : a ≠ b := fun e => by subst e; exact absurd (lb.index.symm.trans la.index) nofun
  have hne : (m.heap.orderNodes a).order.id ≠ (m.heap.orderNodes b).order.id := fun e =>
    hab (Option.some.inj (la.registered.symm.trans (e ▸ lb.registered)))
  have hr₁ : m₁.orders (m.heap.orderNodes a).order.id = some a := by
    rw [ho₁]
    split_ifs
    · rw [Function.update_noteq hne]; exact la.registered
    · exact la.registered
  exact (hI₁.executeOrderNode hr₁ h₂).1

/-- The matching loop keeps the invariant.
Source: `market_manager.go` `match`
Kind: L -/
theorem matchLoop (key : UInt32) :
    ∀ (fuel : Nat) {m m' : MarketManager}, Inv m none none →
      MarketManager.matchLoop key fuel m = some m' → Inv m' none none
  | 0, _, _, _, h => by cases h
  | fuel + 1, m, m', hI, h => by
    unfold MarketManager.matchLoop at h
    obtain ⟨ob, hob, h⟩ := Option.bind_eq_some.1 h
    split at h
    · cases h; exact hI
    · rename_i hp
      obtain ⟨⟨m₁, e₁⟩, h₁, h⟩ := Option.bind_eq_some.1 h
      obtain ⟨⟨m₂, e₂⟩, h₂, h⟩ := Option.bind_eq_some.1 h
      exact matchLoop key fuel (hI.matchIter hob hp h₁ h₂) h

/-- `match` keeps the invariant.
Source: `market_manager.go` `match`
Kind: L -/
theorem matchIfEnabled {m' : MarketManager} {key : UInt32} {e : ErrorCode} (hI : Inv m none none)
    (h : m.matchIfEnabled key = some (m', e)) : Inv m' none none := by
  unfold MarketManager.matchIfEnabled at h
  split_ifs at h
  · obtain ⟨m₁, h₁, h⟩ := Option.map_eq_some'.1 h
    cases h
    exact matchLoop key _ hI h₁
  · cases h; exact hI

end Inv

end GoTrader.Matching
