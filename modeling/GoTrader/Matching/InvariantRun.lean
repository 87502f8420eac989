import GoTrader.Matching.InvariantOrders

/-!
# Every reachable state satisfies the invariant

One lemma per public operation of `MarketManager` (`Inv.addOrder`, `Inv.modifyOrder`, ...,
`Inv.deleteOrderBook`), assembled into `Inv.step` and, by induction on the run,
`Reachable.inv`.

`DeleteOrderBook` is the one operation whose proof is not a chain of the book primitives: it
deletes the orders it collected from the registry (in Go's map order) and then drops the book.
`deleteOrders_spec` shows that the collected orders are exactly the book's registered orders,
so the book's trees are empty when it is dropped (`Inv.removeBook`).
-/

namespace GoTrader.Matching

/-- A new book under a free key has empty trees, so the levels are as they were.
Source: `market_manager.go` `AddOrderBook`
Kind: L -/
theorem MarketManager.levelIds_addBook {m : MarketManager} {k : UInt32}
    (hk : m.orderBooks k = none) (s : Symbol) :
    ({ m with orderBooks := Function.update m.orderBooks k (some (OrderBook.newOrderBook s)) } :
      MarketManager).levelIds = m.levelIds := by
  funext k' i
  rw [MarketManager.levelIds_update]
  split_ifs with e
  · subst e; cases i <;> simp [MarketManager.levelIds, hk, OrderBook.newOrderBook,
      OrderBook.levels, AVLTree.newAVLTree]
  · rfl

namespace Inv

variable {m m' : MarketManager} {e : ErrorCode}

/-- Replacing the books by ones with the same trees, directions and best pointers.
Source: none: infrastructure
Kind: L -/
theorem replaceBooks {free opened : Option Nat} (hI : Inv m free opened)
    {books : UInt32 → Option OrderBook}
    (hids : ({ m with orderBooks := books } : MarketManager).levelIds = m.levelIds)
    (hdesc : ∀ {k ob} (i : LevelIndex), books k = some ob → (ob.levels i).descending = i.descending)
    (hbest : ∀ {k ob} (i : LevelIndex), books k = some ob → ob.best i = (m.levelIds k i).head?) :
    Inv { m with orderBooks := books } free opened := by
  refine ⟨hdesc, fun i hk => by rw [hids]; exact hbest i hk, by rw [hids]; exact hI.sorted,
    by rw [hids]; exact hI.nodup, by rw [hids]; exact hI.unique, by rw [hids]; exact hI.level_lt,
    by rw [hids]; exact hI.nonempty, by rw [hids]; exact hI.nodes_nodup,
    by rw [hids]; exact hI.counts, by rw [hids]; exact hI.linked, by rw [hids]; exact hI.fifo,
    fun hb => ?_⟩
  have r := hI.registered hb
  exact ⟨r.id, r.lt, by rw [hids]; exact r.placed, by rw [hids]; exact r.detached⟩

/-- Adding an empty book under a free key.
Source: `market_manager.go` `AddOrderBook`
Kind: L -/
theorem addBook (hI : Inv m none none) {k : UInt32} (hk : m.orderBooks k = none) (s : Symbol) :
    Inv { m with orderBooks := Function.update m.orderBooks k (some (OrderBook.newOrderBook s)) }
      none none := by
  have hids := MarketManager.levelIds_addBook hk s
  refine hI.replaceBooks hids (fun {k' ob} i hb => ?_) (fun {k' ob} i hb => ?_)
  · rw [Function.update_apply] at hb
    split_ifs at hb
    · cases hb; cases i <;> rfl
    · exact hI.descending i hb
  · rw [Function.update_apply] at hb
    split_ifs at hb with e
    · cases hb; subst e
      cases i <;> simp [MarketManager.levelIds, hk, OrderBook.newOrderBook, OrderBook.best]
    · exact hI.best i hb

/-- Dropping a book whose trees are all empty.
Source: `market_manager.go` `DeleteOrderBook` (`delete(m.orderBooks, id)`)
Kind: L -/
theorem removeBook (hI : Inv m none none) {k : UInt32} (hk : ∀ i, m.levelIds k i = []) :
    Inv { m with orderBooks := Function.update m.orderBooks k none } none none := by
  have hids : ({ m with orderBooks := Function.update m.orderBooks k none } :
      MarketManager).levelIds = m.levelIds := by
    funext k' i
    rw [MarketManager.levelIds_update]
    split_ifs with e
    · subst e; exact (hk i).symm
    · rfl
  refine hI.replaceBooks hids (fun {k' ob} i hb => ?_) (fun {k' ob} i hb => ?_)
  · rw [Function.update_apply] at hb
    split_ifs at hb
    exact hI.descending i hb
  · rw [Function.update_apply] at hb
    split_ifs at hb
    exact hI.best i hb

/-! ## Orders -/

/-- Source: `market_manager.go` `AddOrder`. Kind: L -/
theorem addOrder {order : Order} (hI : Inv m none none) (h : m.addOrder order = some (m', e)) :
    Inv m' none none := by
  unfold MarketManager.addOrder at h
  split_ifs at h with h₁ h₂ h₃
  · cases h; exact hI
  · cases h; exact hI
  · cases h; exact hI
  · obtain ⟨m₁, hb, h₄⟩ := Option.bind_eq_some.1 h
    obtain ⟨m₂, hu, h₅⟩ := Option.bind_eq_some.1 h₄
    have hI₁ := (hI.register (Option.not_isSome_iff_eq_none.1 h₂)).bookAddOrder
      (by dsimp only; rw [Heap.allocOrder_orderNodes, Function.update_same, Function.update_same])
      (by dsimp only; rw [Heap.allocOrder_orderNodes, Function.update_same]) hb
    exact ((hI₁.call _).updateLevel hu).matchIfEnabled h₅

/-- Source: `market_manager.go` `ReduceOrder`. Kind: L -/
theorem reduceOrder {id q : UInt64} (hI : Inv m none none)
    (h : m.reduceOrder id q = some (m', e)) : Inv m' none none := by
  unfold MarketManager.reduceOrder at h
  split at h
  · cases h; exact hI
  · rename_i a ha
    dsimp only at h
    split_ifs at h
    · cases h; exact hI
    · exact (hI.deleteOrder h).1
    · obtain ⟨heap, hred, h₁⟩ := Option.bind_eq_some.1 h
      obtain ⟨m₃, hu, h₂⟩ := Option.bind_eq_some.1 h₁
      cases h₂
      exact ((hI.reduce ha hred rfl rfl rfl rfl (sub_sub_cancel _ _) rfl rfl).call _).updateLevel hu

/-- Taking a registered order off its book, rewriting its value (same id and book), and putting
it back: the common core of `ModifyOrder` and `MitigateOrder`.
Source: `market_manager.go` `ModifyOrder`, `MitigateOrder`
Kind: L -/
theorem reinsert {id : UInt64} {a : Nat} {m₁ m₂ : MarketManager} {o : Order}
    (hI : Inv m none none) (ha : m.orders id = some a)
    (hd : m.bookDeleteOrder (m.heap.orderNodes a).order.symbolID a = some m₁)
    (hid : o.id = (m.heap.orderNodes a).order.id)
    (hsym : o.symbolID = (m.heap.orderNodes a).order.symbolID)
    (hb : (m₁.setOrder a o).bookAddOrder (m.heap.orderNodes a).order.symbolID a = some m₂) :
    Inv m₂ none none := by
  obtain ⟨hI₁, ho₁, hv₁⟩ := hI.bookDeleteOrder ha rfl hd
  have hr : m₁.orders (m.heap.orderNodes a).order.id = some a := by
    rw [ho₁, (hI.registered ha).id]; exact ha
  exact (hI₁.setOrder (by rw [hv₁]; exact hr) (by rw [hv₁]; exact hid)).bookAddOrder
    (by simpa [MarketManager.setOrder, hid] using hr) (by simp [MarketManager.setOrder, hsym]) hb

/-- Source: `market_manager.go` `ModifyOrder`. Kind: L -/
theorem modifyOrder {id p q : UInt64} (hI : Inv m none none)
    (h : m.modifyOrder id p q = some (m', e)) : Inv m' none none := by
  unfold MarketManager.modifyOrder at h
  split at h
  · cases h; exact hI
  · rename_i a ha
    split_ifs at h
    · cases h; exact hI
    · obtain ⟨m₁, hu₁, h₁⟩ := Option.bind_eq_some.1 h
      have hI₁ := hI.updateLevel hu₁
      obtain ⟨cs, rfl⟩ := MarketManager.updateLevel_eq hu₁
      obtain ⟨m₂, hd, h₂⟩ := Option.bind_eq_some.1 h₁
      obtain ⟨m₃, hb, h₃⟩ := Option.bind_eq_some.1 h₂
      obtain ⟨m₄, hu₄, h₄⟩ := Option.bind_eq_some.1 h₃
      have hv := (hI₁.bookDeleteOrder ha rfl hd).2.2 a
      exact (((hI₁.reinsert ha hd (by rw [hv]) (by rw [hv]) hb).call _).updateLevel
        hu₄).matchIfEnabled h₄

/-- Source: `market_manager.go` `MitigateOrder`. Kind: L -/
theorem mitigateOrder {id p q : UInt64} (hI : Inv m none none)
    (h : m.mitigateOrder id p q = some (m', e)) : Inv m' none none := by
  unfold MarketManager.mitigateOrder at h
  split at h
  · cases h; exact hI
  · rename_i a ha
    split_ifs at h
    · exact (hI.deleteOrder h).1
    · obtain ⟨m₁, hu₁, h₁⟩ := Option.bind_eq_some.1 h
      have hI₁ := hI.updateLevel hu₁
      obtain ⟨cs, rfl⟩ := MarketManager.updateLevel_eq hu₁
      obtain ⟨m₂, hd, h₂⟩ := Option.bind_eq_some.1 h₁
      obtain ⟨m₃, hb, h₃⟩ := Option.bind_eq_some.1 h₂
      obtain ⟨m₄, hu₄, h₄⟩ := Option.bind_eq_some.1 h₃
      have hv := (hI₁.bookDeleteOrder ha rfl hd).2.2 a
      exact (((hI₁.reinsert ha hd (by rw [hv]) (by rw [hv]) hb).call _).updateLevel
        hu₄).matchIfEnabled h₄

/-- Source: `market_manager.go` `ReplaceOrder`. Kind: L -/
theorem replaceOrder {id newID p q : UInt64} (hI : Inv m none none)
    (h : m.replaceOrder id newID p q = some (m', e)) : Inv m' none none := by
  unfold MarketManager.replaceOrder at h
  split at h
  · cases h; exact hI
  · rename_i a ha
    split_ifs at h with h₁ h₂
    · cases h; exact hI
    · cases h; exact hI
    · obtain ⟨m₁, hu₁, h₃⟩ := Option.bind_eq_some.1 h
      have hI₁ := hI.updateLevel hu₁
      obtain ⟨cs, rfl⟩ := MarketManager.updateLevel_eq hu₁
      obtain ⟨m₂, hd, h₄⟩ := Option.bind_eq_some.1 h₃
      obtain ⟨m₃, hb, h₅⟩ := Option.bind_eq_some.1 h₄
      obtain ⟨m₄, hu₄, h₆⟩ := Option.bind_eq_some.1 h₅
      obtain ⟨hI₂, ho₂, hv₂⟩ := hI₁.bookDeleteOrder ha rfl hd
      have hI₃ := (hI₂.unregister (ho₂ ▸ ha)).call (.onDeleteOrder (m₂.heap.orderNodes a).order)
      have hnew : Function.update m₂.orders id none
          (MarketManager.replacement (m₂.heap.orderNodes a).order newID p q).id = none := by
        rw [Function.update_apply, ho₂]
        split_ifs
        · rfl
        · exact Option.not_isSome_iff_eq_none.1 h₂
      exact ((((hI₃.register hnew).bookAddOrder
        (by dsimp only; rw [Heap.allocOrder_orderNodes, Function.update_same, Function.update_same])
        (by dsimp only; rw [Heap.allocOrder_orderNodes, Function.update_same]
            show (m₂.heap.orderNodes a).order.symbolID = _
            exact congrArg Order.symbolID (hv₂ a))
        hb).call _).updateLevel hu₄).matchIfEnabled h₆

/-- Source: `market_manager.go` `ExecuteOrder`. Kind: L -/
theorem executeOrder {id q : UInt64} (hI : Inv m none none)
    (h : m.executeOrder id q = some (m', e)) : Inv m' none none := by
  unfold MarketManager.executeOrder at h
  split at h
  · cases h; exact hI
  · rename_i a ha
    dsimp only at h
    split_ifs at h
    · cases h; exact hI
    · exact (hI.executeOrderNode ha h).1

/-- Source: `market_manager.go` `ExecuteOrderWithPrice`. Kind: L -/
theorem executeOrderWithPrice {id p q : UInt64} (hI : Inv m none none)
    (h : m.executeOrderWithPrice id p q = some (m', e)) : Inv m' none none := by
  unfold MarketManager.executeOrderWithPrice at h
  split at h
  · cases h; exact hI
  · rename_i a ha
    dsimp only at h
    split_ifs at h
    · cases h; exact hI
    · exact (hI.executeOrderNode ha h).1

/-- Source: `market_manager.go` `Match`. Kind: L -/
theorem matchSymbol {k : UInt32} (hI : Inv m none none) (h : m.matchSymbol k = some (m', e)) :
    Inv m' none none := by
  unfold MarketManager.matchSymbol at h
  split at h
  · cases h; exact hI
  · obtain ⟨m₁, h₁, h⟩ := Option.map_eq_some'.1 h
    cases h
    exact hI.matchLoop k _ h₁

/-! ## Symbols and books -/

/-- Source: `market_manager.go` `AddSymbol`. Kind: L -/
theorem addSymbol {s : Symbol} (hI : Inv m none none) : Inv (m.addSymbol s).1 none none := by
  unfold MarketManager.addSymbol
  split_ifs
  · exact hI
  · exact (hI.withSymbols _).call _

/-- Source: `market_manager.go` `AddOrderBook`. Kind: L -/
theorem addOrderBook {s : Symbol} (hI : Inv m none none) : Inv (m.addOrderBook s).1 none none := by
  unfold MarketManager.addOrderBook
  split_ifs with h
  · exact hI
  · dsimp only
    exact Inv.call (hI.addBook (Option.not_isSome_iff_eq_none.1 h) s) _

/-- The deletion loop of `DeleteOrderBook`, deleting each collected node by its current id: the
invariant holds after it, no order value changes, and every registry entry left was there
before and is not the id (in `m₀`) of a collected node.
Source: `market_manager.go` `DeleteOrderBook` (the loop over `ordersToDelete`)
Kind: L -/
theorem deleteOrders_spec (m₀ : MarketManager) :
    ∀ (l : List Nat) {m mf : MarketManager}, Inv m none none →
      (∀ b, (m.heap.orderNodes b).order = (m₀.heap.orderNodes b).order) →
      l.foldlM (fun m a => (m.deleteOrder (m.heap.orderNodes a).order.id).map Prod.fst) m =
        some mf →
      Inv mf none none ∧ (∀ b, (mf.heap.orderNodes b).order = (m₀.heap.orderNodes b).order) ∧
        ∀ {id b}, mf.orders id = some b →
          m.orders id = some b ∧ ∀ a ∈ l, (m₀.heap.orderNodes a).order.id ≠ id
  | [], m, mf, hI, hv, h => by
    cases h
    exact ⟨hI, hv, fun hb => ⟨hb, nofun⟩⟩
  | a :: l, m, mf, hI, hv, h => by
    rw [List.foldlM_cons] at h
    obtain ⟨m₁, h₁, h⟩ := Option.bind_eq_some.1 h
    obtain ⟨⟨m₁, e⟩, hd, rfl⟩ := Option.map_eq_some'.1 h₁
    obtain ⟨hI₁, ho₁, hv₁⟩ := hI.deleteOrder hd
    obtain ⟨hIf, hvf, hof⟩ := deleteOrders_spec m₀ l hI₁ (fun b => (hv₁ b).trans (hv b)) h
    refine ⟨hIf, hvf, fun hb => ?_⟩
    obtain ⟨hb₁, hl⟩ := hof hb
    rw [ho₁, Function.update_apply] at hb₁
    split_ifs at hb₁ with e
    refine ⟨hb₁, fun c hc => ?_⟩
    rcases List.mem_cons.1 hc with rfl | hc
    · rw [← hv c]; exact fun h => e h.symm
    · exact hl c hc

/-- Source: `market_manager.go` `DeleteOrderBook`. Kind: L -/
theorem deleteOrderBook {id : UInt32} {enum : List UInt64} (hI : Inv m none none)
    (henum : IsEnum enum m.orders) (h : m.deleteOrderBook id enum = some (m', e)) :
    Inv m' none none := by
  unfold MarketManager.deleteOrderBook at h
  split at h
  · cases h; exact hI
  · obtain ⟨mf, hf, h⟩ := Option.bind_eq_some.1 h
    cases h
    obtain ⟨hIf, hvf, hof⟩ := deleteOrders_spec m _ hI (fun _ => rfl) hf
    have hgone : ∀ {id' b}, mf.orders id' = some b →
        (m.heap.orderNodes b).order.symbolID ≠ id := fun {id' b} hb hs => by
      obtain ⟨hb₀, hl⟩ := hof hb
      refine hl b ?_ (hI.registered hb₀).id
      simp only [List.mem_filter, List.mem_filterMap, decide_eq_true_eq]
      exact ⟨⟨id', (henum.2 id').2 (by simp [hb₀]), hb₀⟩, hs⟩
    have hempty : ∀ i, mf.levelIds id i = [] := fun i => by
      rcases hL : mf.levelIds id i with _ | ⟨L, _⟩
      · rfl
      · have hLm : L ∈ mf.levelIds id i := by rw [hL]; exact List.mem_cons_self _ _
        obtain ⟨c, hc⟩ := List.exists_mem_of_ne_nil _ (hIf.nonempty hLm nofun)
        have l := hIf.linked hLm hc
        exact absurd (by rw [← hvf c]; exact l.symbol) (hgone l.registered)
    exact (hIf.removeBook hempty).call _

/-- Source: `market_manager.go` `DeleteSymbol`. Kind: L -/
theorem deleteSymbol {id : UInt32} {enum : List UInt64} (hI : Inv m none none)
    (henum : IsEnum enum m.orders) (h : m.deleteSymbol id enum = some (m', e)) :
    Inv m' none none := by
  unfold MarketManager.deleteSymbol at h
  split at h
  · cases h; exact hI
  · dsimp only at h
    split_ifs at h
    · obtain ⟨m₁, h₁, h⟩ := Option.bind_eq_some.1 h
      obtain ⟨⟨m₂, e₂⟩, h₂, rfl⟩ := Option.map_eq_some'.1 h₁
      cases h
      exact ((hI.deleteOrderBook henum h₂).withSymbols _).call _
    · cases h
      exact (hI.withSymbols _).call _

/-! ## Runs -/

/-- Every public operation keeps the invariant.
Source: `market_manager.go`
Kind: L -/
theorem step {op : Op} (hI : Inv m none none) (hop : op.Admissible m)
    (h : m.step op = some (m', e)) : Inv m' none none := by
  cases op with
  | addSymbol s =>
    have h' : (m.addSymbol s).1 = m' := by rw [Option.some.inj h]
    exact h' ▸ hI.addSymbol
  | deleteSymbol id enum => exact hI.deleteSymbol hop h
  | addOrderBook s =>
    have h' : (m.addOrderBook s).1 = m' := by rw [Option.some.inj h]
    exact h' ▸ hI.addOrderBook
  | deleteOrderBook id enum => exact hI.deleteOrderBook hop h
  | addOrder order => exact hI.addOrder h
  | reduceOrder id q => exact hI.reduceOrder h
  | modifyOrder id p q => exact hI.modifyOrder h
  | mitigateOrder id p q => exact hI.mitigateOrder h
  | replaceOrder id newID p q => exact hI.replaceOrder h
  | deleteOrder id => exact (hI.deleteOrder h).1
  | executeOrder id q => exact hI.executeOrder h
  | executeOrderWithPrice id p q => exact hI.executeOrderWithPrice h
  | matchSymbol k => exact hI.matchSymbol h
  | enableMatching => cases h; exact hI.withMatching true
  | disableMatching => cases h; exact hI.withMatching false

end Inv

/-- Every state reachable from `NewMarketManager()` satisfies the invariant.
Source: `market_manager.go`
Kind: L -/
theorem Reachable.inv {m : MarketManager} (h : Reachable m) : Inv m none none := by
  induction h with
  | init => exact Inv.init
  | step _ hop hs ih => exact ih.step hop hs

end GoTrader.Matching
