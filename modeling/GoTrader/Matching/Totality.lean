import GoTrader.Matching.Cascade

/-!
# Every public call returns

The model answers `none` where Go would dereference a missing book or level, where a tree
operation would find no node, or where `match` would need more iterations than its bound. This
module shows that none of that happens: from every reachable state, every public call returns an
error code, and the state it leaves is reachable in turn.

* `Inv.matchBook_isSome`, `Inv.matchIfEnabled_isSome` — `match` on an existing book returns
  within its bound (by `Inv.matchStops`);
* `Inv.enqueue_isSome` — the common tail of the calls that put an order on its book
  (`ob.AddOrder`, the level callback, `match` if enabled);
* one lemma per public method, from a state where the invariant holds and the trees are AVL;
* `Reachable.step_isSome` — the main result: every admissible call from a reachable state
  returns, into a reachable state.
-/

namespace GoTrader.Matching

open MarketManager

namespace Inv

variable {m : MarketManager} {key : UInt32} {a : Nat}

/-- `match` on an existing book returns within its bound.
Source: `market_manager.go` `match`
Kind: L -/
theorem matchBook_isSome (hI : Inv m none none) (hB : m.Balanced)
    (hob : (m.orderBooks key).isSome) : (m.matchBook key).isSome := by
  obtain ⟨ob, hob⟩ := Option.isSome_iff_exists.1 hob
  obtain ⟨k, m', hk, hs⟩ := hI.matchStops hB hob
  rw [matchBook, matchLoop_of_matchStops hs (Nat.lt_succ_of_le hk)]
  rfl

theorem matchIfEnabled_isSome (hI : Inv m none none) (hB : m.Balanced)
    (hob : (m.orderBooks key).isSome) : (m.matchIfEnabled key).isSome := by
  unfold MarketManager.matchIfEnabled
  split_ifs
  · rw [Option.isSome_map']
    exact hI.matchBook_isSome hB hob
  · rfl

/-- The tail shared by `AddOrder`, `ModifyOrder`, `MitigateOrder` and `ReplaceOrder`: once
`ob.AddOrder` has put node `a` on the book of `key`, the handler call, `updateLevel` and
`match` (if enabled) return.
Source: `market_manager.go` (`m.handler.On...; m.updateLevel(ob, ..., UpdateAdd); if
m.matching { m.match(ob) }`)
Kind: L -/
theorem enqueue_isSome (hI : Inv m none none) (hB : m.Balanced)
    (hob : (m.orderBooks key).isSome) (c : HandlerCall) :
    (((m.call c).updateLevel ((m.call c).orderBooks key) a .updateAdd).bind
      fun m => m.matchIfEnabled key).isSome := by
  obtain ⟨ob, hob⟩ := Option.isSome_iff_exists.1 hob
  have hob' : (m.call c).orderBooks key = some ob := hob
  rw [hob']
  refine isSome_bind_of_isSome (updateLevel_isSome _ a ob _) fun m' hu => ?_
  have hI' := (hI.call c).updateLevel hu
  obtain ⟨cs, rfl⟩ := updateLevel_eq hu
  exact hI'.matchIfEnabled_isSome (hB.of_books rfl) (by rw [← hob'] at hob; simp [hob'])

variable {id : UInt64}

theorem reduceOrder_isSome (hI : Inv m none none) (hB : m.Balanced) (id q : UInt64) :
    (m.reduceOrder id q).isSome := by
  unfold MarketManager.reduceOrder
  split
  · rfl
  · rename_i a ha
    obtain ⟨ob, L, hob, hl, -⟩ := hI.book_of_registered ha
    dsimp only
    split_ifs
    · rfl
    · exact hI.deleteOrder_isSome hB ha
    · simp only [OrderBook.reduceOrder, MarketManager.setOrder, MarketManager.call,
        Heap.setOrderNode_orderNodes, Function.update_same, hl, Option.bind_eq_bind,
        Option.some_bind, hob]
      exact isSome_bind_of_isSome (updateLevel_isSome _ a ob _) fun _ _ => rfl

theorem executeOrder_isSome (hI : Inv m none none) (hB : m.Balanced) (id q : UInt64) :
    (m.executeOrder id q).isSome := by
  unfold MarketManager.executeOrder
  split
  · rfl
  · dsimp only
    split_ifs
    · rfl
    · exact hI.executeOrderNode_isSome hB ‹_› _ _

theorem executeOrderWithPrice_isSome (hI : Inv m none none) (hB : m.Balanced) (id p q : UInt64) :
    (m.executeOrderWithPrice id p q).isSome := by
  unfold MarketManager.executeOrderWithPrice
  split
  · rfl
  · dsimp only
    split_ifs
    · rfl
    · exact hI.executeOrderNode_isSome hB ‹_› _ _

theorem matchSymbol_isSome (hI : Inv m none none) (hB : m.Balanced) (k : UInt32) :
    (m.matchSymbol k).isSome := by
  unfold MarketManager.matchSymbol
  split
  · rfl
  · rw [Option.isSome_map']
    exact hI.matchBook_isSome hB (by simp [*])

theorem addOrder_isSome (hI : Inv m none none) (hB : m.Balanced) (order : Order) :
    (m.addOrder order).isSome := by
  unfold MarketManager.addOrder
  split_ifs with h₁ h₂ h₃
  · rfl
  · rfl
  · rfl
  · have hk : (m.orderBooks order.symbolID).isSome := by
      simpa [Option.isSome_iff_ne_none] using h₃
    refine isSome_bind_of_isSome (bookAddOrder_isSome _ (hB.of_books rfl) hk) fun m₁ hb => ?_
    have hI₁ := (hI.register (Option.not_isSome_iff_eq_none.1 h₂)).bookAddOrder
      (by dsimp only; rw [Heap.allocOrder_orderNodes, Function.update_same, Function.update_same])
      (by dsimp only; rw [Heap.allocOrder_orderNodes, Function.update_same]) hb
    obtain ⟨hB₁, hk₁⟩ := Balanced.bookAddOrder (by exact hB.of_books rfl) hb
    exact hI₁.enqueue_isSome hB₁ ((hk₁ _).trans hk) _

/-- The common core of `ModifyOrder` and `MitigateOrder`: once the order is off its book, any
rewritten value with the same id and symbol goes back on it and the tail returns.
Source: `market_manager.go` `ModifyOrder`, `MitigateOrder`
Kind: L -/
theorem reinsert_isSome {m₁ : MarketManager} {o : Order} (hI : Inv m none none) (hB : m.Balanced)
    (ha : m.orders id = some a)
    (hd : m.bookDeleteOrder (m.heap.orderNodes a).order.symbolID a = some m₁)
    (hid : o.id = (m.heap.orderNodes a).order.id)
    (hsym : o.symbolID = (m.heap.orderNodes a).order.symbolID) (c : HandlerCall) :
    (((m₁.setOrder a o).bookAddOrder (m.heap.orderNodes a).order.symbolID a).bind fun m₂ =>
      ((m₂.call c).updateLevel ((m₂.call c).orderBooks (m.heap.orderNodes a).order.symbolID) a
        .updateAdd).bind fun m₃ => m₃.matchIfEnabled (m.heap.orderNodes a).order.symbolID).isSome := by
  obtain ⟨ob, -, hob, -⟩ := hI.book_of_registered ha
  have hB₁ : (m₁.setOrder a o).Balanced := (hB.bookDeleteOrder hd).of_books rfl
  have hk : ((m₁.setOrder a o).orderBooks (m.heap.orderNodes a).order.symbolID).isSome := by
    rw [show (m₁.setOrder a o).orderBooks = m₁.orderBooks from rfl, bookDeleteOrder_books hd, hob]
    rfl
  refine isSome_bind_of_isSome (bookAddOrder_isSome a hB₁ hk) fun m₂ hb => ?_
  obtain ⟨hB₂, hk₂⟩ := hB₁.bookAddOrder hb
  exact (hI.reinsert ha hd hid hsym hb).enqueue_isSome (a := a) hB₂ ((hk₂ _).trans hk) c

theorem modifyOrder_isSome (hI : Inv m none none) (hB : m.Balanced) (id p q : UInt64) :
    (m.modifyOrder id p q).isSome := by
  unfold MarketManager.modifyOrder
  split
  · rfl
  · rename_i a ha
    split_ifs
    · rfl
    · obtain ⟨ob, L, hob, hl, hL⟩ := hI.book_of_registered ha
      simp only [hob, Option.bind_eq_bind]
      refine isSome_bind_of_isSome (updateLevel_isSome _ a ob _) fun m₁ hu₁ => ?_
      have hI₁ := hI.updateLevel hu₁
      obtain ⟨cs, rfl⟩ := updateLevel_eq hu₁
      refine isSome_bind_of_isSome (bookDeleteOrder_isSome (.of_books hB rfl) hob hl hL)
        fun m₂ hd => ?_
      have hv := (hI₁.bookDeleteOrder ha rfl hd).2.2 a
      exact hI₁.reinsert_isSome (hB.of_books rfl) ha hd (by rw [hv]) (by rw [hv]) _

theorem mitigateOrder_isSome (hI : Inv m none none) (hB : m.Balanced) (id p q : UInt64) :
    (m.mitigateOrder id p q).isSome := by
  unfold MarketManager.mitigateOrder
  split
  · rfl
  · rename_i a ha
    dsimp only
    split_ifs
    · exact hI.deleteOrder_isSome hB ha
    · obtain ⟨ob, L, hob, hl, hL⟩ := hI.book_of_registered ha
      simp only [hob, Option.bind_eq_bind]
      refine isSome_bind_of_isSome (updateLevel_isSome _ a ob _) fun m₁ hu₁ => ?_
      have hI₁ := hI.updateLevel hu₁
      obtain ⟨cs, rfl⟩ := updateLevel_eq hu₁
      refine isSome_bind_of_isSome (bookDeleteOrder_isSome (.of_books hB rfl) hob hl hL)
        fun m₂ hd => ?_
      have hv := (hI₁.bookDeleteOrder ha rfl hd).2.2 a
      exact hI₁.reinsert_isSome (hB.of_books rfl) ha hd (by rw [hv]) (by rw [hv]) _

theorem replaceOrder_isSome (hI : Inv m none none) (hB : m.Balanced) (id newID p q : UInt64) :
    (m.replaceOrder id newID p q).isSome := by
  unfold MarketManager.replaceOrder
  split
  · rfl
  · rename_i a ha
    split_ifs with h₁ h₂
    · rfl
    · rfl
    · obtain ⟨ob, L, hob, hl, hL⟩ := hI.book_of_registered ha
      simp only [hob, Option.bind_eq_bind]
      refine isSome_bind_of_isSome (updateLevel_isSome _ a ob _) fun m₁ hu₁ => ?_
      have hI₁ := hI.updateLevel hu₁
      obtain ⟨cs, rfl⟩ := updateLevel_eq hu₁
      have hB₁ : Balanced { m with handler := m.handler ++ cs } := hB.of_books rfl
      refine isSome_bind_of_isSome (bookDeleteOrder_isSome hB₁ hob hl hL) fun m₂ hd => ?_
      obtain ⟨hI₂, ho₂, hv₂⟩ := hI₁.bookDeleteOrder ha rfl hd
      have hI₃ := (hI₂.unregister (ho₂ ▸ ha)).call (.onDeleteOrder (m₂.heap.orderNodes a).order)
      have hnew : Function.update m₂.orders id none
          (MarketManager.replacement (m₂.heap.orderNodes a).order newID p q).id = none := by
        rw [Function.update_apply, ho₂]
        split_ifs
        · rfl
        · exact Option.not_isSome_iff_eq_none.1 h₂
      have hsym : (m₂.heap.orderNodes a).order.symbolID = (m.heap.orderNodes a).order.symbolID :=
        congrArg Order.symbolID (hv₂ a)
      have hB₂ := hB₁.bookDeleteOrder hd
      have hk : (m₂.orderBooks (m.heap.orderNodes a).order.symbolID).isSome := by
        rw [bookDeleteOrder_books hd, hob]; rfl
      refine isSome_bind_of_isSome (bookAddOrder_isSome _ (by exact hB₂.of_books rfl) hk)
        fun m₃ hb => ?_
      have hI₆ := (hI₃.register hnew).bookAddOrder
        (by dsimp only; rw [Heap.allocOrder_orderNodes, Function.update_same, Function.update_same])
        (by dsimp only; rw [Heap.allocOrder_orderNodes, Function.update_same]; exact hsym) hb
      obtain ⟨hB₃, hk₃⟩ := Balanced.bookAddOrder (by exact hB₂.of_books rfl) hb
      exact hI₆.enqueue_isSome hB₃ ((hk₃ _).trans hk) _

theorem deleteOrderBook_isSome (hI : Inv m none none) (hB : m.Balanced) {enum : List UInt64}
    (henum : IsEnum enum m.orders) (k : UInt32) : (m.deleteOrderBook k enum).isSome := by
  unfold MarketManager.deleteOrderBook
  split
  · rfl
  · obtain ⟨hnd, hl⟩ := hI.ordersToDelete_spec henum k
    obtain ⟨mf, hf, -⟩ := deleteOrders_cascade m k _ hI hB (fun _ => rfl) hnd fun a ha => (hl a).1 ha
    simp only [hf, Option.bind_eq_bind, Option.some_bind]
    rfl

theorem deleteSymbol_isSome (hI : Inv m none none) (hB : m.Balanced) {enum : List UInt64}
    (henum : IsEnum enum m.orders) (k : UInt32) : (m.deleteSymbol k enum).isSome := by
  unfold MarketManager.deleteSymbol
  split
  · rfl
  · dsimp only
    split_ifs
    · simp only [Option.bind_eq_bind]
      refine isSome_bind_of_isSome ?_ fun _ _ => rfl
      rw [Option.isSome_map']
      exact hI.deleteOrderBook_isSome hB henum k
    · rfl

theorem deleteOrder_isSome' (hI : Inv m none none) (hB : m.Balanced) (id : UInt64) :
    (m.deleteOrder id).isSome := by
  rcases h : m.orders id with _ | a
  · simp [MarketManager.deleteOrder, h]
  · exact hI.deleteOrder_isSome hB h

end Inv

/-- **No public call panics.** From every reachable state, every public call of
`MarketManager` made with a genuine iteration order of the orders map returns an error code,
and the state it leaves is reachable: no book or level it follows is missing, no tree operation
fails, and `match` never needs more iterations than its bound.
Source: `market_manager.go` (exported methods)
Kind: P -/
theorem Reachable.step_returns {m : MarketManager} (hm : Reachable m) {op : Op}
    (hop : op.Admissible m) : ∃ m' e, m.step op = some (m', e) ∧ Reachable m' := by
  have hI := hm.inv
  have hB := hm.balanced
  have hs : (m.step op).isSome := by
    cases op with
    | addSymbol => rfl
    | deleteSymbol k enum => exact hI.deleteSymbol_isSome hB hop k
    | addOrderBook => rfl
    | deleteOrderBook k enum => exact hI.deleteOrderBook_isSome hB hop k
    | addOrder order => exact hI.addOrder_isSome hB order
    | reduceOrder id q => exact hI.reduceOrder_isSome hB id q
    | modifyOrder id p q => exact hI.modifyOrder_isSome hB id p q
    | mitigateOrder id p q => exact hI.mitigateOrder_isSome hB id p q
    | replaceOrder id newID p q => exact hI.replaceOrder_isSome hB id newID p q
    | deleteOrder id => exact hI.deleteOrder_isSome' hB id
    | executeOrder id q => exact hI.executeOrder_isSome hB id q
    | executeOrderWithPrice id p q => exact hI.executeOrderWithPrice_isSome hB id p q
    | matchSymbol k => exact hI.matchSymbol_isSome hB k
    | enableMatching => rfl
    | disableMatching => rfl
  obtain ⟨⟨m', e⟩, h⟩ := Option.isSome_iff_exists.1 hs
  exact ⟨m', e, h, hm.step hop h⟩

theorem demo_deleteOrderBook_returns :
    Reachable demo ∧ (Op.deleteOrderBook 1 [1, 2, 3]).Admissible demo ∧
    ∃ m' e, demo.step (.deleteOrderBook 1 [1, 2, 3]) = some (m', e) ∧ Reachable m' :=
  ⟨demo_reachable, demo_orders_enum, Reachable.step_returns demo_reachable demo_orders_enum⟩

end GoTrader.Matching
