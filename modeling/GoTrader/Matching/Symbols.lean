import GoTrader.Matching.Invariant

/-!
# The symbol registry

Only `AddSymbol` and `DeleteSymbol` write `m.symbols`:

* `MarketManager.addOrder_symbols`, ..., `MarketManager.deleteOrderBook_symbols` — every other
  public call leaves the registry as it was;
* `SymbolKeyed.step`, `Reachable.symbol_id` — both store a symbol under its own `ID`, so in every
  reachable state the symbol under key `k` has `ID = k`.
-/

namespace GoTrader.Matching

namespace MarketManager

variable {m m' : MarketManager} {e : ErrorCode}

theorem updateLevel_symbols {ob : Option OrderBook} {a : Nat} {u : UpdateType}
    (h : m.updateLevel ob a u = some m') : m'.symbols = m.symbols := by
  obtain ⟨cs, rfl⟩ := updateLevel_eq h
  rfl

theorem bookAddOrder_symbols {key : UInt32} {a : Nat} (h : m.bookAddOrder key a = some m') :
    m'.symbols = m.symbols := by
  obtain ⟨ob, -, h⟩ := Option.bind_eq_some.1 h
  obtain ⟨_, -, h⟩ := Option.bind_eq_some.1 h
  cases h
  rfl

theorem bookDeleteOrder_symbols {key : UInt32} {a : Nat} (h : m.bookDeleteOrder key a = some m') :
    m'.symbols = m.symbols := by
  obtain ⟨ob, -, h⟩ := Option.bind_eq_some.1 h
  obtain ⟨_, -, h⟩ := Option.bind_eq_some.1 h
  cases h
  rfl

theorem deleteOrder_symbols {id : UInt64} (h : m.deleteOrder id = some (m', e)) :
    m'.symbols = m.symbols := by
  unfold deleteOrder at h
  split at h
  · cases h; rfl
  · obtain ⟨m₁, h₁, h⟩ := Option.bind_eq_some.1 h
    obtain ⟨m₂, h₂, h⟩ := Option.bind_eq_some.1 h
    cases h
    exact (bookDeleteOrder_symbols h₂).trans (updateLevel_symbols h₁ :)

theorem executeOrderNode_symbols {a : Nat} {p q : UInt64}
    (h : m.executeOrderNode a p q = some (m', e)) : m'.symbols = m.symbols := by
  unfold executeOrderNode at h
  dsimp only at h
  obtain ⟨heap, -, h⟩ := Option.bind_eq_some.1 h
  split at h
  · obtain ⟨m₁, h₁, h⟩ := Option.bind_eq_some.1 h
    obtain ⟨m₂, h₂, h⟩ := Option.bind_eq_some.1 h
    cases h
    exact (bookDeleteOrder_symbols h₂).trans (updateLevel_symbols h₁ :)
  · obtain ⟨m₁, h₁, h⟩ := Option.bind_eq_some.1 h
    cases h
    exact (updateLevel_symbols h₁ :)

theorem matchLoop_symbols (key : UInt32) :
    ∀ (fuel : Nat) {m m' : MarketManager}, matchLoop key fuel m = some m' → m'.symbols = m.symbols
  | 0, _, _, h => by cases h
  | fuel + 1, m, m', h => by
    unfold matchLoop at h
    obtain ⟨ob, -, h⟩ := Option.bind_eq_some.1 h
    split at h
    · cases h; rfl
    · obtain ⟨⟨m₁, e₁⟩, h₁, h⟩ := Option.bind_eq_some.1 h
      obtain ⟨⟨m₂, e₂⟩, h₂, h⟩ := Option.bind_eq_some.1 h
      exact ((matchLoop_symbols key fuel h :).trans (executeOrderNode_symbols h₂ :)).trans
        (executeOrderNode_symbols h₁ :)

theorem matchIfEnabled_symbols {key : UInt32} (h : m.matchIfEnabled key = some (m', e)) :
    m'.symbols = m.symbols := by
  unfold matchIfEnabled at h
  split_ifs at h
  · obtain ⟨m₁, h₁, h⟩ := Option.map_eq_some'.1 h
    cases h
    exact matchLoop_symbols key _ h₁
  · cases h; rfl

theorem addOrder_symbols {order : Order} (h : m.addOrder order = some (m', e)) :
    m'.symbols = m.symbols := by
  unfold addOrder at h
  split_ifs at h
  · cases h; rfl
  · cases h; rfl
  · cases h; rfl
  · obtain ⟨m₁, h₁, h⟩ := Option.bind_eq_some.1 h
    obtain ⟨m₂, h₂, h⟩ := Option.bind_eq_some.1 h
    exact ((matchIfEnabled_symbols h :).trans (updateLevel_symbols h₂ :)).trans
      (bookAddOrder_symbols h₁ :)

theorem reduceOrder_symbols {id q : UInt64} (h : m.reduceOrder id q = some (m', e)) :
    m'.symbols = m.symbols := by
  unfold reduceOrder at h
  split at h
  · cases h; rfl
  · dsimp only at h
    split_ifs at h
    · cases h; rfl
    · exact deleteOrder_symbols h
    · obtain ⟨heap, -, h⟩ := Option.bind_eq_some.1 h
      obtain ⟨m₁, h₁, h⟩ := Option.bind_eq_some.1 h
      cases h
      exact (updateLevel_symbols h₁ :)

theorem modifyOrder_symbols {id p q : UInt64} (h : m.modifyOrder id p q = some (m', e)) :
    m'.symbols = m.symbols := by
  unfold modifyOrder at h
  split at h
  · cases h; rfl
  · split_ifs at h
    · cases h; rfl
    · obtain ⟨m₁, h₁, h⟩ := Option.bind_eq_some.1 h
      obtain ⟨m₂, h₂, h⟩ := Option.bind_eq_some.1 h
      obtain ⟨m₃, h₃, h⟩ := Option.bind_eq_some.1 h
      obtain ⟨m₄, h₄, h⟩ := Option.bind_eq_some.1 h
      exact ((((matchIfEnabled_symbols h :).trans (updateLevel_symbols h₄ :)).trans
        (bookAddOrder_symbols h₃ :)).trans (bookDeleteOrder_symbols h₂ :)).trans
        (updateLevel_symbols h₁ :)

theorem mitigateOrder_symbols {id p q : UInt64} (h : m.mitigateOrder id p q = some (m', e)) :
    m'.symbols = m.symbols := by
  unfold mitigateOrder at h
  split at h
  · cases h; rfl
  · dsimp only at h
    split_ifs at h
    · exact deleteOrder_symbols h
    · obtain ⟨m₁, h₁, h⟩ := Option.bind_eq_some.1 h
      obtain ⟨m₂, h₂, h⟩ := Option.bind_eq_some.1 h
      obtain ⟨m₃, h₃, h⟩ := Option.bind_eq_some.1 h
      obtain ⟨m₄, h₄, h⟩ := Option.bind_eq_some.1 h
      exact ((((matchIfEnabled_symbols h :).trans (updateLevel_symbols h₄ :)).trans
        (bookAddOrder_symbols h₃ :)).trans (bookDeleteOrder_symbols h₂ :)).trans
        (updateLevel_symbols h₁ :)

theorem replaceOrder_symbols {id newID p q : UInt64}
    (h : m.replaceOrder id newID p q = some (m', e)) : m'.symbols = m.symbols := by
  unfold replaceOrder at h
  split at h
  · cases h; rfl
  · split_ifs at h
    · cases h; rfl
    · cases h; rfl
    · obtain ⟨m₁, h₁, h⟩ := Option.bind_eq_some.1 h
      obtain ⟨m₂, h₂, h⟩ := Option.bind_eq_some.1 h
      obtain ⟨m₃, h₃, h⟩ := Option.bind_eq_some.1 h
      obtain ⟨m₄, h₄, h⟩ := Option.bind_eq_some.1 h
      exact ((((matchIfEnabled_symbols h :).trans (updateLevel_symbols h₄ :)).trans
        (bookAddOrder_symbols h₃ :)).trans (bookDeleteOrder_symbols h₂ :)).trans
        (updateLevel_symbols h₁ :)

theorem executeOrder_symbols {id q : UInt64} (h : m.executeOrder id q = some (m', e)) :
    m'.symbols = m.symbols := by
  unfold executeOrder at h
  split at h
  · cases h; rfl
  · dsimp only at h
    split_ifs at h
    · cases h; rfl
    · exact executeOrderNode_symbols h

theorem executeOrderWithPrice_symbols {id p q : UInt64}
    (h : m.executeOrderWithPrice id p q = some (m', e)) : m'.symbols = m.symbols := by
  unfold executeOrderWithPrice at h
  split at h
  · cases h; rfl
  · dsimp only at h
    split_ifs at h
    · cases h; rfl
    · exact executeOrderNode_symbols h

theorem matchSymbol_symbols {k : UInt32} (h : m.matchSymbol k = some (m', e)) :
    m'.symbols = m.symbols := by
  unfold matchSymbol at h
  split at h
  · cases h; rfl
  · obtain ⟨m₁, h₁, h⟩ := Option.map_eq_some'.1 h
    cases h
    exact matchLoop_symbols k _ h₁

theorem deleteOrders_symbols :
    ∀ (l : List Nat) {m mf : MarketManager},
      l.foldlM (fun m a => (m.deleteOrder (m.heap.orderNodes a).order.id).map Prod.fst) m =
        some mf → mf.symbols = m.symbols
  | [], m, mf, h => by cases h; rfl
  | a :: l, m, mf, h => by
    rw [List.foldlM_cons] at h
    obtain ⟨m₁, h₁, h⟩ := Option.bind_eq_some.1 h
    obtain ⟨⟨m₁, e⟩, hd, rfl⟩ := Option.map_eq_some'.1 h₁
    exact (deleteOrders_symbols l h :).trans (deleteOrder_symbols hd)

theorem deleteOrderBook_symbols {id : UInt32} {enum : List UInt64}
    (h : m.deleteOrderBook id enum = some (m', e)) : m'.symbols = m.symbols := by
  unfold deleteOrderBook at h
  split at h
  · cases h; rfl
  · obtain ⟨mf, hf, h⟩ := Option.bind_eq_some.1 h
    cases h
    exact (deleteOrders_symbols _ hf :)

theorem addOrderBook_symbols (s : Symbol) : (m.addOrderBook s).1.symbols = m.symbols := by
  unfold addOrderBook
  split_ifs <;> rfl

end MarketManager

/-- Every symbol sits under its own `ID`.
Source: `market_manager.go` `AddSymbol` (`m.symbols[symbol.ID] = &symbol`)
Kind: D -/
def SymbolKeyed (m : MarketManager) : Prop := ∀ k s, m.symbols k = some s → s.id = k

/-- Every call keeps symbols under their `ID`s: `AddSymbol` stores the symbol under its `ID`,
`DeleteSymbol` removes an entry, and no other call writes the registry.
Source: `market_manager.go`
Kind: L -/
theorem SymbolKeyed.step {m m' : MarketManager} {op : Op} {e : ErrorCode} (hm : SymbolKeyed m)
    (h : m.step op = some (m', e)) : SymbolKeyed m' := by
  have keep : m'.symbols = m.symbols → SymbolKeyed m' := fun hs k s => hs ▸ hm k s
  cases op with
  | addSymbol s =>
    have h' : m.addSymbol s = (m', e) := Option.some.inj h
    unfold MarketManager.addSymbol at h'
    split_ifs at h'
    · cases h'; exact hm
    · cases h'
      intro k s' hk
      simp only [MarketManager.call, Function.update_apply] at hk
      split_ifs at hk with hks
      · cases hk; exact hks.symm
      · exact hm k s' hk
  | deleteSymbol id enum =>
    have del : ∀ m₁ : MarketManager, m₁.symbols = m.symbols →
        SymbolKeyed { m₁ with symbols := Function.update m₁.symbols id none } :=
      fun m₁ hs k s hk => by
        simp only [Function.update_apply] at hk
        split_ifs at hk
        exact hm k s (hs ▸ hk)
    have h' : m.deleteSymbol id enum = some (m', e) := h
    unfold MarketManager.deleteSymbol at h'
    split at h'
    · cases h'; exact hm
    · dsimp only at h'
      split_ifs at h'
      · obtain ⟨m₁, h₁, h'⟩ := Option.bind_eq_some.1 h'
        obtain ⟨⟨m₂, e₂⟩, h₂, rfl⟩ := Option.map_eq_some'.1 h₁
        cases h'
        exact del m₂ (MarketManager.deleteOrderBook_symbols h₂)
      · cases h'
        exact del m rfl
  | addOrderBook s =>
    have h' : (m.addOrderBook s).1 = m' := by rw [Option.some.inj h]
    exact keep (h' ▸ MarketManager.addOrderBook_symbols s)
  | deleteOrderBook id enum => exact keep (MarketManager.deleteOrderBook_symbols h)
  | addOrder o => exact keep (MarketManager.addOrder_symbols h)
  | reduceOrder id q => exact keep (MarketManager.reduceOrder_symbols h)
  | modifyOrder id p q => exact keep (MarketManager.modifyOrder_symbols h)
  | mitigateOrder id p q => exact keep (MarketManager.mitigateOrder_symbols h)
  | replaceOrder id newID p q => exact keep (MarketManager.replaceOrder_symbols h)
  | deleteOrder id => exact keep (MarketManager.deleteOrder_symbols h)
  | executeOrder id q => exact keep (MarketManager.executeOrder_symbols h)
  | executeOrderWithPrice id p q => exact keep (MarketManager.executeOrderWithPrice_symbols h)
  | matchSymbol k => exact keep (MarketManager.matchSymbol_symbols h)
  | enableMatching => exact keep (by cases h; rfl)
  | disableMatching => exact keep (by cases h; rfl)

/-- In every reachable state the symbol under key `k` has `ID = k`.
Source: `market_manager.go` `AddSymbol`, `DeleteSymbol`
Kind: L -/
theorem Reachable.symbol_id {m : MarketManager} (hm : Reachable m) : SymbolKeyed m := by
  induction hm with
  | init => intro k s h; cases h
  | step _ _ h ih => exact ih.step h

end GoTrader.Matching
