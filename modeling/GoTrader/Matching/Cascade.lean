import GoTrader.Matching.Canonical
import GoTrader.Matching.Symbols
import GoTrader.Matching.Termination

/-!
# Deleting a book or a symbol: exactly its orders go

`DeleteOrderBook` collects the orders of the book's symbol while iterating over `m.orders`,
deletes each one, then drops the book; `DeleteSymbol` calls it when the symbol has a book. This
module says what that does to the registry and to the other books, from any reachable state and
whatever the map's iteration order.

* `Inv.deleteOrder_isSome` — `DeleteOrder` of a registered order succeeds;
* `deleteOrders_cascade` — the deletion loop succeeds on registered, pairwise distinct nodes of
  one book, unregisters exactly their ids and changes no other book's trees;
* `Inv.deleteOrderBook_spec`, `Reachable.deleteOrderBook_cascade` — `DeleteOrderBook` of an
  existing book returns `ErrorOK`, removes the book, keeps in the registry exactly the orders of
  other symbols, and leaves every other book's trees as they were;
* `Inv.deleteSymbol_spec`, `Reachable.deleteSymbol_cascade` — `DeleteSymbol` of a registered
  symbol does the same through its book, if it has one, and removes only that symbol.
-/

namespace GoTrader.Matching

open MarketManager

namespace Inv

variable {m : MarketManager} {id : UInt64} {a : Nat}

/-- A registered order's book exists, and the order's level is a node of the book's tree for it.
Source: none: infrastructure
Kind: L -/
theorem book_of_registered (hI : Inv m none none) (hr : m.orders id = some a) :
    ∃ ob L, m.orderBooks (m.heap.orderNodes a).order.symbolID = some ob ∧
      (m.heap.orderNodes a).level = some L ∧
      L ∈ (ob.levels (LevelIndex.ofOrder (m.heap.orderNodes a).order)).root.ids := by
  obtain ⟨L, hL, ha⟩ := (hI.registered hr).placed nofun
  obtain ⟨ob, hob⟩ := Option.isSome_iff_exists.1 (isSome_of_mem_levelIds hL)
  exact ⟨ob, L, hob, (hI.linked hL ha).level, levelIds_of_some hob _ ▸ hL⟩

/-- `DeleteOrder` of a registered order succeeds, from a state where the invariant holds and the
trees are AVL. Source: `market_manager.go` `DeleteOrder`; `orderbook.go` `DeleteOrder`.
Kind: L -/
theorem deleteOrder_isSome (hI : Inv m none none) (hB : m.Balanced) (hr : m.orders id = some a) :
    (m.deleteOrder id).isSome := by
  obtain ⟨ob, L, hob, hl, hL⟩ := hI.book_of_registered hr
  unfold MarketManager.deleteOrder
  simp only [hr, hob]
  refine isSome_bind_of_isSome (updateLevel_isSome _ a ob _) fun m₃ h₃ => ?_
  obtain ⟨cs, rfl⟩ := updateLevel_eq h₃
  exact isSome_bind_of_isSome (bookDeleteOrder_isSome (.of_books hB rfl) hob hl hL) fun _ _ => rfl

/-- The nodes `DeleteOrderBook` collects over a genuine enumeration of the registry's keys are
pairwise distinct, and are exactly the registered nodes of symbol `key`, each under its own id.
Source: `market_manager.go` `DeleteOrderBook` (the `range` over `m.orders`)
Kind: L -/
theorem ordersToDelete_spec (hI : Inv m none none) {enum : List UInt64}
    (henum : IsEnum enum m.orders) (key : UInt32) :
    ((enum.filterMap m.orders).filter fun a => (m.heap.orderNodes a).order.symbolID = key).Nodup ∧
      ∀ a, a ∈ (enum.filterMap m.orders).filter
          (fun a => (m.heap.orderNodes a).order.symbolID = key) ↔
        m.orders (m.heap.orderNodes a).order.id = some a ∧
          (m.heap.orderNodes a).order.symbolID = key := by
  have hinj : ∀ x y b, b ∈ m.orders x → b ∈ m.orders y → x = y := fun x y b hx hy =>
    (hI.registered hx).id.symm.trans (hI.registered hy).id
  refine ⟨(henum.1.filterMap hinj).filter _, fun a => ?_⟩
  simp only [List.mem_filter, List.mem_filterMap, decide_eq_true_eq]
  refine and_congr_left fun _ => ⟨fun ⟨x, _, hx⟩ => (hI.registered hx).id ▸ hx,
    fun hx => ⟨_, (henum.2 _).2 (by simp [hx]), hx⟩⟩

end Inv

/-- The deletion loop of `DeleteOrderBook`, over pairwise distinct nodes of book `key` that are
registered under their ids (their values read in `m₀`, which the loop does not change):
it succeeds, unregisters exactly their ids, and changes no tree of another book.
Source: `market_manager.go` `DeleteOrderBook` (the loop over `ordersToDelete`), `DeleteOrder`
Kind: L -/
theorem deleteOrders_cascade (m₀ : MarketManager) (key : UInt32) :
    ∀ (l : List Nat) {m : MarketManager}, Inv m none none → m.Balanced →
      (∀ b, (m.heap.orderNodes b).order = (m₀.heap.orderNodes b).order) → l.Nodup →
      (∀ a ∈ l, m.orders (m₀.heap.orderNodes a).order.id = some a ∧
        (m₀.heap.orderNodes a).order.symbolID = key) →
      ∃ mf, l.foldlM (fun m a => (m.deleteOrder (m.heap.orderNodes a).order.id).map Prod.fst) m =
          some mf ∧ Inv mf none none ∧
        (∀ b, (mf.heap.orderNodes b).order = (m₀.heap.orderNodes b).order) ∧
        (∀ x, mf.orders x =
          if x ∈ l.map fun a => (m₀.heap.orderNodes a).order.id then none else m.orders x) ∧
        ∀ k j, k ≠ key → mf.view k j = m.view k j
  | [], m, hI, _, hv, _, _ => ⟨m, rfl, hI, hv, fun x => by simp, fun _ _ _ => rfl⟩
  | a :: l, m, hI, hB, hv, hnd, hl => by
    obtain ⟨hr, hkey⟩ := hl a (.head _)
    rw [← hv a] at hr hkey
    obtain ⟨⟨m₁, e⟩, hd⟩ := Option.isSome_iff_exists.1 (hI.deleteOrder_isSome hB hr)
    obtain ⟨hI₁, ho₁, hv₁⟩ := hI.deleteOrder hd
    obtain ⟨L, hL, haL⟩ := (hI.registered hr).placed nofun
    rw [hkey] at hL
    obtain ⟨hnotin, hnd'⟩ := List.nodup_cons.1 hnd
    have hl' : ∀ b ∈ l, m₁.orders (m₀.heap.orderNodes b).order.id = some b ∧
        (m₀.heap.orderNodes b).order.symbolID = key := fun b hb => by
      obtain ⟨hrb, hkb⟩ := hl b (.tail _ hb)
      refine ⟨?_, hkb⟩
      rw [ho₁, Function.update_apply, if_neg fun e => ?_]
      · exact hrb
      · rw [e, hr, Option.some.injEq] at hrb
        exact hnotin (hrb ▸ hb)
    obtain ⟨mf, hf, hIf, hvf, hof, hviewf⟩ := deleteOrders_cascade m₀ key l hI₁ (hB.deleteOrder hd)
      (fun b => (hv₁ b).trans (hv b)) hnd' hl'
    refine ⟨mf, ?_, hIf, hvf, fun x => ?_, fun k j hk => ?_⟩
    · rw [List.foldlM_cons, hd]
      exact hf
    · rw [hof x, ho₁, Function.update_apply]
      by_cases hx : x = (m₀.heap.orderNodes a).order.id <;> simp [hx, hv a]
    · rw [hviewf k j hk, hI.view_deleteOrder hr hd,
        hI.erase_view_of_ne hL haL fun h => hk h.1]

/-- `DeleteOrderBook` of an existing book, from a state where the invariant holds and the trees
are AVL, over a genuine enumeration of the orders map: it returns `ErrorOK`, removes the book,
keeps in the registry exactly the orders of the other symbols, and changes no other book's trees.
Source: `market_manager.go` `DeleteOrderBook`, `DeleteOrder`
Kind: L -/
theorem Inv.deleteOrderBook_spec {m : MarketManager} (hI : Inv m none none) (hB : m.Balanced)
    {id : UInt32} {enum : List UInt64} (henum : IsEnum enum m.orders)
    (hob : (m.orderBooks id).isSome) :
    ∃ m', m.deleteOrderBook id enum = some (m', .errorOK) ∧ m'.orderBooks id = none ∧
      (∀ x, m'.registry x = (m.registry x).filter fun o => o.symbolID ≠ id) ∧
      ∀ k j, k ≠ id → m'.view k j = m.view k j := by
  obtain ⟨ob, hob⟩ := Option.isSome_iff_exists.1 hob
  obtain ⟨hnd, hl⟩ := hI.ordersToDelete_spec henum id
  set l := (enum.filterMap m.orders).filter fun a => (m.heap.orderNodes a).order.symbolID = id
  obtain ⟨mf, hf, -, hvf, hof, hview⟩ := deleteOrders_cascade m id l hI hB
    (fun _ => rfl) hnd fun a ha => (hl a).1 ha
  refine ⟨_, by simp only [MarketManager.deleteOrderBook, hob, hf]; rfl, by simp [MarketManager.call],
    fun x => ?_, fun k j hk => ?_⟩
  · simp only [MarketManager.registry, MarketManager.call, hof x]
    rcases hx : m.orders x with _ | a
    · simp
    · have hxa := (hI.registered hx).id
      have hin : x ∈ l.map (fun a => (m.heap.orderNodes a).order.id) ↔
          (m.heap.orderNodes a).order.symbolID = id := by
        rw [List.mem_map]
        constructor
        · rintro ⟨b, hb, rfl⟩
          obtain ⟨hbr, hbs⟩ := (hl b).1 hb
          rw [hbr, Option.some.injEq] at hx
          exact hx ▸ hbs
        · exact fun h => ⟨a, (hl a).2 ⟨hxa.symm ▸ hx, h⟩, hxa⟩
      by_cases hs : (m.heap.orderNodes a).order.symbolID = id
      · simp [hin.2 hs, hs, Option.filter_some]
      · simp [mt hin.1 hs, hs, hvf, Option.filter_some]
  · simp only [MarketManager.call]
    rw [← hview k j hk]
    simp only [MarketManager.view, MarketManager.levelIds, Function.update_noteq hk]

/-- For every reachable state and any iteration order of the orders map, `DeleteOrderBook` of an
existing book returns `ErrorOK`, removes the book, and keeps in the registry exactly the orders
of the other symbols, each with its value unchanged; every tree of every other book is left as
it was.
Source: `market_manager.go` `DeleteOrderBook`, `DeleteOrder`
Kind: P -/
theorem Reachable.deleteOrderBook_cascade {m : MarketManager} (hm : Reachable m) {id : UInt32}
    {enum : List UInt64} (henum : IsEnum enum m.orders) (hob : (m.orderBooks id).isSome) :
    ∃ m', m.deleteOrderBook id enum = some (m', .errorOK) ∧ m'.orderBooks id = none ∧
      (∀ x, m'.registry x = (m.registry x).filter fun o => o.symbolID ≠ id) ∧
      ∀ k j, k ≠ id → m'.view k j = m.view k j :=
  hm.inv.deleteOrderBook_spec hm.balanced henum hob

theorem demo_orders_enum : IsEnum [1, 2, 3] demo.orders := by
  have ho : demo.orders = Function.update (Function.update (Function.update (fun _ => none)
      1 (some 0)) 2 (some 2)) 3 (some 3) := rfl
  refine ⟨by decide, fun k => ?_⟩
  rw [ho, Function.update_apply, Function.update_apply, Function.update_apply]
  split_ifs <;> simp_all

theorem demo_deleteOrderBook_cascade :
    IsEnum [1, 2, 3] demo.orders ∧ (demo.orderBooks 1).isSome ∧
    ∃ m', demo.deleteOrderBook 1 [1, 2, 3] = some (m', .errorOK) ∧ m'.orderBooks 1 = none ∧
      (∀ x, m'.registry x = (demo.registry x).filter fun o => o.symbolID ≠ 1) ∧
      ∀ k j, k ≠ 1 → m'.view k j = demo.view k j :=
  ⟨demo_orders_enum, rfl,
    Reachable.deleteOrderBook_cascade demo_reachable demo_orders_enum rfl⟩

/-- `DeleteSymbol` of a registered symbol, from a state where the invariant holds and the trees
are AVL, over a genuine enumeration of the orders map: it returns `ErrorOK`, removes the symbol
and its book, keeps in the registry exactly the orders of the other symbols, and changes no
other book's trees. Without a book there is no order of the symbol to delete.
Source: `market_manager.go` `DeleteSymbol`, `DeleteOrderBook`, `DeleteOrder`
Kind: L -/
theorem Inv.deleteSymbol_spec {m : MarketManager} (hI : Inv m none none) (hB : m.Balanced)
    {id : UInt32} {enum : List UInt64} (henum : IsEnum enum m.orders)
    (hs : (m.symbols id).isSome) :
    ∃ m', m.deleteSymbol id enum = some (m', .errorOK) ∧
      m'.symbols = Function.update m.symbols id none ∧ m'.orderBooks id = none ∧
      (∀ x, m'.registry x = (m.registry x).filter fun o => o.symbolID ≠ id) ∧
      ∀ k j, k ≠ id → m'.view k j = m.view k j := by
  obtain ⟨s, hs⟩ := Option.isSome_iff_exists.1 hs
  by_cases hob : (m.orderBooks id).isSome
  · obtain ⟨m₁, h₁, hbook, hreg, hview⟩ := hI.deleteOrderBook_spec hB henum hob
    refine ⟨MarketManager.call { m₁ with symbols := Function.update m₁.symbols id none } (.onDeleteSymbol s),
      by simp only [MarketManager.deleteSymbol, hs, hob, if_true, h₁]; rfl, ?_, hbook, hreg, hview⟩
    rw [← deleteOrderBook_symbols h₁]
    rfl
  · refine ⟨MarketManager.call { m with symbols := Function.update m.symbols id none } (.onDeleteSymbol s),
      by simp only [MarketManager.deleteSymbol, hs, hob]; rfl, rfl,
      Option.not_isSome_iff_eq_none.1 hob, fun x => ?_, fun _ _ _ => rfl⟩
    rcases hx : m.orders x with _ | a
    · simp [MarketManager.registry, MarketManager.call, hx]
    · obtain ⟨ob, -, hob', -⟩ := hI.book_of_registered hx
      have hne : (m.heap.orderNodes a).order.symbolID ≠ id := fun h => hob (by rw [← h, hob']; rfl)
      simp [MarketManager.registry, MarketManager.call, hx, hne, Option.filter_some]

/-- For every reachable state and any iteration order of the orders map, `DeleteSymbol` of a
registered symbol returns `ErrorOK` and removes the symbol and its book; every other symbol is
kept. The registry keeps exactly the orders of the other symbols, each with its value
unchanged, and every tree of every other book is left as it was. When the symbol has no book
there is no order of it to delete: a registered order's book exists.
Source: `market_manager.go` `DeleteSymbol`, `DeleteOrderBook`, `DeleteOrder`
Kind: P -/
theorem Reachable.deleteSymbol_cascade {m : MarketManager} (hm : Reachable m) {id : UInt32}
    {enum : List UInt64} (henum : IsEnum enum m.orders) (hs : (m.symbols id).isSome) :
    ∃ m', m.deleteSymbol id enum = some (m', .errorOK) ∧
      m'.symbols = Function.update m.symbols id none ∧ m'.orderBooks id = none ∧
      (∀ x, m'.registry x = (m.registry x).filter fun o => o.symbolID ≠ id) ∧
      ∀ k j, k ≠ id → m'.view k j = m.view k j :=
  hm.inv.deleteSymbol_spec hm.balanced henum hs

/-- The demo state with symbol 1 registered too. Source: none: a state for the witnesses.
Kind: D -/
def demoWithSymbol : MarketManager := (demo.addSymbol ⟨1, [65]⟩).1

theorem demoWithSymbol_reachable : Reachable demoWithSymbol :=
  @Reachable.step demo demoWithSymbol (.addSymbol ⟨1, [65]⟩) .errorOK demo_reachable trivial rfl

theorem demo_deleteSymbol_cascade :
    IsEnum [1, 2, 3] demoWithSymbol.orders ∧ (demoWithSymbol.symbols 1).isSome ∧
    ∃ m', demoWithSymbol.deleteSymbol 1 [1, 2, 3] = some (m', .errorOK) ∧
      m'.symbols = Function.update demoWithSymbol.symbols 1 none ∧ m'.orderBooks 1 = none ∧
      (∀ x, m'.registry x = (demoWithSymbol.registry x).filter fun o => o.symbolID ≠ 1) ∧
      ∀ k j, k ≠ 1 → m'.view k j = demoWithSymbol.view k j :=
  ⟨demo_orders_enum, rfl,
    Reachable.deleteSymbol_cascade demoWithSymbol_reachable demo_orders_enum rfl⟩

end GoTrader.Matching
