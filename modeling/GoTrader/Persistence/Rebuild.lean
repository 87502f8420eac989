import GoTrader.Persistence.Model
import GoTrader.Matching.Balance
import GoTrader.Matching.Symbols
import GoTrader.Matching.Canonical
import GoTrader.Matching.Effects

/-!
# Rebuilding an engine from a snapshot

`applySnapshot` into a fresh engine: `AddSymbol` and `AddOrderBook` for each symbol of the
snapshot, then `RestoreOrder` for each order, in the snapshot's order (`captureSnapshot` lists
symbols and orders in Go's map order).

* `RestoreOrder` keeps `MarketManager.Balanced` (every tree of every book is AVL, so
  `AVLTree.Insert` cannot fail);
* `Inv.restoreOrder_spec` — `RestoreOrder` of an order with a new id whose book exists succeeds,
  registers the value under its id and keeps the invariant; `addSymbols_cons` — one turn of
  the symbol loop adds the symbol and its empty book; `restoreOrders_spec`, `addSymbols_spec` —
  the two loops of `applySnapshot`;
* `Reachable.rebuild` — for a reachable engine whose books are the books of its symbols, the
  rebuilt engine has the same symbols, the same book keys, the same registry and, by
  `Inv.idView_perm`, the same levels with the same order ids;
* `snapshot_rebuild_diverges` — a book without a symbol is not in the snapshot, so its orders
  cannot be restored; and the ids of a level come back in the map's order, not in arrival order.
-/

namespace GoTrader.Matching

open MarketManager

/-! ## Registries under symbol and book calls -/

namespace MarketManager

theorem addSymbol_registry (m : MarketManager) (s : Symbol) :
    (m.addSymbol s).1.registry = m.registry := by
  unfold MarketManager.addSymbol; split_ifs <;> rfl

theorem addOrderBook_registry (m : MarketManager) (s : Symbol) :
    (m.addOrderBook s).1.registry = m.registry := by
  unfold MarketManager.addOrderBook; split_ifs <;> rfl

end MarketManager

/-! ## `RestoreOrder` -/

namespace Inv

variable {m : MarketManager}

/-- `RestoreOrder` of an order with a new id, on a book that exists, succeeds: it registers
the value under its id, keeps the invariant and the trees AVL, and writes no symbol or book key.
Source: `RestoreOrder` as modelled from the spec
Kind: L -/
theorem restoreOrder_spec {o : Order} (hI : Inv m none none) (hB : m.Balanced)
    (hnew : m.orders o.id = none) (hbook : (m.orderBooks o.symbolID).isSome) :
    ∃ m', m.restoreOrder o = some (m', .errorOK) ∧ Inv m' none none ∧ m'.Balanced ∧
      m'.symbols = m.symbols ∧ (∀ k, (m'.orderBooks k).isSome = (m.orderBooks k).isSome) ∧
      m'.registry = Function.update m.registry o.id (some o) := by
  have hB₀ : Balanced { m with heap := m.heap.allocOrder o,
                               orders := Function.update m.orders o.id (some m.heap.next) } :=
    hB.of_books rfl
  obtain ⟨m₁, hb⟩ := Option.isSome_iff_exists.1 (bookAddOrder_isSome m.heap.next hB₀ hbook)
  obtain ⟨hB₁, hk₁⟩ := hB₀.bookAddOrder hb
  obtain ⟨ob₁, hob₁⟩ := Option.isSome_iff_exists.1 ((hk₁ o.symbolID).trans hbook)
  obtain ⟨m₂, hu⟩ := Option.isSome_iff_exists.1
    (updateLevel_isSome (m₁.call (.onAddOrder o)) m.heap.next ob₁ .updateAdd)
  obtain ⟨cs, rfl⟩ := updateLevel_eq hu
  obtain ⟨ho₁, -, hv₁⟩ := bookAddOrder_frame hb
  have hI₁ := (hI.register hnew).bookAddOrder
    (by dsimp only; rw [Heap.allocOrder_orderNodes, Function.update_same, Function.update_same])
    (by dsimp only; rw [Heap.allocOrder_orderNodes, Function.update_same]) hb
  refine ⟨_, ?_, (hI₁.call _).updateLevel hu, hB₁.of_books rfl,
    (bookAddOrder_symbols hb :), hk₁, funext fun id => ?_⟩
  · obtain ⟨ob, hob⟩ := Option.isSome_iff_exists.1 hbook
    simp [restoreOrder, hnew, hob, hb, show (m₁.call (.onAddOrder o)).orderBooks o.symbolID =
      some ob₁ from hob₁, hu]
  · show (m₁.orders id).map (fun a => (m₁.heap.orderNodes a).order) = _
    simp only [ho₁, hv₁, registry, Function.update_apply, Heap.allocOrder_orderNodes]
    split_ifs with e
    · simp
    · cases hr : m.orders id with
      | none => rfl
      | some b =>
        have : b ≠ m.heap.next := Nat.ne_of_lt (hI.registered hr).lt
        simp [this]

end Inv

end GoTrader.Matching

namespace GoTrader.Persistence

open GoTrader.Matching MarketManager

/-! ## Map enumerations of keyed values -/

section Keyed

variable {κ α : Type} {f : κ → Option α} {key : α → κ}

/-- The values of a map whose entries carry their key, collected along a list of keys: their keys
are the listed keys that are present.
Source: none: `captureSnapshot`'s loops over `m.symbols` and `m.orders`
Kind: L -/
theorem keys_filterMap (hk : ∀ k a, f k = some a → key a = k) :
    ∀ l : List κ, (l.filterMap f).map key = l.filter fun k => (f k).isSome
  | [] => rfl
  | k :: l => by
    rw [List.filterMap_cons, List.filter_cons]
    cases h : f k with
    | none => simp [keys_filterMap hk l]
    | some a => simp [hk k a h, keys_filterMap hk l]

/-- Looking a key up among the collected values finds the map's value, when the list enumerates
the map. Source: none. Kind: L -/
theorem find?_filterMap [DecidableEq κ] (hk : ∀ k a, f k = some a → key a = k) {l : List κ}
    (he : IsEnum l f) (k : κ) : (l.filterMap f).find? (fun a => key a = k) = f k := by
  suffices ∀ l : List κ, (l.filterMap f).find? (fun a => key a = k) = if k ∈ l then f k else none by
    rw [this l]
    split_ifs with h
    · rfl
    · exact (Option.not_isSome_iff_eq_none.1 fun hs => h ((he.2 k).2 hs)).symm
  intro l
  induction l with
  | nil => rfl
  | cons k' l ih =>
    rw [List.filterMap_cons]
    cases h : f k' with
    | none =>
      rw [ih]
      by_cases e : k = k'
      · subst e; simp [h]
      · simp [e]
    | some a =>
      by_cases e : k' = k
      · subst e; simp [hk k' a h, h]
      · simp [hk k' a h, e, ih, Ne.symm e]

/-- A value put in front of a list whose keys differ from its own: looking a key up in the longer
list, then in `g`, is looking it up in the shorter one, then in `g` updated at the value's key.
Source: none
Kind: L -/
theorem find?_cons_or [DecidableEq κ] {x : α} {xs : List α} (hne : ∀ y ∈ xs, key y ≠ key x)
    (g : κ → Option α) (k : κ) :
    (xs.find? fun y => key y = k).or (Function.update g (key x) (some x) k) =
      ((x :: xs).find? fun y => key y = k).or (g k) := by
  rw [List.find?_cons]
  by_cases e : key x = k
  · subst e
    have : xs.find? (fun y => key y = key x) = none :=
      List.find?_eq_none.2 fun y hy h => hne y hy (by simpa using h)
    simp [this]
  · simp [e, Function.update_noteq (Ne.symm e)]

end Keyed

/-! ## The two loops of `applySnapshot` -/

theorem tolerate_of_ok {r : MarketManager × ErrorCode} (tolerated : ErrorCode)
    (err : ErrorCode → ApplyError) (h : r.2 = .errorOK) : tolerate tolerated err r = .ok r.1 := by
  simp [tolerate, h]

theorem registry_eq_none {m : MarketManager} {id : UInt64} : m.registry id = none ↔ m.orders id = none :=
  Option.map_eq_none'

/-- The order loop of `applySnapshot`, on orders with distinct new ids whose books exist: every
`RestoreOrder` succeeds, and the registry gains exactly those orders.
Source: `recover.go` `applySnapshot`
Kind: L -/
theorem restoreOrders_spec :
    ∀ (os : List Order) {m : MarketManager}, Inv m none none → m.Balanced →
      (os.map Order.id).Nodup →
      (∀ o ∈ os, m.orders o.id = none ∧ (m.orderBooks o.symbolID).isSome) →
      ∃ m', restoreOrders m os = some (.ok m') ∧ Inv m' none none ∧ m'.Balanced ∧
        m'.symbols = m.symbols ∧ (∀ k, (m'.orderBooks k).isSome = (m.orderBooks k).isSome) ∧
        ∀ id, m'.registry id = (os.find? fun o => o.id = id).or (m.registry id)
  | [], m, hI, hB, _, _ => ⟨m, rfl, hI, hB, rfl, fun _ => rfl, fun _ => by simp⟩
  | o :: os, m, hI, hB, hn, hos => by
    obtain ⟨hnew, hbook⟩ := hos o (List.mem_cons_self _ _)
    obtain ⟨m₁, hr, hI₁, hB₁, hs₁, hk₁, hreg₁⟩ := hI.restoreOrder_spec hB hnew hbook
    rw [List.map_cons, List.nodup_cons] at hn
    have hne : ∀ o' ∈ os, o'.id ≠ o.id := fun o' ho' e => hn.1 (e ▸ List.mem_map_of_mem _ ho')
    have hos₁ : ∀ o' ∈ os, m₁.orders o'.id = none ∧ (m₁.orderBooks o'.symbolID).isSome :=
      fun o' ho' => by
        refine ⟨registry_eq_none.1 ?_, (hk₁ _).trans (hos o' (List.mem_cons_of_mem _ ho')).2⟩
        rw [hreg₁, Function.update_noteq (hne o' ho'),
          registry_eq_none.2 (hos o' (List.mem_cons_of_mem _ ho')).1]
    obtain ⟨m', hr', hI', hB', hs', hk', hreg'⟩ := restoreOrders_spec os hI₁ hB₁ hn.2 hos₁
    refine ⟨m', by simp [restoreOrders, hr, tolerate, hr'], hI', hB', hs'.trans hs₁,
      fun k => (hk' k).trans (hk₁ k), fun id => by rw [hreg', hreg₁, find?_cons_or hne]⟩

/-- One turn of the symbol loop on a symbol whose id is neither a symbol nor a book: `AddSymbol`
and `AddOrderBook` both succeed, add the symbol and an empty book under its id, and keep the
invariant, the AVL trees and the registry.
Source: `recover.go` `applySnapshot`; `market_manager.go` `AddSymbol`, `AddOrderBook`
Kind: L -/
theorem addSymbols_cons {m : MarketManager} {s : Symbol} (hI : Inv m none none) (hB : m.Balanced)
    (hs : m.symbols s.id = none) (hb : m.orderBooks s.id = none) (ss : List Symbol) :
    ∃ m₂, addSymbols m (s :: ss) = addSymbols m₂ ss ∧ Inv m₂ none none ∧ m₂.Balanced ∧
      m₂.registry = m.registry ∧ m₂.symbols = Function.update m.symbols s.id (some s) ∧
      ∀ k, (m₂.orderBooks k).isSome = (decide (s.id = k) || (m.orderBooks k).isSome) := by
  have e₁ : (m.addSymbol s).2 = .errorOK := by simp [addSymbol, hs]
  have e₂ : ((m.addSymbol s).1.addOrderBook s).2 = .errorOK := by
    simp [addSymbol, addOrderBook, hs, hb, call]
  refine ⟨_, ?_, hI.addSymbol.addOrderBook, (hB.of_books (addSymbol_orderBooks m s)).addOrderBook s,
    by rw [addOrderBook_registry, addSymbol_registry], by simp [addSymbol, addOrderBook, hs, hb, call],
    fun k => ?_⟩
  · rw [addSymbols, tolerate_of_ok _ _ e₁]
    exact congrArg (fun r => r.bind fun mm => addSymbols mm ss) (tolerate_of_ok _ _ e₂)
  · simp only [addSymbol, addOrderBook, hs, hb, call, Option.isSome_none, Bool.false_eq_true,
      if_false, Function.update_apply]
    by_cases e : k = s.id
    · simp [e]
    · simp [e, Ne.symm e]

/-- The symbol loop of `applySnapshot`, on symbols with distinct ids that are neither symbols
nor books yet: every `AddSymbol` and `AddOrderBook` succeeds.
Source: `recover.go` `applySnapshot`
Kind: L -/
theorem addSymbols_spec :
    ∀ (ss : List Symbol) {m : MarketManager}, Inv m none none → m.Balanced →
      (ss.map Symbol.id).Nodup → (∀ s ∈ ss, m.symbols s.id = none ∧ m.orderBooks s.id = none) →
      ∃ m', addSymbols m ss = .ok m' ∧ Inv m' none none ∧ m'.Balanced ∧ m'.registry = m.registry ∧
        (∀ k, m'.symbols k = (ss.find? fun s => s.id = k).or (m.symbols k)) ∧
        ∀ k, (m'.orderBooks k).isSome =
          ((ss.find? fun s => s.id = k).isSome || (m.orderBooks k).isSome)
  | [], m, hI, hB, _, _ => ⟨m, rfl, hI, hB, rfl, fun _ => by simp, fun _ => by simp⟩
  | s :: ss, m, hI, hB, hn, hss => by
    obtain ⟨hs, hb⟩ := hss s (List.mem_cons_self _ _)
    rw [List.map_cons, List.nodup_cons] at hn
    have hne : ∀ s' ∈ ss, s'.id ≠ s.id := fun s' hs' e => hn.1 (e ▸ List.mem_map_of_mem _ hs')
    obtain ⟨m₂, e, hI₂, hB₂, hreg₂, hsym, hbook⟩ := addSymbols_cons hI hB hs hb ss
    have hss₂ : ∀ s' ∈ ss, m₂.symbols s'.id = none ∧ m₂.orderBooks s'.id = none := fun s' hs' => by
      have h' := hss s' (List.mem_cons_of_mem _ hs')
      refine ⟨by rw [hsym, Function.update_noteq (hne s' hs'), h'.1], ?_⟩
      simpa [h'.2, Ne.symm (hne s' hs')] using hbook s'.id
    obtain ⟨m', h', hI', hB', hreg', hsym', hbook'⟩ := addSymbols_spec ss hI₂ hB₂ hn.2 hss₂
    refine ⟨m', e.trans h', hI', hB', hreg'.trans hreg₂,
      fun k => by rw [hsym', hsym, find?_cons_or hne], fun k => ?_⟩
    rw [hbook', hbook, List.find?_cons]
    by_cases e : s.id = k <;> simp [e]

/-! ## Rebuilding -/

/-- Snapshot recovery, for a reachable engine whose books are the books of its symbols, and for
any iteration orders of its two maps: rebuilding a fresh engine from `captureSnapshot` as
`applySnapshot` does succeeds, with the same symbols, the same book keys and the same registry;
every tree of every book then has the same level prices, in the same order, and level by level
the same order ids.
Source: `snapshot.go` `captureSnapshot`; `recover.go` `applySnapshot`
Kind: P -/
theorem Reachable.rebuild {mm : MarketManager} (hm : Reachable mm)
    (hbooks : ∀ k, (mm.orderBooks k).isSome = (mm.symbols k).isSome) {se : List UInt32}
    {oe : List UInt64} (hse : IsEnum se mm.symbols) (hoe : IsEnum oe mm.orders) (timestamp : Int64) :
    ∃ mm₂, applySnapshot newMarketManager (captureSnapshot mm timestamp se oe) = some (.ok mm₂) ∧
      mm₂.symbols = mm.symbols ∧ (∀ k, (mm₂.orderBooks k).isSome = (mm.orderBooks k).isSome) ∧
      mm₂.registry = mm.registry ∧
      ∀ k i, List.Forall₂ (fun e f => e.1 = f.1 ∧ e.2.Perm f.2) (mm₂.idView k i) (mm.idView k i) := by
  have hI := hm.inv
  have hsk : ∀ k s, mm.symbols k = some s → s.id = k := hm.symbol_id
  have hok : ∀ id o, mm.registry id = some o → o.id = id := fun id o h => by
    obtain ⟨a, ha, rfl⟩ := Option.map_eq_some'.1 h
    exact (hI.registered ha).id
  have hre : IsEnum oe mm.registry := ⟨hoe.1, fun k => by simp [hoe.2 k, registry]⟩
  -- the symbol loop
  obtain ⟨m₁, h₁, hI₁, hB₁, hreg₁, hsym₁, hbook₁⟩ := addSymbols_spec (se.filterMap mm.symbols)
    Inv.init balanced_newMarketManager (by rw [keys_filterMap hsk]; exact hse.1.filter _)
    fun _ _ => ⟨rfl, rfl⟩
  have hbook : ∀ k, (m₁.orderBooks k).isSome = (mm.orderBooks k).isSome := fun k => by
    rw [hbook₁, find?_filterMap hsk hse, hbooks]
    simp [newMarketManager]
  -- the order loop
  have hos : (oe.filterMap mm.orders).map (fun a => (mm.heap.orderNodes a).order) =
      oe.filterMap mm.registry := List.map_filterMap _ _ _
  obtain ⟨m₂, h₂, hI₂, -, hsym₂, hbook₂, hreg₂⟩ := restoreOrders_spec (oe.filterMap mm.registry)
    hI₁ hB₁ (by rw [keys_filterMap hok]; exact hoe.1.filter _) fun o ho => by
      obtain ⟨id, -, hid⟩ := List.mem_filterMap.1 ho
      obtain ⟨a, ha, rfl⟩ := Option.map_eq_some'.1 hid
      obtain ⟨L, hL, -⟩ := (hI.registered ha).placed nofun
      refine ⟨registry_eq_none.1 (by rw [hreg₁]; rfl), ?_⟩
      rw [hbook]
      exact Inv.isSome_of_mem_levelIds hL
  have hreg : m₂.registry = mm.registry := funext fun id => by
    rw [hreg₂, find?_filterMap hok hre, hreg₁]
    cases mm.registry id <;> rfl
  refine ⟨m₂, ?_, hsym₂.trans (funext fun k => ?_), fun k => (hbook₂ k).trans (hbook k), hreg,
    hI.idView_perm hI₂ hreg⟩
  · simp [applySnapshot, captureSnapshot, h₁, hos, h₂]
  · rw [hsym₁, find?_filterMap hsk hse]
    cases mm.symbols k <;> rfl

/-! ## A snapshot of two orders at one level, and one of a book without a symbol -/

/-- Symbol and book 1, then two buy orders at 10. Source: none: a run for the witnesses. Kind: D -/
def pairedOps : List Op :=
  [.addSymbol ⟨1, [65]⟩, .addOrderBook ⟨1, [65]⟩, .addOrder (newLimitOrder 1 1 orderSideBuy 10 5),
   .addOrder (newLimitOrder 2 1 orderSideBuy 10 3)]

/-- The state `pairedOps` reaches. Source: none. Kind: D -/
def paired : MarketManager := (newMarketManager.run pairedOps).getD newMarketManager

theorem paired_reachable : Reachable paired :=
  Reachable.init.run (show newMarketManager.run pairedOps = some paired from rfl)
    (by simp [pairedOps, Op.Admissible])

theorem paired_symbols : paired.symbols = Function.update (fun _ => none) 1 (some ⟨1, [65]⟩) := rfl

theorem paired_books (k : UInt32) : (paired.orderBooks k).isSome = (paired.symbols k).isSome := by
  obtain ⟨ob, hob⟩ : ∃ ob, paired.orderBooks = Function.update (fun _ => none) 1 (some ob) :=
    ⟨_, (show paired.orderBooks = Function.update (Function.update (Function.update
      (fun _ => none) 1 _) 1 _) 1 _ from rfl).trans (by rw [Function.update_idem, Function.update_idem])⟩
  rw [hob, paired_symbols, Function.update_apply, Function.update_apply]
  split_ifs <;> rfl

theorem paired_symbols_enum : IsEnum [1] paired.symbols :=
  ⟨by decide, fun k => by rw [paired_symbols, Function.update_apply]; split_ifs <;> simp_all⟩

/-- Go may enumerate `m.orders` as `[2, 1]` as well as `[1, 2]`. -/
theorem paired_orders_enum (oe : List UInt64) (he : oe = [1, 2] ∨ oe = [2, 1]) :
    IsEnum oe paired.orders := by
  have ho : paired.orders = Function.update (Function.update (fun _ => none) 1 (some 0)) 2 (some 2) :=
    rfl
  refine ⟨by rcases he with rfl | rfl <;> decide, fun k => ?_⟩
  rw [ho, Function.update_apply, Function.update_apply]
  rcases he with rfl | rfl <;> split_ifs <;> simp_all

theorem paired_rebuild :
    Reachable paired ∧ (∀ k, (paired.orderBooks k).isSome = (paired.symbols k).isSome) ∧
    IsEnum [1] paired.symbols ∧ IsEnum [2, 1] paired.orders ∧
    ∃ mm₂, applySnapshot newMarketManager (captureSnapshot paired 0 [1] [2, 1]) = some (.ok mm₂) ∧
      mm₂.symbols = paired.symbols ∧
      (∀ k, (mm₂.orderBooks k).isSome = (paired.orderBooks k).isSome) ∧
      mm₂.registry = paired.registry ∧
      ∀ k i, List.Forall₂ (fun e f => e.1 = f.1 ∧ e.2.Perm f.2) (mm₂.idView k i) (paired.idView k i) :=
  ⟨paired_reachable, paired_books, paired_symbols_enum, paired_orders_enum _ (.inr rfl),
    Reachable.rebuild paired_reachable paired_books paired_symbols_enum
      (paired_orders_enum _ (.inr rfl)) 0⟩

/-- `demo` has book 1 but no symbol: its snapshot lists no symbol, so restoring its first order
fails with `ErrorOrderBookNotFound`. And when Go enumerates `paired`'s orders as `[2, 1]`, the
rebuilt bid level at 10 lists order 2 before order 1, the reverse of their arrival. -/
theorem snapshot_rebuild_diverges :
    Reachable demo ∧ IsEnum [] demo.symbols ∧ IsEnum [1, 2, 3] demo.orders ∧
    applySnapshot newMarketManager (captureSnapshot demo 0 [] [1, 2, 3]) =
      some (.error (.restoreOrder 1 .errorOrderBookNotFound)) ∧
    Reachable paired ∧ IsEnum [1] paired.symbols ∧ IsEnum [2, 1] paired.orders ∧
    ∃ mm₂, applySnapshot newMarketManager (captureSnapshot paired 0 [1] [2, 1]) = some (.ok mm₂) ∧
      mm₂.idView 1 .bids = [(10, [2, 1])] ∧ paired.idView 1 .bids = [(10, [1, 2])] := by
  have ho : demo.orders = Function.update (Function.update (Function.update (fun _ => none)
      1 (some 0)) 2 (some 2)) 3 (some 3) := rfl
  refine ⟨demo_reachable, ⟨List.nodup_nil, fun k => by simp [show demo.symbols = fun _ => none
    from rfl]⟩, ⟨by decide, fun k => ?_⟩, rfl, paired_reachable, paired_symbols_enum,
    paired_orders_enum _ (.inr rfl), _, rfl, by decide, by decide⟩
  rw [ho, Function.update_apply, Function.update_apply, Function.update_apply]
  split_ifs <;> simp_all

end GoTrader.Persistence
