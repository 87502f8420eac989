import GoTrader.Matching.Atomicity
import GoTrader.Matching.Effects
import GoTrader.Matching.Totality

/-!
# Time priority: which calls keep an order's place in its level

A level lists its orders in arrival order and `match` takes the head first, so an order's place
in that list is its time priority. This module says where each call that rewrites a resting
order leaves it, from any reachable state.

* `Tree.erase_insertIds` — taking the inserted level back out of the descent's sequence gives
  the tree's sequence;
* `View.erase_map` — `View.erase` of a tree whose lists, once the order is out, are the old ones;
* `Inv.view_bookAddOrder` — `ob.AddOrder(order)` of a free order: taking it back off gives every
  tree as it was, and in its own tree it ends the list of the level at its price;
* `Inv.registry_update`, `Inv.registry_unregister`, `Inv.registry_register`,
  `Inv.registry_executeOrderNode` — the registry after a call that rewrites, removes or adds one
  node;
* `Inv.reduceOrder_partial`, `Inv.register_enqueue`, `Inv.addOrder_spec`,
  `Inv.replaceOrder_spec`, `Inv.reinsertCalls_spec` — each call up to its last step
  `matchIfEnabled`: the registry, the trees and the new node's place before matching;
* `Inv.reinsert_requeues`, `Inv.reinsertCalls_requeues` — the same for the calls `ModifyOrder`
  and `MitigateOrder` make once they move the order, given its rewritten value;
* `Reachable.reduceOrder_keeps_place` — a partial `ReduceOrder` returns `ErrorOK`, changes no
  level list and no price, and only lowers the order's `LeavesQuantity`;
* `Reachable.modifyOrder_requeues`, `Reachable.mitigateOrder_requeues`,
  `Reachable.replaceOrder_requeues` — with matching off, each returns `ErrorOK`, registers the
  rewritten (or replacing) order, keeps every other order's place, and puts the order at the
  back of the level at its new routing price;
* `Reachable.executeOrder_fills` — `ExecuteOrder` for at most the order's `LeavesQuantity`
  returns `ErrorOK`; a partial fill keeps the order's place, a full fill takes it off its level;
* `Reachable.addOrder_enqueues` — with matching off, `AddOrder` of a valid, fresh order of an
  existing book returns `ErrorOK` and puts it at the back of the level at its routing price.
-/

namespace GoTrader.Matching

open MarketManager

namespace Tree

variable {price : Nat → UInt64} {d : Bool} {level : Nat}

theorem mem_insertIds : ∀ t : Tree, level ∈ t.insertIds price d level
  | nil => List.mem_singleton_self _
  | node l x b r => by
    simp only [insertIds]
    split_ifs
    · exact List.mem_append_left _ (mem_insertIds l)
    · exact List.mem_append_right _ (List.mem_cons_of_mem _ (mem_insertIds r))

/-- The descent only adds `level`: taking it back out gives the tree's sequence.
Source: none: infrastructure
Kind: L -/
theorem erase_insertIds : ∀ {t : Tree}, level ∉ t.ids → (t.insertIds price d level).erase level = t.ids
  | nil, _ => List.erase_cons_head _ _
  | node l x b r, h => by
    simp only [ids_node, List.mem_append, List.mem_cons, not_or] at h
    obtain ⟨hl, hx, hr⟩ := h
    simp only [insertIds, ids_node]
    split_ifs
    · rw [List.erase_append_left _ (mem_insertIds l), erase_insertIds hl]
    · rw [List.erase_append_right _ hl, List.erase_cons_tail (by simpa using Ne.symm hx),
        erase_insertIds hr]

end Tree

namespace View

/-- `View.erase a` of the tree listing levels `ids'`, when the levels that keep an order once
`a` is out are `ids`, each with its old price and, without `a`, its old list.
Source: none: infrastructure
Kind: L -/
theorem erase_map {a : Nat} {ids ids' : List Nat} {P P' : Nat → UInt64} {n n' : Nat → List Nat}
    (hf : ids'.filter (fun x => !((n' x).erase a).isEmpty) = ids)
    (hx : ∀ x ∈ ids, P' x = P x ∧ (n' x).erase a = n x) :
    erase a (ids'.map fun x => (P' x, n' x)) = ids.map fun x => (P x, n x) := by
  rw [erase, List.map_map, List.filter_map]
  simp only [Function.comp_def]
  rw [hf]
  exact List.map_congr_left fun x hx' => by rw [(hx x hx').1, (hx x hx').2]

end View

/-- With matching off, `matchIfEnabled` returns `ErrorOK` and changes nothing.
Source: `market_manager.go` (`if m.matching { m.match(ob) }; return ErrorOK`)
Kind: L -/
theorem MarketManager.matchIfEnabled_of_off {m m' : MarketManager} {key : UInt32} {e : ErrorCode}
    (hoff : m.matching = false) (h : m.matchIfEnabled key = some (m', e)) :
    m' = m ∧ e = .errorOK := by
  simp only [MarketManager.matchIfEnabled, hoff, Bool.false_eq_true, if_false, Option.some.injEq,
    Prod.mk.injEq] at h
  exact ⟨h.1.symm, h.2.symm⟩

/-- `ob.AddOrder` removes no book and adds none. Source: none. Kind: L -/
theorem MarketManager.bookAddOrder_books {m m' : MarketManager} {key : UInt32} {a : Nat}
    (h : m.bookAddOrder key a = some m') (k : UInt32) :
    (m'.orderBooks k).isSome = (m.orderBooks k).isSome := by
  obtain ⟨ob, hob, h⟩ := Option.bind_eq_some.1 h
  obtain ⟨_, -, h⟩ := Option.bind_eq_some.1 h
  cases h
  simp only [Function.update_apply]
  split_ifs with e
  · subst e; simp [hob]
  · rfl

namespace Inv

variable {m : MarketManager} {a : Nat}

/-- `ob.AddOrder(order)` of the free order `a` on its own book: taking `a` back off every tree
gives the trees as they were, and in `a`'s tree `a` ends the list of the level at its routing
price (an existing level, or a new one holding `a` alone).
Source: `orderbook.go` `(*OrderBook).AddOrder`, `AddLevel`; `level.go` `(*OrderList).PushBack`
Kind: L -/
theorem view_bookAddOrder {m' : MarketManager} {key : UInt32} (hI : Inv m (some a) none)
    (hr : m.orders (m.heap.orderNodes a).order.id = some a)
    (hk : (m.heap.orderNodes a).order.symbolID = key) (hb : m.bookAddOrder key a = some m') :
    (∀ k j, View.erase a (m'.view k j) = m.view k j) ∧
      ∃ l, (routingPrice (m.heap.orderNodes a).order, l ++ [a]) ∈
        m'.view key (LevelIndex.ofOrder (m.heap.orderNodes a).order) := by
  subst hk
  have hfree : ∀ {k j x}, x ∈ m.levelIds k j → a ∉ m.heap.nodes x :=
    (hI.registered hr).detached rfl
  have hne : ∀ {k j x}, x ∈ m.levelIds k j → m.heap.nodes x ≠ [] := fun hx => hI.nonempty hx nofun
  obtain ⟨ob, hob, hb⟩ := Option.bind_eq_some.1 hb
  obtain ⟨⟨ob', h'⟩, ha, hb⟩ := Option.bind_eq_some.1 hb
  cases hb
  obtain ⟨h₁, L, rfl, ⟨hf, rfl, rfl⟩ | ⟨hf, hadd⟩⟩ := OrderBook.addOrder_spec ha
  · -- an existing level: its list grows by `a` at the back, nothing else changes
    obtain ⟨hL, hpL⟩ := (hI.find_eq_some_iff hob _ _).1 hf
    rw [← hob, Function.update_eq_self]
    have hx : ∀ {k j}, ∀ x ∈ m.levelIds k j,
        (m.heap.linkOrder L a).price x = m.heap.price x ∧
          ((m.heap.linkOrder L a).nodes x).erase a = m.heap.nodes x := fun x hx => by
      refine ⟨by rw [Heap.price_linkOrder], ?_⟩
      rw [Heap.nodes_linkOrder]
      split_ifs with e
      · subst e
        rw [List.erase_append_right _ (hfree hx), List.erase_cons_head, List.append_nil]
      · exact List.erase_of_not_mem (hfree hx)
    refine ⟨fun k j => View.erase_map (List.filter_eq_self.2 fun x hxm => ?_) hx, m.heap.nodes L,
      List.mem_map.2 ⟨L, hL, ?_⟩⟩
    · rw [(hx x hxm).2]
      simpa [List.isEmpty_iff] using hne hxm
    · rw [Heap.price_linkOrder, Heap.nodes_linkOrder, if_pos rfl, hpL]
  · -- a new level, at its sorted place, holding `a` alone
    obtain ⟨hI₁, hL, hpL, -⟩ := hI.addLevel hob hf hadd
    obtain ⟨rfl, rfl, t, ht, hob'⟩ := OrderBook.addLevel_spec hadd
    set N := m.heap.next
    set key := (m.heap.orderNodes a).order.symbolID
    set i := LevelIndex.ofOrder (m.heap.orderNodes a).order
    set h₁ := m.heap.allocLevel (newLevelNode i.levelType (routingPrice (m.heap.orderNodes a).order))
    have hlev := fun k j => levelIds_replaceTree hob hob' (h₁.linkOrder N a) k j
    have hnd := fun k j => levelIds_replaceTree hob hob' h₁ k j ▸ hI₁.nodup k j
    have hN : ∀ {k j}, N ∉ m.levelIds k j := fun hx => Nat.lt_irrefl _ (hI.level_lt hx)
    have hids : ∀ k j,
        (if k = key ∧ j = i then t.root.ids else m.levelIds k j).erase N = m.levelIds k j :=
      fun k j => by
        split_ifs with hkj
        · obtain ⟨rfl, rfl⟩ := hkj
          rw [(AVLTree.insert_spec ht).2, Tree.erase_insertIds (levelIds_of_some hob _ ▸ hN),
            levelIds_of_some hob]
        · exact List.erase_of_not_mem hN
    have hxN : ∀ {k j x}, x ∈ m.levelIds k j → x ≠ N := fun hx e => hN (e ▸ hx)
    have hx : ∀ {k j}, ∀ x ∈ m.levelIds k j,
        (h₁.linkOrder N a).price x = m.heap.price x ∧
          ((h₁.linkOrder N a).nodes x).erase a = m.heap.nodes x := fun x hx => by
      rw [Heap.price_linkOrder, Heap.nodes_linkOrder, if_neg (hxN hx), Heap.price_allocLevel,
        Heap.nodes_allocLevel, if_neg (hxN hx), if_neg (hxN hx)]
      exact ⟨rfl, List.erase_of_not_mem (hfree hx)⟩
    have hNa : (h₁.linkOrder N a).nodes N = [a] := by
      rw [Heap.nodes_linkOrder, if_pos rfl, Heap.nodes_allocLevel, if_pos rfl]; rfl
    refine ⟨fun k j => View.erase_map ?_ hx, [], List.mem_map.2 ⟨N, hL, ?_⟩⟩
    · rw [hlev]
      refine Eq.trans (List.filter_congr fun x hx' => ?_) (((hnd k j).erase_eq_filter _).symm.trans (hids k j))
      by_cases e : x = N
      · subst e; simp [hNa]
      · have hxm := (List.mem_erase_of_ne e).2 hx'
        rw [hids] at hxm
        rw [(hx x hxm).2, bne_iff_ne.2 e]
        simpa [List.isEmpty_iff] using hne hxm
    · rw [Heap.price_linkOrder, hpL, hNa, List.nil_append]

/-! ## The registry after one order changes -/

section Registry

variable {free opened : Option Nat} {m' : MarketManager} {id : UInt64}

/-- Nodes registered under different ids are different nodes. Source: none. Kind: L -/
theorem ne_of_registered (hI : Inv m free opened) (ha : m.orders id = some a) {x : UInt64}
    {c : Nat} (hc : m.orders x = some c) (hx : x ≠ id) : c ≠ a := fun e =>
  hx ((hI.registered hc).id.symm.trans (e ▸ (hI.registered ha).id))

/-- Rewriting the value of one registered node, with the registry map kept, rewrites that one
registry entry.
Source: none: infrastructure
Kind: L -/
theorem registry_update {o : Order} (hI : Inv m free opened) (ha : m.orders id = some a)
    (ho : m'.orders = m.orders)
    (hv : ∀ c, (m'.heap.orderNodes c).order = if c = a then o else (m.heap.orderNodes c).order) :
    m'.registry = Function.update m.registry id (some o) := by
  funext x
  simp only [registry, ho, Function.update_apply]
  split_ifs with hx
  · subst hx; simp [ha, hv]
  · rcases hc : m.orders x with _ | c
    · rfl
    · simp [hv, hI.ne_of_registered ha hc hx]

/-- Unregistering an id, with the other nodes' values kept, removes that one registry entry.
Source: `market_manager.go` (`delete(m.orders, id)`)
Kind: L -/
theorem registry_unregister (hI : Inv m free opened) (ha : m.orders id = some a)
    (ho : m'.orders = Function.update m.orders id none)
    (hv : ∀ c, c ≠ a → (m'.heap.orderNodes c).order = (m.heap.orderNodes c).order) :
    m'.registry = Function.update m.registry id none := by
  funext x
  simp only [registry, ho, Function.update_apply]
  split_ifs with hx
  · rfl
  · rcases hc : m.orders x with _ | c
    · rfl
    · simp [hv c (hI.ne_of_registered ha hc hx)]

/-- Registering a new node for `o` under `o`'s id adds that one registry entry.
Source: `market_manager.go` (`m.orders[order.ID] = orderNode`)
Kind: L -/
theorem registry_register {o : Order} (hI : Inv m free opened)
    (ho : m'.orders = Function.update m.orders o.id (some m.heap.next))
    (hv : ∀ c, c ≠ m.heap.next → (m'.heap.orderNodes c).order = (m.heap.orderNodes c).order)
    (hn : (m'.heap.orderNodes m.heap.next).order = o) :
    m'.registry = Function.update m.registry o.id (some o) := by
  funext x
  simp only [registry, ho, Function.update_apply]
  split_ifs with hx
  · simp [hn]
  · rcases hc : m.orders x with _ | c
    · rfl
    · simp [hv c (Nat.ne_of_lt (hI.registered hc).lt)]

end Registry

/-- `executeOrder` on a registered node rewrites its registry entry: a fill of its whole
`LeavesQuantity` unregisters it, a partial fill moves the quantity to `ExecutedQuantity`.
Source: `market_manager.go` `executeOrder`
Kind: L -/
theorem registry_executeOrderNode {m' : MarketManager} {id p q : UInt64} {e : ErrorCode}
    (hI : Inv m none none) (ha : m.orders id = some a) (h : m.executeOrderNode a p q = some (m', e)) :
    m'.registry = Function.update m.registry id
      (if (m.heap.orderNodes a).order.leavesQuantity - q = 0 then none else
        some { (m.heap.orderNodes a).order with
               executedQuantity := (m.heap.orderNodes a).order.executedQuantity + q,
               leavesQuantity := (m.heap.orderNodes a).order.leavesQuantity - q }) := by
  obtain ⟨-, ho', hv'⟩ := hI.executeOrderNode ha h
  split_ifs at ho' ⊢
  · exact hI.registry_unregister ha ho' fun c hc => by rw [hv', if_neg hc]
  · exact hI.registry_update ha ho' hv'

/-- A partial `ReduceOrder`, by `0 < q < LeavesQuantity`: it returns `ErrorOK`, changes no
level list and no price, and only lowers the order's `LeavesQuantity` in the registry.
Source: `market_manager.go` `ReduceOrder`; `orderbook.go` `(*OrderBook).ReduceOrder`
Kind: L -/
theorem reduceOrder_partial {m' : MarketManager} {e : ErrorCode} {id q : UInt64}
    (hI : Inv m none none) (ha : m.orders id = some a) (hq : q ≠ 0)
    (hge : ¬ q ≥ (m.heap.orderNodes a).order.leavesQuantity)
    (h : m.reduceOrder id q = some (m', e)) :
    e = .errorOK ∧ (∀ k j, m'.view k j = m.view k j) ∧
      m'.registry = Function.update m.registry id (some { (m.heap.orderNodes a).order with
        leavesQuantity := (m.heap.orderNodes a).order.leavesQuantity - q }) := by
  unfold MarketManager.reduceOrder at h
  simp only [ha, if_neg hq, if_neg hge] at h
  obtain ⟨heap, hred, h₁⟩ := Option.bind_eq_some.1 h
  obtain ⟨m₃, hu, h₂⟩ := Option.bind_eq_some.1 h₁
  cases h₂
  obtain ⟨cs, rfl⟩ := MarketManager.updateLevel_eq hu
  obtain ⟨L', -, rfl⟩ := OrderBook.reduceOrder_spec hred
  refine ⟨rfl, fun k j => ?_, hI.registry_update ha rfl fun c => ?_⟩
  · simp only [MarketManager.view, MarketManager.levelIds, MarketManager.setOrder,
      MarketManager.call, Heap.price_reduceLevel, Heap.nodes_reduceLevel,
      Heap.price_setOrderNode, Heap.nodes_setOrderNode]
  · simp only [MarketManager.setOrder, MarketManager.call, Heap.reduceLevel_orderNodes,
      Heap.setOrderNode_orderNodes, Function.update_apply]
    split_ifs <;> rfl

/-- The new node of `AddOrder` and `ReplaceOrder`: registering a fresh order in the next node
and putting it on its book keeps the invariant, registers the order and no other, keeps every
resting order's place, and ends the level at the order's routing price with the new node.
Source: `market_manager.go` `AddOrder`, `ReplaceOrder`; `orderbook.go` `(*OrderBook).AddOrder`
Kind: L -/
theorem register_enqueue {m₁ : MarketManager} {o : Order} {key : UInt32} (hI : Inv m none none)
    (hnew : m.orders o.id = none) (hk : o.symbolID = key)
    (hb : ({ m with heap := m.heap.allocOrder o,
                    orders := Function.update m.orders o.id (some m.heap.next) } : MarketManager
      ).bookAddOrder key m.heap.next = some m₁) :
    Inv m₁ none none ∧ m₁.matching = m.matching ∧
      (∀ k, (m₁.orderBooks k).isSome = (m.orderBooks k).isSome) ∧ m₁.orders o.id = some m.heap.next ∧
      m₁.registry = Function.update m.registry o.id (some o) ∧
      (∀ k j, View.erase m.heap.next (m₁.view k j) = m.view k j) ∧
      ∃ l, (routingPrice o, l ++ [m.heap.next]) ∈ m₁.view key (LevelIndex.ofOrder o) := by
  have hnode : ((m.heap.allocOrder o).orderNodes m.heap.next).order = o := by
    rw [Heap.allocOrder_orderNodes, Function.update_same]
  have hI₀ := hI.register hnew
  obtain ⟨ho₁, hm₁, hv₁⟩ := MarketManager.bookAddOrder_frame hb
  obtain ⟨hback, hlast⟩ := hI₀.view_bookAddOrder
    (by dsimp only; rw [hnode, Function.update_same]) (by dsimp only; rw [hnode, hk]) hb
  simp only [Heap.allocOrder_orderNodes, Function.update_same] at hlast
  exact ⟨hI₀.bookAddOrder (by dsimp only; rw [hnode, Function.update_same])
      (by dsimp only; rw [hnode, hk]) hb, hm₁,
    fun k => by rw [MarketManager.bookAddOrder_books hb k],
    by rw [ho₁]; exact Function.update_same _ _ _,
    hI.registry_register ho₁ (fun c hc => by rw [hv₁, Heap.allocOrder_orderNodes,
      Function.update_noteq hc]) (by rw [hv₁]; exact hnode), hback, hlast⟩

/-- `AddOrder` of a valid order with a fresh id on an existing book, up to its last call
`matchIfEnabled`: the state before that call keeps the invariant, registers the order in the
next node and no other, keeps every resting order's place and ends the level at the order's
routing price with the new node.
Source: `market_manager.go` `AddOrder`
Kind: L -/
theorem addOrder_spec {m' : MarketManager} {e : ErrorCode} {order : Order} (hI : Inv m none none)
    (hv : validateOrder order = .errorOK) (hnew : m.orders order.id = none)
    (hbook : (m.orderBooks order.symbolID).isSome) (h : m.addOrder order = some (m', e)) :
    ∃ mc, Inv mc none none ∧ mc.matching = m.matching ∧
      (∀ k, (mc.orderBooks k).isSome = (m.orderBooks k).isSome) ∧
      mc.orders order.id = some m.heap.next ∧
      mc.registry = Function.update m.registry order.id (some order) ∧
      (∀ k j, View.erase m.heap.next (mc.view k j) = m.view k j) ∧
      (∃ l, (routingPrice order, l ++ [m.heap.next]) ∈
        mc.view order.symbolID (LevelIndex.ofOrder order)) ∧
      mc.matchIfEnabled order.symbolID = some (m', e) := by
  have hdup : ¬ (m.orders order.id).isSome := by simp [hnew]
  have hnone : ¬ (m.orderBooks order.symbolID).isNone := by
    simpa [Option.isSome_iff_ne_none] using hbook
  unfold MarketManager.addOrder at h
  simp only [hv, ne_eq, not_true_eq_false, if_false, hdup, hnone, Option.bind_eq_bind] at h
  obtain ⟨m₁, hb, h₁⟩ := Option.bind_eq_some.1 h
  obtain ⟨m₂, hu, h₂⟩ := Option.bind_eq_some.1 h₁
  obtain ⟨hI₁, hm₁, hk₁, ho₁, hreg, hback, hlast⟩ := hI.register_enqueue hnew rfl hb
  have hI₂ := (hI₁.call _).updateLevel hu
  obtain ⟨cs, rfl⟩ := MarketManager.updateLevel_eq hu
  exact ⟨_, hI₂, hm₁, hk₁, ho₁, hreg, hback, hlast, h₂⟩

/-- `ReplaceOrder` of a registered order by a fresh id and a non-zero quantity, up to its last
call `matchIfEnabled`: the old id is unregistered and `replacement` of the old order registered
under the new id in a new node; without the new node every tree is the old tree without the old
node, and the new node ends the level at its routing price.
Source: `market_manager.go` `ReplaceOrder`
Kind: L -/
theorem replaceOrder_spec {m' : MarketManager} {e : ErrorCode} {id newID p q : UInt64}
    (hI : Inv m none none) (ha : m.orders id = some a) (hq : q ≠ 0)
    (hnew : m.orders newID = none) (h : m.replaceOrder id newID p q = some (m', e)) :
    ∃ mc b, Inv mc none none ∧ mc.matching = m.matching ∧ mc.orders newID = some b ∧
      mc.registry = Function.update (Function.update m.registry id none) newID
        (some (replacement (m.heap.orderNodes a).order newID p q)) ∧
      (∀ k j, View.erase b (mc.view k j) = View.erase a (m.view k j)) ∧
      (∃ l, (routingPrice (replacement (m.heap.orderNodes a).order newID p q), l ++ [b]) ∈
        mc.view (m.heap.orderNodes a).order.symbolID
          (LevelIndex.ofOrder (m.heap.orderNodes a).order)) ∧
      mc.matchIfEnabled (m.heap.orderNodes a).order.symbolID = some (m', e) := by
  have hdup : ¬ (m.orders newID).isSome := by simp [hnew]
  unfold MarketManager.replaceOrder at h
  simp only [ha, if_neg hq, if_neg hdup, Option.bind_eq_bind] at h
  obtain ⟨m₁, hu₁, h₁⟩ := Option.bind_eq_some.1 h
  have hI₁ := hI.updateLevel hu₁
  obtain ⟨cs, rfl⟩ := MarketManager.updateLevel_eq hu₁
  obtain ⟨m₂, hd, h₂⟩ := Option.bind_eq_some.1 h₁
  obtain ⟨m₃, hb, h₃⟩ := Option.bind_eq_some.1 h₂
  obtain ⟨m₄, hu₄, h₄⟩ := Option.bind_eq_some.1 h₃
  obtain ⟨hI₂, ho₂, hv₂⟩ := hI₁.bookDeleteOrder ha rfl hd
  have hr₂ : m₂.orders id = some a := ho₂ ▸ ha
  have hnew' : Function.update m₂.orders id none
      (replacement (m₂.heap.orderNodes a).order newID p q).id = none := by
    rw [Function.update_apply, ho₂]
    split_ifs
    · rfl
    · exact hnew
  obtain ⟨hI₃, hm₃, -, ho₃, hreg, hback, hlast⟩ :=
    ((hI₂.unregister hr₂).call (.onDeleteOrder (m₂.heap.orderNodes a).order)).register_enqueue
      hnew' (show (m₂.heap.orderNodes a).order.symbolID = _ from congrArg Order.symbolID (hv₂ a))
      hb
  have hI₄ := (hI₃.call _).updateLevel hu₄
  obtain ⟨cs₄, rfl⟩ := MarketManager.updateLevel_eq hu₄
  have hreg₂ : m₂.registry = m.registry := funext fun x => by simp only [registry, ho₂, hv₂]
  have hmid : (MarketManager.call { m₂ with orders := Function.update m₂.orders id none }
      (.onDeleteOrder (m₂.heap.orderNodes a).order)).registry = Function.update m.registry id none :=
    hreg₂ ▸ hI₂.registry_unregister hr₂ rfl fun _ _ => rfl
  rw [hmid, hv₂ a] at hreg
  rw [hv₂ a] at hlast
  exact ⟨_, _, hI₄, hm₃.trans (MarketManager.bookDeleteOrder_frame hd).2, ho₃, hreg,
    fun k j => (hback k j).trans (hI₁.view_bookDeleteOrder ha rfl hd k j), hlast, h₄⟩

/-- The common core of `ModifyOrder` and `MitigateOrder`, tree by tree: once `ob.DeleteOrder`
has taken the order off and `ob.AddOrder` has put its rewritten value `o` back, the registry
holds `o`, every other order keeps its place, and the order ends the level at `o`'s routing
price.
Source: `market_manager.go` `ModifyOrder`, `MitigateOrder`
Kind: L -/
theorem reinsert_requeues {m₁ m₂ : MarketManager} {id : UInt64} {o : Order}
    (hI : Inv m none none) (ha : m.orders id = some a)
    (hd : m.bookDeleteOrder (m.heap.orderNodes a).order.symbolID a = some m₁)
    (hid : o.id = (m.heap.orderNodes a).order.id)
    (hsym : o.symbolID = (m.heap.orderNodes a).order.symbolID)
    (hb : (m₁.setOrder a o).bookAddOrder (m.heap.orderNodes a).order.symbolID a = some m₂) :
    m₂.registry = Function.update m.registry id (some o) ∧
      (∀ k j, View.erase a (m₂.view k j) = View.erase a (m.view k j)) ∧
      ∃ l, (routingPrice o, l ++ [a]) ∈
        m₂.view (m.heap.orderNodes a).order.symbolID (LevelIndex.ofOrder o) := by
  obtain ⟨hI₁, ho₁, hv₁⟩ := hI.bookDeleteOrder ha rfl hd
  obtain ⟨-, ho₂, hv₂⟩ := hI.reinsert_effect ha hd hid hsym hb
  have hr : m₁.orders (m.heap.orderNodes a).order.id = some a := by
    rw [ho₁, (hI.registered ha).id]; exact ha
  obtain ⟨hback, hlast⟩ := (hI₁.setOrder (by rw [hv₁]; exact hr) (by rw [hv₁]; exact hid)).view_bookAddOrder
    (by simpa [MarketManager.setOrder, hid] using hr) (by simp [MarketManager.setOrder, hsym]) hb
  simp only [MarketManager.setOrder, Heap.setOrderNode_orderNodes, Function.update_same] at hlast
  exact ⟨hI.registry_update ha ho₂ hv₂,
    fun k j => (hback k j).trans (hI.view_bookDeleteOrder ha rfl hd k j), hlast⟩

/-- What `ModifyOrder` and `MitigateOrder` do once they have decided to move the order, up to
their last call `matchIfEnabled`: their sequence of calls (`updateLevel`, `ob.DeleteOrder`, the
rewrite `f` of the order's value, `ob.AddOrder`, the handler, `updateLevel`) keeps the
invariant, registers the rewritten order, keeps every other order's place and ends the level at
its new routing price with the order.
Source: `market_manager.go` `ModifyOrder`, `MitigateOrder`
Kind: L -/
theorem reinsertCalls_spec {m' : MarketManager} {e : ErrorCode} {id : UInt64}
    (hI : Inv m none none) (ha : m.orders id = some a)
    (f : Order → Order) (hfid : ∀ o, (f o).id = o.id) (hfsym : ∀ o, (f o).symbolID = o.symbolID)
    (h : ((m.updateLevel (m.orderBooks (m.heap.orderNodes a).order.symbolID) a .updateDelete).bind
      fun m₁ => (m₁.bookDeleteOrder (m.heap.orderNodes a).order.symbolID a).bind
      fun m₂ => ((m₂.setOrder a (f (m₂.heap.orderNodes a).order)).bookAddOrder
        (m.heap.orderNodes a).order.symbolID a).bind
      fun m₃ => ((m₃.call (.onUpdateOrder (f (m₂.heap.orderNodes a).order))).updateLevel
        ((m₃.call (.onUpdateOrder (f (m₂.heap.orderNodes a).order))).orderBooks
          (m.heap.orderNodes a).order.symbolID) a .updateAdd).bind
      fun m₄ => m₄.matchIfEnabled (m.heap.orderNodes a).order.symbolID) = some (m', e)) :
    ∃ mc, Inv mc none none ∧ mc.matching = m.matching ∧
      mc.registry = Function.update m.registry id (some (f (m.heap.orderNodes a).order)) ∧
      (∀ k j, View.erase a (mc.view k j) = View.erase a (m.view k j)) ∧
      (∃ l, (routingPrice (f (m.heap.orderNodes a).order), l ++ [a]) ∈
        mc.view (m.heap.orderNodes a).order.symbolID
          (LevelIndex.ofOrder (f (m.heap.orderNodes a).order))) ∧
      mc.matchIfEnabled (m.heap.orderNodes a).order.symbolID = some (m', e) := by
  obtain ⟨m₁, hu₁, h₁⟩ := Option.bind_eq_some.1 h
  have hI₁ := hI.updateLevel hu₁
  obtain ⟨cs, rfl⟩ := MarketManager.updateLevel_eq hu₁
  obtain ⟨m₂, hd, h₂⟩ := Option.bind_eq_some.1 h₁
  obtain ⟨m₃, hb, h₃⟩ := Option.bind_eq_some.1 h₂
  obtain ⟨m₄, hu₄, h₄⟩ := Option.bind_eq_some.1 h₃
  have hv := (hI₁.bookDeleteOrder ha rfl hd).2.2 a
  have hI₄ := ((hI₁.reinsert_effect ha hd (by rw [hfid, hv]) (by rw [hfsym, hv]) hb).1.inv.call
    _).updateLevel hu₄
  obtain ⟨cs₄, rfl⟩ := MarketManager.updateLevel_eq hu₄
  obtain ⟨hreg, herase, hlast⟩ :=
    hI₁.reinsert_requeues ha hd (by rw [hfid, hv]) (by rw [hfsym, hv]) hb
  rw [hv] at hreg hlast
  exact ⟨_, hI₄, (MarketManager.bookAddOrder_frame hb).2.1.trans
    (MarketManager.bookDeleteOrder_frame hd).2, hreg, herase, hlast, h₄⟩

/-- The same calls with matching off return `ErrorOK`, and the order ends the level at its new
routing price with every other order in place.
Source: `market_manager.go` `ModifyOrder`, `MitigateOrder`
Kind: L -/
theorem reinsertCalls_requeues {m' : MarketManager} {e : ErrorCode} {id : UInt64}
    (hI : Inv m none none) (hoff : m.matching = false) (ha : m.orders id = some a)
    (f : Order → Order) (hfid : ∀ o, (f o).id = o.id) (hfsym : ∀ o, (f o).symbolID = o.symbolID)
    (h : ((m.updateLevel (m.orderBooks (m.heap.orderNodes a).order.symbolID) a .updateDelete).bind
      fun m₁ => (m₁.bookDeleteOrder (m.heap.orderNodes a).order.symbolID a).bind
      fun m₂ => ((m₂.setOrder a (f (m₂.heap.orderNodes a).order)).bookAddOrder
        (m.heap.orderNodes a).order.symbolID a).bind
      fun m₃ => ((m₃.call (.onUpdateOrder (f (m₂.heap.orderNodes a).order))).updateLevel
        ((m₃.call (.onUpdateOrder (f (m₂.heap.orderNodes a).order))).orderBooks
          (m.heap.orderNodes a).order.symbolID) a .updateAdd).bind
      fun m₄ => m₄.matchIfEnabled (m.heap.orderNodes a).order.symbolID) = some (m', e)) :
    e = .errorOK ∧ m'.registry = Function.update m.registry id (some (f (m.heap.orderNodes a).order)) ∧
      (∀ k j, View.erase a (m'.view k j) = View.erase a (m.view k j)) ∧
      ∃ l, (routingPrice (f (m.heap.orderNodes a).order), l ++ [a]) ∈
        m'.view (m.heap.orderNodes a).order.symbolID (LevelIndex.ofOrder (f (m.heap.orderNodes a).order)) := by
  obtain ⟨mc, -, hmc, hreg, herase, hlast, h₄⟩ := hI.reinsertCalls_spec ha f hfid hfsym h
  obtain ⟨rfl, rfl⟩ := MarketManager.matchIfEnabled_of_off (hmc.trans hoff) h₄
  exact ⟨rfl, hreg, herase, hlast⟩

end Inv

/-- A partial `ReduceOrder` (by less than the order's `LeavesQuantity`) from any reachable state
returns `ErrorOK`, leaves every level list and every level price of every tree as it was, so
the order keeps its place, and changes the registry only in the order's `LeavesQuantity`.
Source: `market_manager.go` `ReduceOrder`; `orderbook.go` `(*OrderBook).ReduceOrder`
Kind: P -/
theorem Reachable.reduceOrder_keeps_place {m : MarketManager} (hm : Reachable m) {id q : UInt64}
    {o : Order} (ho : m.registry id = some o) (hq : q ≠ 0) (hlt : q < o.leavesQuantity) :
    ∃ m', m.reduceOrder id q = some (m', .errorOK) ∧ (∀ k j, m'.view k j = m.view k j) ∧
      m'.registry = Function.update m.registry id
        (some { o with leavesQuantity := o.leavesQuantity - q }) := by
  have hI := hm.inv
  obtain ⟨a, ha, rfl⟩ := Option.map_eq_some'.1 ho
  have hge : ¬ q ≥ (m.heap.orderNodes a).order.leavesQuantity := fun h =>
    Nat.lt_irrefl _ (Nat.lt_of_lt_of_le hlt (UInt64.le_iff_toNat_le.1 h))
  obtain ⟨⟨m', e⟩, h⟩ := Option.isSome_iff_exists.1 (hI.reduceOrder_isSome hm.balanced id q)
  obtain ⟨rfl, hview, hreg⟩ := hI.reduceOrder_partial ha hq hge h
  exact ⟨_, h, hview, hreg⟩

theorem demo_reduceOrder_keeps_place :
    demo.registry 1 = some (newLimitOrder 1 1 orderSideBuy 10 5) ∧ (2 : UInt64) ≠ 0 ∧
    (2 : UInt64) < (newLimitOrder 1 1 orderSideBuy 10 5).leavesQuantity ∧
    ∃ m', demo.reduceOrder 1 2 = some (m', .errorOK) ∧ (∀ k j, m'.view k j = demo.view k j) ∧
      m'.registry = Function.update demo.registry 1 (some { newLimitOrder 1 1 orderSideBuy 10 5 with
        leavesQuantity := (newLimitOrder 1 1 orderSideBuy 10 5).leavesQuantity - 2 }) :=
  have ho : demo.registry 1 = some (newLimitOrder 1 1 orderSideBuy 10 5) := rfl
  ⟨ho, by decide, by decide, Reachable.reduceOrder_keeps_place demo_reachable ho (by decide) (by decide)⟩

/-- `ExecuteOrder` of a registered order for a quantity `0 < q ≤ LeavesQuantity`, from any
reachable state, returns `ErrorOK`. A partial fill leaves every level list and price as it was,
so the order keeps its place, and moves `q` from its `LeavesQuantity` to its
`ExecutedQuantity`; a full fill takes it off its level and out of the registry.
Source: `market_manager.go` `ExecuteOrder`, `executeOrder`; `orderbook.go`
`(*OrderBook).ReduceOrder`, `(*OrderBook).DeleteOrder`
Kind: P -/
theorem Reachable.executeOrder_fills {m : MarketManager} (hm : Reachable m) {id q : UInt64}
    {o : Order} (ho : m.registry id = some o) (hq : q ≠ 0) (hle : q ≤ o.leavesQuantity) :
    ∃ m' a, m.executeOrder id q = some (m', .errorOK) ∧ m.orders id = some a ∧
      (∀ k j, m'.view k j =
        if q = o.leavesQuantity then View.erase a (m.view k j) else m.view k j) ∧
      m'.registry = Function.update m.registry id (if q = o.leavesQuantity then none else
        some { o with executedQuantity := o.executedQuantity + q,
                      leavesQuantity := o.leavesQuantity - q }) := by
  have hI := hm.inv
  obtain ⟨a, ha, rfl⟩ := Option.map_eq_some'.1 ho
  have hgt : ¬ (q = 0 ∨ q > (m.heap.orderNodes a).order.leavesQuantity) := fun h =>
    h.elim hq fun h => Nat.lt_irrefl _ (Nat.lt_of_le_of_lt (UInt64.le_iff_toNat_le.1 hle) h)
  obtain ⟨⟨m', e⟩, h⟩ := Option.isSome_iff_exists.1
    (hI.executeOrderNode_isSome hm.balanced ha (m.heap.orderNodes a).order.price q)
  obtain rfl : e = .errorOK := MarketManager.executeOrderNode_returnsOK _ _ _ _ _ h
  have hfill := UInt64.sub_eq_zero_iff_of_le hle
  refine ⟨m', a, ?_, ha, fun k j => ?_, ?_⟩
  · simp only [MarketManager.executeOrder, ha]
    rw [if_neg hgt]
    exact h
  · rw [hI.view_executeOrderNode ha h k j]
    simp only [hfill]
  · rw [hI.registry_executeOrderNode ha h]
    simp only [hfill]

theorem demo_executeOrder_fills :
    demo.registry 1 = some (newLimitOrder 1 1 orderSideBuy 10 5) ∧ (2 : UInt64) ≠ 0 ∧
    (2 : UInt64) ≤ (newLimitOrder 1 1 orderSideBuy 10 5).leavesQuantity ∧
    ∃ m' a, demo.executeOrder 1 2 = some (m', .errorOK) ∧ demo.orders 1 = some a ∧
      (∀ k j, m'.view k j = if (2 : UInt64) = (newLimitOrder 1 1 orderSideBuy 10 5).leavesQuantity
        then View.erase a (demo.view k j) else demo.view k j) ∧
      m'.registry = Function.update demo.registry 1
        (if (2 : UInt64) = (newLimitOrder 1 1 orderSideBuy 10 5).leavesQuantity then none else
          some { newLimitOrder 1 1 orderSideBuy 10 5 with
                 executedQuantity := (newLimitOrder 1 1 orderSideBuy 10 5).executedQuantity + 2,
                 leavesQuantity := (newLimitOrder 1 1 orderSideBuy 10 5).leavesQuantity - 2 }) :=
  have ho : demo.registry 1 = some (newLimitOrder 1 1 orderSideBuy 10 5) := rfl
  ⟨ho, by decide, by decide, Reachable.executeOrder_fills demo_reachable ho (by decide) (by decide)⟩

/-- With matching off, `AddOrder` of an order that passes `validateOrder`, with a fresh id and
an existing book, from any reachable state, returns `ErrorOK`. It registers the order under its
id in the next node, changes no other registry entry, keeps every resting order's place, and
puts the new node at the back of the level at its routing price: it is behind every order that
arrived before it at that price.
Source: `market_manager.go` `AddOrder`; `orderbook.go` `(*OrderBook).AddOrder`, `AddLevel`
Kind: P -/
theorem Reachable.addOrder_enqueues {m : MarketManager} (hm : Reachable m)
    (hoff : m.matching = false) {order : Order} (hv : validateOrder order = .errorOK)
    (hnew : m.orders order.id = none) (hbook : (m.orderBooks order.symbolID).isSome) :
    ∃ m', m.addOrder order = some (m', .errorOK) ∧ m'.orders order.id = some m.heap.next ∧
      m'.registry = Function.update m.registry order.id (some order) ∧
      (∀ k j, View.erase m.heap.next (m'.view k j) = m.view k j) ∧
      ∃ l, (routingPrice order, l ++ [m.heap.next]) ∈
        m'.view order.symbolID (LevelIndex.ofOrder order) := by
  have hI := hm.inv
  obtain ⟨⟨m', e⟩, h⟩ := Option.isSome_iff_exists.1 (hI.addOrder_isSome hm.balanced order)
  obtain ⟨mc, -, hmc, -, ho, hreg, hback, hlast, h₂⟩ := hI.addOrder_spec hv hnew hbook h
  obtain ⟨rfl, rfl⟩ := MarketManager.matchIfEnabled_of_off (hmc.trans hoff) h₂
  exact ⟨_, h, ho, hreg, hback, hlast⟩

theorem demo_addOrder_enqueues :
    demo.matching = false ∧ validateOrder (newLimitOrder 4 1 orderSideBuy 10 2) = .errorOK ∧
    demo.orders 4 = none ∧ (demo.orderBooks 1).isSome ∧
    ∃ m', demo.addOrder (newLimitOrder 4 1 orderSideBuy 10 2) = some (m', .errorOK) ∧
      m'.orders 4 = some demo.heap.next ∧
      m'.registry = Function.update demo.registry 4 (some (newLimitOrder 4 1 orderSideBuy 10 2)) ∧
      (∀ k j, View.erase demo.heap.next (m'.view k j) = demo.view k j) ∧
      ∃ l, (routingPrice (newLimitOrder 4 1 orderSideBuy 10 2), l ++ [demo.heap.next]) ∈
        m'.view 1 (LevelIndex.ofOrder (newLimitOrder 4 1 orderSideBuy 10 2)) :=
  ⟨rfl, rfl, rfl, rfl, Reachable.addOrder_enqueues demo_reachable rfl rfl rfl rfl⟩

/-- With matching off, `ModifyOrder` of a registered order to a non-zero quantity from any
reachable state returns `ErrorOK`. The registry holds the rewritten order (new `Price`,
`Quantity` and `LeavesQuantity`, `ExecutedQuantity` zero) and is otherwise unchanged. Every
other order keeps its place: taking the order off every tree gives the trees as they were
without it. The order itself ends the list of the level at its new routing price: it loses its
time priority, even when only its quantity went down.
Source: `market_manager.go` `ModifyOrder`; `orderbook.go` `(*OrderBook).DeleteOrder`,
`(*OrderBook).AddOrder`
Kind: P -/
theorem Reachable.modifyOrder_requeues {m : MarketManager} (hm : Reachable m)
    (hoff : m.matching = false) {id p q : UInt64} {o : Order} (ho : m.registry id = some o)
    (hq : q ≠ 0) :
    ∃ m' a, m.modifyOrder id p q = some (m', .errorOK) ∧ m.orders id = some a ∧
      m'.registry = Function.update m.registry id
        (some { o with price := p, quantity := q, leavesQuantity := q, executedQuantity := 0 }) ∧
      (∀ k j, View.erase a (m'.view k j) = View.erase a (m.view k j)) ∧
      ∃ l, (routingPrice
          { o with price := p, quantity := q, leavesQuantity := q, executedQuantity := 0 },
        l ++ [a]) ∈ m'.view o.symbolID (LevelIndex.ofOrder o) := by
  have hI := hm.inv
  obtain ⟨a, ha, rfl⟩ := Option.map_eq_some'.1 ho
  obtain ⟨⟨m', e⟩, h⟩ := Option.isSome_iff_exists.1 (hI.modifyOrder_isSome hm.balanced id p q)
  have h' := h
  unfold MarketManager.modifyOrder at h
  simp only [ha, if_neg hq, Option.bind_eq_bind] at h
  obtain ⟨rfl, hreg, herase, hlast⟩ := hI.reinsertCalls_requeues hoff ha
    (fun o => { o with price := p, quantity := q, leavesQuantity := q, executedQuantity := 0 })
    (fun _ => rfl) (fun _ => rfl) h
  exact ⟨_, a, h', ha, hreg, herase, hlast⟩

theorem demo_modifyOrder_requeues :
    demo.matching = false ∧ demo.registry 1 = some (newLimitOrder 1 1 orderSideBuy 10 5) ∧
    (4 : UInt64) ≠ 0 ∧
    ∃ m' a, demo.modifyOrder 1 10 4 = some (m', .errorOK) ∧ demo.orders 1 = some a ∧
      m'.registry = Function.update demo.registry 1 (some { newLimitOrder 1 1 orderSideBuy 10 5 with
        price := 10, quantity := 4, leavesQuantity := 4, executedQuantity := 0 }) ∧
      (∀ k j, View.erase a (m'.view k j) = View.erase a (demo.view k j)) ∧
      ∃ l, (routingPrice { newLimitOrder 1 1 orderSideBuy 10 5 with
          price := 10, quantity := 4, leavesQuantity := 4, executedQuantity := 0 }, l ++ [a]) ∈
        m'.view 1 (LevelIndex.ofOrder (newLimitOrder 1 1 orderSideBuy 10 5)) :=
  have ho : demo.registry 1 = some (newLimitOrder 1 1 orderSideBuy 10 5) := rfl
  ⟨rfl, ho, by decide, Reachable.modifyOrder_requeues demo_reachable rfl ho (by decide)⟩

/-- With matching off, `MitigateOrder` of a registered order to a quantity above what it has
already executed, from any reachable state, returns `ErrorOK`. The registry holds the order
with its new `Price` and `Quantity` and `LeavesQuantity` the new quantity less what was
executed, and is otherwise unchanged. Every other order keeps its place, and the order ends the
list of the level at its new routing price.
Source: `market_manager.go` `MitigateOrder`; `orderbook.go` `(*OrderBook).DeleteOrder`,
`(*OrderBook).AddOrder`
Kind: P -/
theorem Reachable.mitigateOrder_requeues {m : MarketManager} (hm : Reachable m)
    (hoff : m.matching = false) {id p q : UInt64} {o : Order} (ho : m.registry id = some o)
    (hq : o.executedQuantity < q) :
    ∃ m' a, m.mitigateOrder id p q = some (m', .errorOK) ∧ m.orders id = some a ∧
      m'.registry = Function.update m.registry id
        (some { o with price := p, quantity := q, leavesQuantity := q - o.executedQuantity }) ∧
      (∀ k j, View.erase a (m'.view k j) = View.erase a (m.view k j)) ∧
      ∃ l, (routingPrice { o with price := p, quantity := q, leavesQuantity := q - o.executedQuantity },
        l ++ [a]) ∈ m'.view o.symbolID (LevelIndex.ofOrder o) := by
  have hI := hm.inv
  obtain ⟨a, ha, rfl⟩ := Option.map_eq_some'.1 ho
  have hle : ¬ q ≤ (m.heap.orderNodes a).order.executedQuantity := fun h =>
    Nat.lt_irrefl _ (Nat.lt_of_lt_of_le hq (UInt64.le_iff_toNat_le.1 h))
  obtain ⟨⟨m', e⟩, h⟩ := Option.isSome_iff_exists.1 (hI.mitigateOrder_isSome hm.balanced id p q)
  have h' := h
  unfold MarketManager.mitigateOrder at h
  simp only [ha, if_neg hle, Option.bind_eq_bind] at h
  obtain ⟨rfl, hreg, herase, hlast⟩ := hI.reinsertCalls_requeues hoff ha
    (fun o => { o with price := p, quantity := q, leavesQuantity := q - o.executedQuantity })
    (fun _ => rfl) (fun _ => rfl) h
  exact ⟨_, a, h', ha, hreg, herase, hlast⟩

theorem demo_mitigateOrder_requeues :
    demo.matching = false ∧ demo.registry 1 = some (newLimitOrder 1 1 orderSideBuy 10 5) ∧
    (newLimitOrder 1 1 orderSideBuy 10 5).executedQuantity < 4 ∧
    ∃ m' a, demo.mitigateOrder 1 10 4 = some (m', .errorOK) ∧ demo.orders 1 = some a ∧
      m'.registry = Function.update demo.registry 1
        (some { newLimitOrder 1 1 orderSideBuy 10 5 with
                price := 10, quantity := 4,
                leavesQuantity := 4 - (newLimitOrder 1 1 orderSideBuy 10 5).executedQuantity }) ∧
      (∀ k j, View.erase a (m'.view k j) = View.erase a (demo.view k j)) ∧
      ∃ l, (routingPrice
          { newLimitOrder 1 1 orderSideBuy 10 5 with
            price := 10, quantity := 4,
            leavesQuantity := 4 - (newLimitOrder 1 1 orderSideBuy 10 5).executedQuantity },
        l ++ [a]) ∈ m'.view 1 (LevelIndex.ofOrder (newLimitOrder 1 1 orderSideBuy 10 5)) :=
  have ho : demo.registry 1 = some (newLimitOrder 1 1 orderSideBuy 10 5) := rfl
  ⟨rfl, ho, by decide, Reachable.mitigateOrder_requeues demo_reachable rfl ho (by decide)⟩

/-- With matching off, `ReplaceOrder` of a registered order by a fresh id and a non-zero
quantity, from any reachable state, returns `ErrorOK`. The old id leaves the registry and the
new id holds `replacement` of the old order, in a new node; the registry is otherwise
unchanged. Every other order keeps its place: the trees without the new node are the old trees
without the old one. The new node ends the list of the level at its routing price.
Source: `market_manager.go` `ReplaceOrder`; `orderbook.go` `(*OrderBook).DeleteOrder`,
`(*OrderBook).AddOrder`
Kind: P -/
theorem Reachable.replaceOrder_requeues {m : MarketManager} (hm : Reachable m)
    (hoff : m.matching = false) {id newID p q : UInt64} {o : Order} (ho : m.registry id = some o)
    (hq : q ≠ 0) (hnew : m.orders newID = none) :
    ∃ m' a b, m.replaceOrder id newID p q = some (m', .errorOK) ∧ m.orders id = some a ∧
      m'.orders newID = some b ∧
      m'.registry = Function.update (Function.update m.registry id none) newID
        (some (replacement o newID p q)) ∧
      (∀ k j, View.erase b (m'.view k j) = View.erase a (m.view k j)) ∧
      ∃ l, (routingPrice (replacement o newID p q), l ++ [b]) ∈
        m'.view o.symbolID (LevelIndex.ofOrder o) := by
  have hI := hm.inv
  obtain ⟨a, ha, rfl⟩ := Option.map_eq_some'.1 ho
  obtain ⟨⟨m', e⟩, h⟩ :=
    Option.isSome_iff_exists.1 (hI.replaceOrder_isSome hm.balanced id newID p q)
  obtain ⟨mc, b, -, hmc, hb, hreg, herase, hlast, h₄⟩ := hI.replaceOrder_spec ha hq hnew h
  obtain ⟨rfl, rfl⟩ := MarketManager.matchIfEnabled_of_off (hmc.trans hoff) h₄
  exact ⟨_, a, b, h, ha, hb, hreg, herase, hlast⟩

theorem demo_replaceOrder_requeues :
    demo.matching = false ∧ demo.registry 1 = some (newLimitOrder 1 1 orderSideBuy 10 5) ∧
    (4 : UInt64) ≠ 0 ∧ demo.orders 7 = none ∧
    ∃ m' a b, demo.replaceOrder 1 7 10 4 = some (m', .errorOK) ∧ demo.orders 1 = some a ∧
      m'.orders 7 = some b ∧
      m'.registry = Function.update (Function.update demo.registry 1 none) 7
        (some (replacement (newLimitOrder 1 1 orderSideBuy 10 5) 7 10 4)) ∧
      (∀ k j, View.erase b (m'.view k j) = View.erase a (demo.view k j)) ∧
      ∃ l, (routingPrice (replacement (newLimitOrder 1 1 orderSideBuy 10 5) 7 10 4), l ++ [b]) ∈
        m'.view 1 (LevelIndex.ofOrder (newLimitOrder 1 1 orderSideBuy 10 5)) :=
  have ho : demo.registry 1 = some (newLimitOrder 1 1 orderSideBuy 10 5) := rfl
  ⟨rfl, ho, by decide, rfl,
    Reachable.replaceOrder_requeues demo_reachable rfl ho (by decide) rfl⟩

end GoTrader.Matching
