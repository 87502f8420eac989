import GoTrader.Matching.Match

/-!
# What each operation does

One lemma per public operation, saying at once what it does to the registry, to the order
values and to the books' views, so that invariants over runs other than `Inv` are short case
analyses on the operation.

* `Shrinks m m'` — what every call that puts no order on a book does: the invariant holds
  after it, matching is as it was, the registry only loses entries, every book's levels only
  shrink (`ShrinksAt`), and the values of the orders left change only in the ways
  `ValueClosed` lists.
* `Inv.matchLoop_effect` — the matching loop `Shrinks` the state and stops with the book
  uncrossed.
* `Inv.addOrder_effect`, `modifyOrder_effect`, `mitigateOrder_effect`,
  `replaceOrder_effect` — each either `Shrinks` the state, or reaches a state `mc` where it
  has put one order on the book of `key` (`AddsAt`), and then runs `matchIfEnabled key`.
-/

namespace GoTrader.Matching

open MarketManager

/-- Every level of book `k` at `m'` was a level of the same tree at `m`, at the same price.
Source: none: a frame condition
Kind: D -/
def ShrinksAt (k : UInt32) (m m' : MarketManager) : Prop :=
  ∀ j e, e ∈ m'.view k j → ∃ l, (e.1, l) ∈ m.view k j

namespace ShrinksAt

variable {k : UInt32} {m m₁ m₂ : MarketManager}

theorem refl (k : UInt32) (m : MarketManager) : ShrinksAt k m m := fun _ e he => ⟨e.2, he⟩

theorem trans (h₁ : ShrinksAt k m m₁) (h₂ : ShrinksAt k m₁ m₂) : ShrinksAt k m m₂ :=
  fun j e he => by
    obtain ⟨l, hl⟩ := h₂ j e he
    exact h₁ j (e.1, l) hl

theorem of_view (h : ∀ j, m₁.view k j = m.view k j) : ShrinksAt k m m₁ :=
  fun j e he => ⟨e.2, h j ▸ he⟩

theorem of_erase {a : Nat} (h : ∀ j, m₁.view k j = View.erase a (m.view k j)) :
    ShrinksAt k m m₁ :=
  fun j _ he => View.price_mem_of_mem_erase (h j ▸ he)

theorem of_ite_erase {a : Nat} {c : Prop} [Decidable c]
    (h : ∀ j, m₁.view k j = if c then View.erase a (m.view k j) else m.view k j) :
    ShrinksAt k m m₁ := by
  split_ifs at h
  · exact of_erase h
  · exact of_view h

end ShrinksAt

/-- Every bid level of the book under `k` is priced strictly below every ask level.
Source: none: `spec.md` §3, "no crossed book"
Kind: D -/
def Uncrossed (k : UInt32) (m : MarketManager) : Prop :=
  ∀ e ∈ m.view k .bids, ∀ e' ∈ m.view k .asks, e.1 < e'.1

theorem Uncrossed.of_shrinksAt {k : UInt32} {m m' : MarketManager} (h : ShrinksAt k m m')
    (hu : Uncrossed k m) : Uncrossed k m' := fun e he e' he' => by
  obtain ⟨l, hl⟩ := h _ e he
  obtain ⟨l', hl'⟩ := h _ e' he'
  exact hu (e.1, l) hl (e'.1, l') hl'

/-! ## Order values -/

/-- Every registered order satisfies `P`. Source: none. Kind: D -/
def RegisteredSatisfy (P : Order → Prop) (m : MarketManager) : Prop :=
  ∀ id a, m.orders id = some a → P (m.heap.orderNodes a).order

/-- `P` survives every change a public call makes to the value of an order that stays
registered: a fill that leaves it resting (`executeOrder`), a partial `ReduceOrder`, and the
rewrites of `ModifyOrder`, `MitigateOrder` and `ReplaceOrder`, each under the check its call
makes first, `ReplaceOrder`'s for a new ID that `R` allows.
Source: `market_manager.go` `executeOrder`, `ReduceOrder`, `ModifyOrder`, `MitigateOrder`,
`ReplaceOrder`
Kind: D -/
structure ValueClosed (R : UInt64 → Prop) (P : Order → Prop) : Prop where
  fill : ∀ o x, P o → x.toNat ≤ o.leavesQuantity.toNat → x ≠ o.leavesQuantity →
    P { o with executedQuantity := o.executedQuantity + x,
               leavesQuantity := o.leavesQuantity - x }
  reduce : ∀ o x, P o → x ≠ 0 → x.toNat < o.leavesQuantity.toNat →
    P { o with leavesQuantity := o.leavesQuantity - x }
  modify : ∀ o p q, P o → q ≠ 0 →
    P { o with price := p, quantity := q, leavesQuantity := q, executedQuantity := 0 }
  mitigate : ∀ o p q, P o → o.executedQuantity.toNat < q.toNat →
    P { o with price := p, quantity := q, leavesQuantity := q - o.executedQuantity }
  replace : ∀ o id p q, R id → P o → q ≠ 0 → P (replacement o id p q)

namespace RegisteredSatisfy

variable {P : Order → Prop} {m m' : MarketManager}

theorem of_sub (hs : RegisteredSatisfy P m)
    (ho : ∀ {id a}, m'.orders id = some a → m.orders id = some a)
    (hv : ∀ c, (m'.heap.orderNodes c).order = (m.heap.orderNodes c).order) :
    RegisteredSatisfy P m' := fun _ _ hc => hv _ ▸ hs _ _ (ho hc)

theorem of_update (a : Nat) {o : Order} (hs : RegisteredSatisfy P m) (ho : m'.orders = m.orders)
    (hv : ∀ c, (m'.heap.orderNodes c).order =
      if c = a then o else (m.heap.orderNodes c).order) (hP : P o) :
    RegisteredSatisfy P m' := fun _ c hc => by
  rw [hv]
  split_ifs
  · exact hP
  · exact hs _ _ (ho ▸ hc)

end RegisteredSatisfy

/-! ## Frames of whole calls -/

/-- What a call that puts no order on a book does: the invariant holds after it, matching is as
it was, the registry only loses entries, the levels of every book only shrink, and every
property of the registered orders that `ValueClosed` keeps is kept.
Source: none: a frame condition
Kind: D -/
structure Shrinks (m m' : MarketManager) : Prop where
  inv : Inv m' none none
  matching : m'.matching = m.matching
  orders : ∀ {id a}, m'.orders id = some a → m.orders id = some a
  levels : ∀ k, ShrinksAt k m m'
  values : ∀ {R P}, ValueClosed R P → RegisteredSatisfy P m → RegisteredSatisfy P m'

namespace Shrinks

variable {m m₁ m₂ : MarketManager}

theorem refl (hI : Inv m none none) : Shrinks m m :=
  ⟨hI, rfl, id, fun k => .refl k m, fun _ hs => hs⟩

theorem trans (h₁ : Shrinks m m₁) (h₂ : Shrinks m₁ m₂) : Shrinks m m₂ :=
  ⟨h₂.inv, h₂.matching.trans h₁.matching, fun h => h₁.orders (h₂.orders h),
    fun k => (h₁.levels k).trans (h₂.levels k), fun hP hs => h₂.values hP (h₁.values hP hs)⟩

/-- A call that writes only the handler and the symbols. -/
theorem of_frame (hI : Inv m₁ none none) (hm : m₁.matching = m.matching)
    (ho : m₁.orders = m.orders) (hb : m₁.orderBooks = m.orderBooks) (hh : m₁.heap = m.heap) :
    Shrinks m m₁ :=
  ⟨hI, hm, fun h => ho ▸ h, fun _ => .of_view fun j => by
    simp only [view, levelIds, hb, hh], fun _ hs => (RegisteredSatisfy.of_sub hs
      (fun h => ho ▸ h) fun c => by rw [hh])⟩

end Shrinks

/-- What a call that puts one order on the book under `key` has done before its
`matchIfEnabled key`: the invariant holds, matching is as it was, and the other books' levels
are as before or shrunk.
Source: none: a frame condition
Kind: D -/
structure AddsAt (key : UInt32) (m mc : MarketManager) : Prop where
  inv : Inv mc none none
  matching : mc.matching = m.matching
  levels : ∀ k, k ≠ key → ShrinksAt k m mc

theorem orders_of_update_none {o : UInt64 → Option Nat} {id id' : UInt64} {a : Nat}
    (h : Function.update o id none id' = some a) : o id' = some a := by
  rw [Function.update_apply] at h
  split_ifs at h
  exact h

/-! ## Frames of the book calls -/

/-- `bookAddOrder` writes no registry entry and no order value.
Source: `orderbook.go` `(*OrderBook).AddOrder`
Kind: L -/
theorem MarketManager.bookAddOrder_frame {m m' : MarketManager} {key : UInt32} {a : Nat}
    (h : m.bookAddOrder key a = some m') :
    m'.orders = m.orders ∧ m'.matching = m.matching ∧
      ∀ c, (m'.heap.orderNodes c).order = (m.heap.orderNodes c).order := by
  obtain ⟨ob, -, h⟩ := Option.bind_eq_some.1 h
  obtain ⟨⟨ob', h'⟩, ha, h⟩ := Option.bind_eq_some.1 h
  cases h
  obtain ⟨h₁, L, rfl, ⟨-, -, rfl⟩ | ⟨-, hadd⟩⟩ := OrderBook.addOrder_spec ha
  · exact ⟨rfl, rfl, fun c => by simp⟩
  · obtain ⟨-, rfl, -⟩ := OrderBook.addLevel_spec hadd
    exact ⟨rfl, rfl, fun c => by simp⟩

/-- `bookDeleteOrder` writes no registry entry and leaves matching alone.
Source: `orderbook.go` `(*OrderBook).DeleteOrder`
Kind: L -/
theorem MarketManager.bookDeleteOrder_frame {m m' : MarketManager} {key : UInt32} {a : Nat}
    (h : m.bookDeleteOrder key a = some m') : m'.orders = m.orders ∧ m'.matching = m.matching := by
  obtain ⟨ob, -, h⟩ := Option.bind_eq_some.1 h
  obtain ⟨_, -, h⟩ := Option.bind_eq_some.1 h
  cases h
  exact ⟨rfl, rfl⟩

/-- `executeOrder` (unexported) leaves matching alone.
Source: `market_manager.go` `executeOrder`
Kind: L -/
theorem MarketManager.executeOrderNode_matching {m m' : MarketManager} {a : Nat}
    {p q : UInt64} {e : ErrorCode} (h : m.executeOrderNode a p q = some (m', e)) :
    m'.matching = m.matching := by
  unfold MarketManager.executeOrderNode at h
  dsimp only at h
  obtain ⟨heap, -, h⟩ := Option.bind_eq_some.1 h
  split at h
  · obtain ⟨m₃, h₃, h⟩ := Option.bind_eq_some.1 h
    obtain ⟨m₄, h₄, h⟩ := Option.bind_eq_some.1 h
    cases h
    obtain ⟨cs, rfl⟩ := MarketManager.updateLevel_eq h₃
    exact (MarketManager.bookDeleteOrder_frame h₄).2
  · obtain ⟨m₃, h₃, h⟩ := Option.bind_eq_some.1 h
    cases h
    obtain ⟨cs, rfl⟩ := MarketManager.updateLevel_eq h₃
    rfl

namespace Inv

variable {m m' : MarketManager} {e : ErrorCode}

/-! ## Taking orders off the book -/

/-- `DeleteOrder`: the order leaves its level and the registry; nothing else changes.
Source: `market_manager.go` `DeleteOrder`
Kind: L -/
theorem deleteOrder_effect {id : UInt64} (hI : Inv m none none)
    (h : m.deleteOrder id = some (m', e)) :
    Inv m' none none ∧ m'.matching = m.matching ∧ m'.orders = Function.update m.orders id none ∧
      (∀ c, (m'.heap.orderNodes c).order = (m.heap.orderNodes c).order) ∧
      ∀ k, ShrinksAt k m m' := by
  obtain ⟨hI', ho, hv⟩ := hI.deleteOrder h
  have hs : ∀ k, ShrinksAt k m m' := fun k => by
    rcases hr : m.orders id with _ | a
    · unfold MarketManager.deleteOrder at h
      rw [hr] at h
      cases h
      exact .refl k m
    · exact .of_erase (hI.view_deleteOrder hr h k)
  refine ⟨hI', ?_, ho, hv, hs⟩
  unfold MarketManager.deleteOrder at h
  split at h
  · cases h; rfl
  · obtain ⟨m₁, h₁, h⟩ := Option.bind_eq_some.1 h
    obtain ⟨m₂, h₂, h⟩ := Option.bind_eq_some.1 h
    cases h
    obtain ⟨cs, rfl⟩ := MarketManager.updateLevel_eq h₁
    exact (MarketManager.bookDeleteOrder_frame h₂).2

/-- A fill: the order's quantities change, it leaves the book and the registry if filled.
Source: `market_manager.go` `executeOrder`
Kind: L -/
theorem executeOrderNode_effect {id p q : UInt64} {a : Nat} (hI : Inv m none none)
    (hr : m.orders id = some a) (h : m.executeOrderNode a p q = some (m', e)) :
    Inv m' none none ∧ m'.matching = m.matching ∧
      m'.orders = (if (m.heap.orderNodes a).order.leavesQuantity - q = 0
        then Function.update m.orders id none else m.orders) ∧
      (∀ c, (m'.heap.orderNodes c).order = if c = a then { (m.heap.orderNodes a).order with
          executedQuantity := (m.heap.orderNodes a).order.executedQuantity + q
          leavesQuantity := (m.heap.orderNodes a).order.leavesQuantity - q }
        else (m.heap.orderNodes c).order) ∧
      ∀ k, ShrinksAt k m m' :=
  have ⟨hI', ho, hv⟩ := hI.executeOrderNode hr h
  ⟨hI', MarketManager.executeOrderNode_matching h, ho, hv,
    fun k => .of_ite_erase (hI.view_executeOrderNode hr h k)⟩

theorem deleteOrder_shrinks {id : UInt64} (hI : Inv m none none)
    (h : m.deleteOrder id = some (m', e)) : Shrinks m m' :=
  have ⟨hI', hm, ho, hv, hs⟩ := hI.deleteOrder_effect h
  have ho' : ∀ {id' a}, m'.orders id' = some a → m.orders id' = some a :=
    fun h => orders_of_update_none (ho ▸ h)
  ⟨hI', hm, ho', hs, fun _ hsat => hsat.of_sub ho' hv⟩

/-- A fill of at most the leaves quantity keeps every `ValueClosed` property of the registered
orders.
Source: `market_manager.go` `executeOrder`
Kind: L -/
theorem executeOrderNode_satisfy {id p q : UInt64} {a : Nat} {R : UInt64 → Prop}
    {P : Order → Prop} (hI : Inv m none none) (hr : m.orders id = some a)
    (hq : q.toNat ≤ (m.heap.orderNodes a).order.leavesQuantity.toNat)
    (h : m.executeOrderNode a p q = some (m', e)) (hP : ValueClosed R P)
    (hs : RegisteredSatisfy P m) : RegisteredSatisfy P m' := by
  obtain ⟨-, -, ho, hv, -⟩ := hI.executeOrderNode_effect hr h
  intro id' c hc
  have hid : ∀ {id'}, m.orders id' = some a → id' = id := fun h' =>
    (hI.registered h').id.symm.trans (hI.registered hr).id
  have hc' : m.orders id' = some c ∧
      (c = a → (m.heap.orderNodes a).order.leavesQuantity - q ≠ 0) := by
    split_ifs at ho with hfill
    · rw [ho] at hc
      have he : id' ≠ id := by rintro rfl; simp at hc
      rw [Function.update_noteq he] at hc
      exact ⟨hc, fun e => absurd (hid (e ▸ hc)) he⟩
    · exact ⟨ho ▸ hc, fun _ => hfill⟩
  rw [hv]
  split_ifs with hca
  · subst hca
    exact hP.fill _ _ (hs _ _ hc'.1) hq fun e => hc'.2 rfl (by rw [e]; exact sub_self _)
  · exact hs _ _ hc'.1

theorem executeOrderNode_shrinks {id p q : UInt64} {a : Nat} (hI : Inv m none none)
    (hr : m.orders id = some a) (hq : q.toNat ≤ (m.heap.orderNodes a).order.leavesQuantity.toNat)
    (h : m.executeOrderNode a p q = some (m', e)) : Shrinks m m' := by
  obtain ⟨hI', hm, ho, -, hs⟩ := hI.executeOrderNode_effect hr h
  refine ⟨hI', hm, fun h => ?_, hs, fun hP hsat => hI.executeOrderNode_satisfy hr hq h hP hsat⟩
  split_ifs at ho
  · exact orders_of_update_none (ho ▸ h)
  · exact ho ▸ h

/-- With the invariant, the loop's test stops only with the book uncrossed: its missing-front
exit is never taken.
Source: `market_manager.go` `match`
Kind: L -/
theorem uncrossed_of_matchPair_none {key : UInt32} {ob : OrderBook} (hI : Inv m none none)
    (hob : m.orderBooks key = some ob) (h : m.matchPair ob = none) : Uncrossed key m := by
  intro e he e' he'
  obtain ⟨L, hL, rfl⟩ := List.mem_map.1 he
  obtain ⟨L', hL', rfl⟩ := List.mem_map.1 he'
  have hb := hI.best .bids hob
  have ha := hI.best .asks hob
  rw [OrderBook.best_bids] at hb
  rw [OrderBook.best_asks] at ha
  rcases hbb : (m.levelIds key .bids).head? with _ | bb
  · rw [List.head?_eq_none_iff] at hbb; rw [hbb] at hL; cases hL
  rcases hba : (m.levelIds key .asks).head? with _ | ba
  · rw [List.head?_eq_none_iff] at hba; rw [hba] at hL'; cases hL'
  rw [hbb] at hb
  rw [hba] at ha
  have hle : (m.heap.price L).toNat ≤ (m.heap.price bb).toNat := by
    by_cases e : L = bb
    · rw [e]
    · have := AVLTree.precedes_iff.1 (hI.head_precedes hbb hL e)
      simp only [LevelIndex.descending, if_true] at this
      omega
  have hge : (m.heap.price ba).toNat ≤ (m.heap.price L').toNat := by
    by_cases e : L' = ba
    · rw [e]
    · have := AVLTree.precedes_iff.1 (hI.head_precedes hba hL' e)
      simp only [LevelIndex.descending, Bool.false_eq_true, if_false] at this
      omega
  suffices (m.heap.price bb).toNat < (m.heap.price ba).toNat by
    show (m.heap.price L).toNat < (m.heap.price L').toNat
    omega
  unfold MarketManager.matchPair at h
  rw [hb, ha] at h
  dsimp only at h
  split_ifs at h with hlt
  · exact hlt
  · have hbL := List.mem_of_mem_head? hbb
    have haL := List.mem_of_mem_head? hba
    obtain ⟨c, hc⟩ := List.exists_cons_of_ne_nil (hI.nonempty hbL nofun)
    obtain ⟨d, hd⟩ := List.exists_cons_of_ne_nil (hI.nonempty haL nofun)
    obtain ⟨_, hc⟩ := hc
    obtain ⟨_, hd⟩ := hd
    simp only [Heap.nodes] at hc hd
    simp [OrderList.front, hc, hd] at h

/-- The matching loop only takes orders off the books, by fills, and stops with the book
uncrossed.
Source: `market_manager.go` `match`
Kind: L -/
theorem matchLoop_effect (key : UInt32) :
    ∀ (fuel : Nat) {m m' : MarketManager}, Inv m none none →
      MarketManager.matchLoop key fuel m = some m' → Shrinks m m' ∧ Uncrossed key m'
  | 0, _, _, _, h => by cases h
  | fuel + 1, m, m', hI, h => by
    unfold MarketManager.matchLoop at h
    obtain ⟨ob, hob, h⟩ := Option.bind_eq_some.1 h
    split at h
    · rename_i hp
      cases h
      exact ⟨.refl hI, hI.uncrossed_of_matchPair_none hob hp⟩
    · rename_i b a p q hp
      obtain ⟨⟨m₁, e₁⟩, h₁, h⟩ := Option.bind_eq_some.1 h
      obtain ⟨⟨m₂, e₂⟩, h₂, h⟩ := Option.bind_eq_some.1 h
      obtain ⟨-, -, -, -, -, -, -, -, hq⟩ := MarketManager.matchPair_eq_some hp
      obtain ⟨_, _, -, -, lb, -, -, -⟩ := hI.matchPair_linked hob hp
      obtain ⟨-, hr₁, hv₁⟩ := hI.matchIter_registered hob hp h₁
      have hqb : q.toNat ≤ (m.heap.orderNodes b).order.leavesQuantity.toNat := by
        rw [hq]; split_ifs with hlt
        · exact Nat.le_of_lt hlt
        · exact le_rfl
      have hqa : q.toNat ≤ (m₁.heap.orderNodes a).order.leavesQuantity.toNat := by
        rw [hv₁, hq]; split_ifs with hlt
        · exact le_rfl
        · exact Nat.le_of_not_lt hlt
      have hs₁ := hI.executeOrderNode_shrinks lb.registered hqb h₁
      have hs₂ := hs₁.inv.executeOrderNode_shrinks hr₁ hqa h₂
      obtain ⟨hs, hu⟩ := matchLoop_effect key fuel hs₂.inv h
      exact ⟨hs₁.trans (hs₂.trans hs), hu⟩

/-- `matchIfEnabled`: the loop's effect when matching is on, nothing otherwise.
Source: `market_manager.go` (`if m.matching { m.match(ob) }`)
Kind: L -/
theorem matchIfEnabled_effect {key : UInt32} (hI : Inv m none none)
    (h : m.matchIfEnabled key = some (m', e)) :
    Shrinks m m' ∧ (m.matching = true → Uncrossed key m') := by
  unfold MarketManager.matchIfEnabled at h
  split_ifs at h with hm
  · obtain ⟨m₁, h₁, h⟩ := Option.map_eq_some'.1 h
    cases h
    obtain ⟨hs, hu⟩ := hI.matchLoop_effect key _ h₁
    exact ⟨hs, fun _ => hu⟩
  · cases h
    exact ⟨.refl hI, fun h => absurd h hm⟩

/-! ## Calls that put no order on a book -/

theorem matchSymbol_shrinks {k : UInt32} (hI : Inv m none none)
    (h : m.matchSymbol k = some (m', e)) : Shrinks m m' := by
  unfold MarketManager.matchSymbol at h
  split at h
  · cases h; exact .refl hI
  · obtain ⟨m₁, h₁, h⟩ := Option.map_eq_some'.1 h
    cases h
    exact (hI.matchLoop_effect k _ h₁).1

theorem reduceOrder_shrinks {id q : UInt64} (hI : Inv m none none)
    (h : m.reduceOrder id q = some (m', e)) : Shrinks m m' := by
  have hI' := hI.reduceOrder h
  unfold MarketManager.reduceOrder at h
  split at h
  · cases h; exact .refl hI
  · rename_i a ha
    dsimp only at h
    split_ifs at h with hq hge
    · cases h; exact .refl hI
    · exact hI.deleteOrder_shrinks h
    · obtain ⟨heap, hred, h₁⟩ := Option.bind_eq_some.1 h
      obtain ⟨m₃, hu, h₂⟩ := Option.bind_eq_some.1 h₁
      cases h₂
      obtain ⟨cs, rfl⟩ := MarketManager.updateLevel_eq hu
      obtain ⟨L, -, rfl⟩ := OrderBook.reduceOrder_spec hred
      refine ⟨hI', rfl, fun h => h, fun k => .of_view fun j => ?_, fun hP hs => hs.of_update a rfl
        (fun c => ?_) (hP.reduce _ _ (hs _ _ ha) hq ?_)⟩
      · simp only [view, levelIds, MarketManager.setOrder, MarketManager.call,
          Heap.price_reduceLevel, Heap.nodes_reduceLevel, Heap.price_setOrderNode,
          Heap.nodes_setOrderNode]
      · simp only [MarketManager.setOrder, MarketManager.call, Heap.reduceLevel_orderNodes,
          Heap.setOrderNode_orderNodes, Function.update_apply]
        split_ifs <;> rfl
      · exact Nat.lt_of_not_le fun h' => hge (UInt64.le_iff_toNat_le.2 h')

theorem executeOrder_shrinks {id q : UInt64} (hI : Inv m none none)
    (h : m.executeOrder id q = some (m', e)) : Shrinks m m' := by
  unfold MarketManager.executeOrder at h
  split at h
  · cases h; exact .refl hI
  · rename_i a ha
    dsimp only at h
    split_ifs at h with hg
    · cases h; exact .refl hI
    · exact hI.executeOrderNode_shrinks ha
        (Nat.le_of_not_lt fun h' => hg (.inr (UInt64.lt_iff_toNat_lt.2 h'))) h

theorem executeOrderWithPrice_shrinks {id p q : UInt64} (hI : Inv m none none)
    (h : m.executeOrderWithPrice id p q = some (m', e)) : Shrinks m m' := by
  unfold MarketManager.executeOrderWithPrice at h
  split at h
  · cases h; exact .refl hI
  · rename_i a ha
    dsimp only at h
    split_ifs at h with hg
    · cases h; exact .refl hI
    · exact hI.executeOrderNode_shrinks ha
        (Nat.le_of_not_lt fun h' => hg (.inr (UInt64.lt_iff_toNat_lt.2 h'))) h

theorem deleteOrders_shrinks : ∀ (l : List Nat) {m mf : MarketManager}, Inv m none none →
    l.foldlM (fun m a => (m.deleteOrder (m.heap.orderNodes a).order.id).map Prod.fst) m =
      some mf → Shrinks m mf
  | [], m, mf, hI, h => by cases h; exact .refl hI
  | a :: l, m, mf, hI, h => by
    rw [List.foldlM_cons] at h
    obtain ⟨m₁, h₁, h⟩ := Option.bind_eq_some.1 h
    obtain ⟨⟨m₁, e⟩, hd, rfl⟩ := Option.map_eq_some'.1 h₁
    have hs := hI.deleteOrder_shrinks hd
    exact hs.trans (deleteOrders_shrinks l hs.inv h)

theorem shrinksAt_removeBook (m : MarketManager) (id k : UInt32) :
    ShrinksAt k m { m with orderBooks := Function.update m.orderBooks id none } :=
  fun j e he => by
    simp only [view, levelIds_update] at he
    split_ifs at he
    · simp at he
    · exact ⟨e.2, he⟩

theorem deleteOrderBook_shrinks {id : UInt32} {enum : List UInt64} (hI : Inv m none none)
    (henum : IsEnum enum m.orders) (h : m.deleteOrderBook id enum = some (m', e)) :
    Shrinks m m' := by
  have hI' := hI.deleteOrderBook henum h
  unfold MarketManager.deleteOrderBook at h
  split at h
  · cases h; exact .refl hI
  · obtain ⟨mf, hf, h⟩ := Option.bind_eq_some.1 h
    cases h
    exact (deleteOrders_shrinks _ hI hf).trans
      ⟨hI', rfl, fun h => h, fun k => shrinksAt_removeBook mf id k, fun _ hs => hs⟩

theorem deleteSymbol_shrinks {id : UInt32} {enum : List UInt64} (hI : Inv m none none)
    (henum : IsEnum enum m.orders) (h : m.deleteSymbol id enum = some (m', e)) :
    Shrinks m m' := by
  have hI' := hI.deleteSymbol henum h
  unfold MarketManager.deleteSymbol at h
  split at h
  · cases h; exact .refl hI
  · dsimp only at h
    split_ifs at h
    · obtain ⟨m₁, h₁, h⟩ := Option.bind_eq_some.1 h
      obtain ⟨⟨m₂, e₂⟩, h₂, rfl⟩ := Option.map_eq_some'.1 h₁
      cases h
      exact (hI.deleteOrderBook_shrinks henum h₂).trans (.of_frame hI' rfl rfl rfl rfl)
    · cases h
      exact .of_frame hI' rfl rfl rfl rfl

theorem addSymbol_shrinks {s : Symbol} (hI : Inv m none none) : Shrinks m (m.addSymbol s).1 := by
  have hI' : Inv (m.addSymbol s).1 none none := hI.addSymbol
  unfold MarketManager.addSymbol at hI' ⊢
  split_ifs at hI' ⊢
  · exact .refl hI
  · exact .of_frame hI' rfl rfl rfl rfl

theorem addOrderBook_shrinks {s : Symbol} (hI : Inv m none none) :
    Shrinks m (m.addOrderBook s).1 := by
  have hI' : Inv (m.addOrderBook s).1 none none := hI.addOrderBook
  unfold MarketManager.addOrderBook at hI' ⊢
  split_ifs at hI' ⊢ with h
  · exact .refl hI
  · refine ⟨hI', rfl, id, fun k => .of_view fun j => ?_, fun _ hs => hs⟩
    simp only [view, levelIds_call, levelIds_addBook (Option.not_isSome_iff_eq_none.1 h)]
    rfl

/-! ## Calls that put an order on a book -/

/-- `AddOrder`: it returns at a check with nothing changed, or it registers the order, puts it
on its book and runs `matchIfEnabled`.
Source: `market_manager.go` `AddOrder`
Kind: L -/
theorem addOrder_effect {order : Order} (hI : Inv m none none)
    (h : m.addOrder order = some (m', e)) :
    m' = m ∨ ∃ mc, validateOrder order = .errorOK ∧ AddsAt order.symbolID m mc ∧
      (∀ {P : Order → Prop}, P order → RegisteredSatisfy P m → RegisteredSatisfy P mc) ∧
      mc.matchIfEnabled order.symbolID = some (m', e) := by
  unfold MarketManager.addOrder at h
  split_ifs at h with h₁ h₂ h₃
  · cases h; exact .inl rfl
  · cases h; exact .inl rfl
  · cases h; exact .inl rfl
  · obtain ⟨m₁, hb, h₄⟩ := Option.bind_eq_some.1 h
    obtain ⟨m₂, hu, h₅⟩ := Option.bind_eq_some.1 h₄
    have hI₀ := hI.register (Option.not_isSome_iff_eq_none.1 h₂)
    have hI₁ := hI₀.bookAddOrder
      (by dsimp only; rw [Heap.allocOrder_orderNodes, Function.update_same, Function.update_same])
      (by dsimp only; rw [Heap.allocOrder_orderNodes, Function.update_same]) hb
    obtain ⟨ho₁, hm₁, hv₁⟩ := MarketManager.bookAddOrder_frame hb
    have hI₂ := (hI₁.call _).updateLevel hu
    obtain ⟨cs, rfl⟩ := MarketManager.updateLevel_eq hu
    refine .inr ⟨_, not_not.1 h₁, ⟨hI₂, hm₁, fun k hk => .of_view fun j =>
      hI₀.view_bookAddOrder_of_ne hb fun hkj => hk hkj.1⟩, fun {P} hP hs id' c hc => ?_, h₅⟩
    have hc' : Function.update m.orders order.id (some m.heap.next) id' = some c :=
      (congrFun ho₁ id').symm.trans hc
    show P (m₁.heap.orderNodes c).order
    rw [hv₁]
    show P (Function.update m.heap.orderNodes m.heap.next ⟨order, none, 0⟩ c).order
    by_cases hid : id' = order.id
    · subst hid
      rw [Function.update_same] at hc'
      cases hc'
      rw [Function.update_same]
      exact hP
    · rw [Function.update_noteq hid] at hc'
      rw [Function.update_noteq (Nat.ne_of_lt (hI.registered hc').lt)]
      exact hs _ _ hc'

/-- The common core of `ModifyOrder` and `MitigateOrder` (see `Inv.reinsert`): the order is back
on its book with its new value, the other books only lost it, the registry is as it was.
Source: `market_manager.go` `ModifyOrder`, `MitigateOrder`
Kind: L -/
theorem reinsert_effect {id : UInt64} {a : Nat} {m₁ m₂ : MarketManager} {o : Order}
    (hI : Inv m none none) (ha : m.orders id = some a)
    (hd : m.bookDeleteOrder (m.heap.orderNodes a).order.symbolID a = some m₁)
    (hid : o.id = (m.heap.orderNodes a).order.id)
    (hsym : o.symbolID = (m.heap.orderNodes a).order.symbolID)
    (hb : (m₁.setOrder a o).bookAddOrder (m.heap.orderNodes a).order.symbolID a = some m₂) :
    AddsAt (m.heap.orderNodes a).order.symbolID m m₂ ∧ m₂.orders = m.orders ∧
      ∀ c, (m₂.heap.orderNodes c).order = if c = a then o else (m.heap.orderNodes c).order := by
  obtain ⟨hI₁, ho₁, hv₁⟩ := hI.bookDeleteOrder ha rfl hd
  have hr : m₁.orders (m.heap.orderNodes a).order.id = some a := by
    rw [ho₁, (hI.registered ha).id]; exact ha
  have hI₂ : Inv (m₁.setOrder a o) (some a) none :=
    hI₁.setOrder (by rw [hv₁]; exact hr) (by rw [hv₁]; exact hid)
  obtain ⟨ho₂, hm₂, hv₂⟩ := MarketManager.bookAddOrder_frame hb
  refine ⟨⟨hI.reinsert ha hd hid hsym hb, hm₂.trans (MarketManager.bookDeleteOrder_frame hd).2,
    fun k hk => .of_erase fun j => show m₂.view k j = View.erase a (m.view k j) by
      rw [hI₂.view_bookAddOrder_of_ne hb fun hkj => hk hkj.1]
      exact hI.view_bookDeleteOrder ha rfl hd k j⟩, ho₂.trans ho₁, fun c => ?_⟩
  · rw [hv₂]
    by_cases hc : c = a
    · subst hc; simp [MarketManager.setOrder]
    · simp [MarketManager.setOrder, hc, hv₁]

/-- `ModifyOrder`: it returns at a check with nothing changed, or it puts the rewritten order
back on its book and runs `matchIfEnabled`.
Source: `market_manager.go` `ModifyOrder`
Kind: L -/
theorem modifyOrder_effect {id p q : UInt64} (hI : Inv m none none)
    (h : m.modifyOrder id p q = some (m', e)) :
    Shrinks m m' ∨ ∃ key mc, (m.orders id).isSome ∧ AddsAt key m mc ∧
      (∀ {R P}, ValueClosed R P → RegisteredSatisfy P m → RegisteredSatisfy P mc) ∧
      mc.matchIfEnabled key = some (m', e) := by
  unfold MarketManager.modifyOrder at h
  split at h
  · cases h; exact .inl (.refl hI)
  · rename_i a ha
    split_ifs at h with hq
    · cases h; exact .inl (.refl hI)
    · obtain ⟨m₁, hu₁, h₁⟩ := Option.bind_eq_some.1 h
      have hI₁ := hI.updateLevel hu₁
      obtain ⟨cs, rfl⟩ := MarketManager.updateLevel_eq hu₁
      obtain ⟨m₂, hd, h₂⟩ := Option.bind_eq_some.1 h₁
      obtain ⟨m₃, hb, h₃⟩ := Option.bind_eq_some.1 h₂
      obtain ⟨m₄, hu₄, h₄⟩ := Option.bind_eq_some.1 h₃
      have hv := (hI₁.bookDeleteOrder ha rfl hd).2.2 a
      obtain ⟨hA, ho, hv'⟩ := hI₁.reinsert_effect ha hd (by rw [hv]) (by rw [hv]) hb
      have hI₄ := (hA.inv.call _).updateLevel hu₄
      obtain ⟨cs₄, rfl⟩ := MarketManager.updateLevel_eq hu₄
      exact .inr ⟨_, _, by simp [ha], ⟨hI₄, hA.matching, hA.levels⟩, fun hP hs => hs.of_update a ho hv'
        (by rw [hv]; exact hP.modify _ _ _ (hs _ _ ha) hq), h₄⟩

/-- `MitigateOrder`: it returns at a check, or cancels the order, or puts the rewritten order
back on its book and runs `matchIfEnabled`.
Source: `market_manager.go` `MitigateOrder`
Kind: L -/
theorem mitigateOrder_effect {id p q : UInt64} (hI : Inv m none none)
    (h : m.mitigateOrder id p q = some (m', e)) :
    Shrinks m m' ∨ ∃ key mc, (m.orders id).isSome ∧ AddsAt key m mc ∧
      (∀ {R P}, ValueClosed R P → RegisteredSatisfy P m → RegisteredSatisfy P mc) ∧
      mc.matchIfEnabled key = some (m', e) := by
  unfold MarketManager.mitigateOrder at h
  split at h
  · cases h; exact .inl (.refl hI)
  · rename_i a ha
    split_ifs at h with hq
    · exact .inl (hI.deleteOrder_shrinks h)
    · obtain ⟨m₁, hu₁, h₁⟩ := Option.bind_eq_some.1 h
      have hI₁ := hI.updateLevel hu₁
      obtain ⟨cs, rfl⟩ := MarketManager.updateLevel_eq hu₁
      obtain ⟨m₂, hd, h₂⟩ := Option.bind_eq_some.1 h₁
      obtain ⟨m₃, hb, h₃⟩ := Option.bind_eq_some.1 h₂
      obtain ⟨m₄, hu₄, h₄⟩ := Option.bind_eq_some.1 h₃
      have hv := (hI₁.bookDeleteOrder ha rfl hd).2.2 a
      obtain ⟨hA, ho, hv'⟩ := hI₁.reinsert_effect ha hd (by rw [hv]) (by rw [hv]) hb
      have hI₄ := (hA.inv.call _).updateLevel hu₄
      obtain ⟨cs₄, rfl⟩ := MarketManager.updateLevel_eq hu₄
      have hlt := Nat.lt_of_not_le fun h' => hq (UInt64.le_iff_toNat_le.2 h')
      exact .inr ⟨_, _, by simp [ha], ⟨hI₄, hA.matching, hA.levels⟩, fun hP hs => hs.of_update a ho hv'
        (by rw [hv]; exact hP.mitigate _ _ _ (hs _ _ ha) hlt), h₄⟩

/-- `ReplaceOrder`: it returns at a check with nothing changed, or it takes the old order off,
registers its replacement, puts it on the same book and runs `matchIfEnabled`.
Source: `market_manager.go` `ReplaceOrder`
Kind: L -/
theorem replaceOrder_effect {id newID p q : UInt64} (hI : Inv m none none)
    (h : m.replaceOrder id newID p q = some (m', e)) :
    Shrinks m m' ∨ ∃ key mc, (m.orders id).isSome ∧ AddsAt key m mc ∧
      (∀ {R P}, ValueClosed R P → R newID → RegisteredSatisfy P m → RegisteredSatisfy P mc) ∧
      mc.matchIfEnabled key = some (m', e) := by
  unfold MarketManager.replaceOrder at h
  split at h
  · cases h; exact .inl (.refl hI)
  · rename_i a ha
    split_ifs at h with h₁ h₂
    · cases h; exact .inl (.refl hI)
    · cases h; exact .inl (.refl hI)
    · obtain ⟨m₁, hu₁, h₃⟩ := Option.bind_eq_some.1 h
      have hI₁ := hI.updateLevel hu₁
      obtain ⟨cs, rfl⟩ := MarketManager.updateLevel_eq hu₁
      obtain ⟨m₂, hd, h₄⟩ := Option.bind_eq_some.1 h₃
      obtain ⟨m₃, hb, h₅⟩ := Option.bind_eq_some.1 h₄
      obtain ⟨m₄, hu₄, h₆⟩ := Option.bind_eq_some.1 h₅
      obtain ⟨hI₂, ho₂, hv₂⟩ := hI₁.bookDeleteOrder ha rfl hd
      have hI₃ := (hI₂.unregister (ho₂ ▸ ha)).call (.onDeleteOrder (m₂.heap.orderNodes a).order)
      have hnew : Function.update m₂.orders id none
          (MarketManager.replacement (m₂.heap.orderNodes a).order newID p q).id = none := by
        rw [Function.update_apply, ho₂]
        split_ifs
        · rfl
        · exact Option.not_isSome_iff_eq_none.1 h₂
      have hI₅ := hI₃.register hnew
      have hI₆ := hI₅.bookAddOrder
        (by dsimp only; rw [Heap.allocOrder_orderNodes, Function.update_same, Function.update_same])
        (by dsimp only; rw [Heap.allocOrder_orderNodes, Function.update_same]
            show (m₂.heap.orderNodes a).order.symbolID = _
            exact congrArg Order.symbolID (hv₂ a)) hb
      obtain ⟨ho₃, hm₃, hv₃⟩ := MarketManager.bookAddOrder_frame hb
      have hI₄ := (hI₆.call _).updateLevel hu₄
      obtain ⟨cs₄, rfl⟩ := MarketManager.updateLevel_eq hu₄
      refine .inr ⟨_, _, by simp [ha], ⟨hI₄, hm₃.trans (MarketManager.bookDeleteOrder_frame hd).2,
        fun k hk => .of_erase fun j => show m₃.view k j = View.erase a (m.view k j) by
          rw [hI₅.view_bookAddOrder_of_ne hb fun hkj => hk hkj.1]
          exact hI₁.view_bookDeleteOrder ha rfl hd k j⟩, fun {R P} hP hR hs id' c hc => ?_, h₆⟩
      have hc' : Function.update (Function.update m₂.orders id none) newID
          (some m₂.heap.next) id' = some c := (congrFun ho₃ id').symm.trans hc
      show P (m₃.heap.orderNodes c).order
      rw [hv₃]
      show P (Function.update m₂.heap.orderNodes m₂.heap.next ⟨MarketManager.replacement
        (m₂.heap.orderNodes a).order newID p q, none, 0⟩ c).order
      by_cases hid : id' = newID
      · subst hid
        rw [Function.update_same] at hc'
        cases hc'
        rw [Function.update_same, hv₂ a]
        exact hP.replace _ _ _ _ hR (hs _ _ ha) h₁
      · rw [Function.update_noteq hid] at hc'
        rw [Function.update_noteq (show c ≠ m₂.heap.next from
          Nat.ne_of_lt (hI₃.registered hc').lt), hv₂ c]
        exact hs _ _ (by rw [← ho₂]; exact orders_of_update_none hc')

/-! ## One step -/

/-- What one public call can do: turn matching on or off, `Shrinks` the state, or put one order
on the book of some `key` (an `AddOrder` that passed `validateOrder`, or a call on a registered
order) and run `matchIfEnabled key`, keeping every `ValueClosed` property that the added order
has.
Source: `market_manager.go`
Kind: L -/
theorem step_effect {op : Op} (hI : Inv m none none) (hop : op.Admissible m)
    (h : m.step op = some (m', e)) :
    (op = .enableMatching ∧ m' = m.enableMatching) ∨
    (op = .disableMatching ∧ m' = m.disableMatching) ∨ Shrinks m m' ∨
    ∃ key mc, ((∃ id, (m.orders id).isSome) ∨ ∃ o, op = .addOrder o) ∧ AddsAt key m mc ∧
      (∀ {R P}, ValueClosed R P →
        (∀ o, op = .addOrder o → validateOrder o = .errorOK → P o) →
        (∀ id newID p q, op = .replaceOrder id newID p q → R newID) →
        RegisteredSatisfy P m → RegisteredSatisfy P mc) ∧
      mc.matchIfEnabled key = some (m', e) := by
  cases op with
  | addSymbol s =>
    have h' : (m.addSymbol s).1 = m' := by rw [Option.some.inj h]
    exact .inr (.inr (.inl (h' ▸ hI.addSymbol_shrinks)))
  | deleteSymbol id enum => exact .inr (.inr (.inl (hI.deleteSymbol_shrinks hop h)))
  | addOrderBook s =>
    have h' : (m.addOrderBook s).1 = m' := by rw [Option.some.inj h]
    exact .inr (.inr (.inl (h' ▸ hI.addOrderBook_shrinks)))
  | deleteOrderBook id enum => exact .inr (.inr (.inl (hI.deleteOrderBook_shrinks hop h)))
  | addOrder o =>
    rcases hI.addOrder_effect h with rfl | ⟨mc, hval, hA, hv, hmc⟩
    · exact .inr (.inr (.inl (.refl hI)))
    · exact .inr (.inr (.inr ⟨_, mc, .inr ⟨o, rfl⟩, hA, fun _ ho _ => hv (ho o rfl hval), hmc⟩))
  | reduceOrder id q => exact .inr (.inr (.inl (hI.reduceOrder_shrinks h)))
  | modifyOrder id p q =>
    rcases hI.modifyOrder_effect h with hs | ⟨key, mc, hr, hA, hv, hmc⟩
    · exact .inr (.inr (.inl hs))
    · exact .inr (.inr (.inr ⟨key, mc, .inl ⟨_, hr⟩, hA, fun hP _ _ => hv hP, hmc⟩))
  | mitigateOrder id p q =>
    rcases hI.mitigateOrder_effect h with hs | ⟨key, mc, hr, hA, hv, hmc⟩
    · exact .inr (.inr (.inl hs))
    · exact .inr (.inr (.inr ⟨key, mc, .inl ⟨_, hr⟩, hA, fun hP _ _ => hv hP, hmc⟩))
  | replaceOrder id newID p q =>
    rcases hI.replaceOrder_effect h with hs | ⟨key, mc, hr, hA, hv, hmc⟩
    · exact .inr (.inr (.inl hs))
    · exact .inr (.inr (.inr ⟨key, mc, .inl ⟨_, hr⟩, hA,
        fun hP _ hR => hv hP (hR _ _ _ _ rfl), hmc⟩))
  | deleteOrder id => exact .inr (.inr (.inl (hI.deleteOrder_shrinks h)))
  | executeOrder id q => exact .inr (.inr (.inl (hI.executeOrder_shrinks h)))
  | executeOrderWithPrice id p q => exact .inr (.inr (.inl (hI.executeOrderWithPrice_shrinks h)))
  | matchSymbol k => exact .inr (.inr (.inl (hI.matchSymbol_shrinks h)))
  | enableMatching => cases h; exact .inl ⟨rfl, rfl⟩
  | disableMatching => cases h; exact .inr (.inl ⟨rfl, rfl⟩)

/-- Only `EnableMatching` and `DisableMatching` change the matching flag.
Source: `market_manager.go`
Kind: L -/
theorem step_matching {op : Op} (hI : Inv m none none) (hop : op.Admissible m)
    (h : m.step op = some (m', e)) (hen : op ≠ .enableMatching) (hdis : op ≠ .disableMatching) :
    m'.matching = m.matching := by
  rcases hI.step_effect hop h with ⟨rfl, -⟩ | ⟨rfl, -⟩ | hs | ⟨key, mc, -, hA, -, hmc⟩
  · exact absurd rfl hen
  · exact absurd rfl hdis
  · exact hs.matching
  · exact (hA.inv.matchIfEnabled_effect hmc).1.matching.trans hA.matching

end Inv

end GoTrader.Matching
