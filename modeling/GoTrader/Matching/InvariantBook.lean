import GoTrader.Matching.Invariant

/-!
# The book primitives keep the invariant

Each order-book method, applied the way `MarketManager` applies it, moves between the variants
of `Inv`:

* `Inv.linkOrder` — the tail of `AddOrder` puts the free order back: `Inv m (some a) (some L)`
  becomes `Inv _ none none`;
* `Inv.addLevel` — `AddLevel` opens an empty level at the order's price;
* `Inv.unlinkOrder` — the head of `DeleteOrder` takes a linked order off its level, which may
  become empty;
* `Inv.deleteLevel` — `DeleteLevel` removes that level once it is empty, including the
  two-child case where the successor's payload moves into the removed node;
* `Inv.detach` — `DeleteOrder` clears the order's level pointer;
* `Inv.bookAddOrder` and `Inv.bookDeleteOrder` assemble them as `ob.AddOrder` and
  `ob.DeleteOrder` run.

`DeleteOrder` tests `Empty()`, that is `Size == 0` on a `uint64` counter. `Inv.length_le` bounds
every level's list by `2^64` (its orders are registered under distinct ids), so after a removal
the counter is the exact length and the test is exact (`Inv.empty_iff`).
-/

namespace GoTrader.Matching

/-! ## Counters under linking and unlinking -/

/-- Linking adds the order to its level's counters and list; other levels are untouched.
Source: `orderbook.go` `(*OrderBook).AddOrder`
Kind: L -/
theorem Counts.linkOrder {h : Heap} {L a x : Nat} (hc : Counts h x) :
    Counts (h.linkOrder L a) x := by
  by_cases hx : x = L
  · subst hx
    have hn : (h.linkOrder x a).nodes x = h.nodes x ++ [a] := by simp [Heap.nodes_linkOrder]
    have hl := h.linkOrder_levelNodes (L := x) (a := a) x
    rw [if_pos rfl] at hl
    refine ⟨?_, ?_, ?_, ?_, ?_⟩ <;>
      simp only [hl, hn, List.length_append, List.length_singleton, UInt64.ofNat_succ,
        List.map_append, List.sum_append, List.map_singleton, List.sum_singleton,
        Heap.linkOrder_order, OrderList.pushBack, hc.size, hc.orders, hc.total, hc.hidden,
        hc.visible]
  · exact hc.of_eq (by rw [Heap.linkOrder_levelNodes, if_neg hx]) fun b _ => by simp

/-- Unlinking subtracts the order from its level's counters and list.
Source: `orderbook.go` `(*OrderBook).DeleteOrder`
Kind: L -/
theorem Counts.unlinkOrder {h : Heap} {L a x : Nat} (hc : Counts h x) (ha : a ∈ h.nodes L) :
    Counts (h.unlinkOrder L a) x := by
  by_cases hx : x = L
  · subst hx
    have hn : (h.unlinkOrder x a).nodes x = (h.nodes x).erase a := by
      simp [Heap.nodes_unlinkOrder]
    have hl := h.unlinkOrder_levelNodes (L := x) (a := a) x
    rw [if_pos rfl] at hl
    have hlen : UInt64.ofNat ((h.nodes x).erase a).length = UInt64.ofNat (h.nodes x).length - 1 := by
      rw [List.length_erase_of_mem ha, eq_sub_iff_add_eq, ← UInt64.ofNat_succ,
        Nat.sub_add_cancel (List.length_pos_of_mem ha)]
    have hsum : ∀ f : Order → UInt64, (((h.nodes x).erase a).map fun b => f (h.orderNodes b).order).sum
        = ((h.nodes x).map fun b => f (h.orderNodes b).order).sum - f (h.orderNodes a).order :=
      fun f => eq_sub_of_add_eq' (List.sum_map_erase (fun b => f (h.orderNodes b).order) ha)
    refine ⟨?_, ?_, ?_, ?_, ?_⟩ <;>
      simp only [hl, hn, Heap.unlinkOrder_orderNodes, OrderList.remove, hlen, hsum, hc.size,
        hc.orders, hc.total, hc.hidden, hc.visible]
  · exact hc.of_eq (by rw [Heap.unlinkOrder_levelNodes, if_neg hx]) fun b _ => rfl

/-- Linking another order leaves a linked order linked.
Source: `orderbook.go` `(*OrderBook).AddOrder`
Kind: L -/
theorem Linked.linkOrder {o : UInt64 → Option Nat} {h : Heap} {k : UInt32} {i : LevelIndex}
    {x b L a : Nat} (l : Linked o h k i x b) (hb : b ≠ a) : Linked o (h.linkOrder L a) k i x b := by
  have ho : (h.linkOrder L a).orderNodes b = h.orderNodes b := by
    rw [Heap.linkOrder_orderNodes, if_neg hb]
  obtain ⟨h1, h2, h3, h4, h5, h6⟩ := l
  exact ⟨ho ▸ h1, ho ▸ h2, by simpa [ho] using h3, ho ▸ h4, ho ▸ h5,
    by rw [ho]; exact Nat.lt_succ_of_lt h6⟩

/-- Allocating a level leaves a linked order linked.
Source: `level.go` `NewLevelNode`
Kind: L -/
theorem Linked.allocLevel {o : UInt64 → Option Nat} {h : Heap} {k : UInt32} {i : LevelIndex}
    {x b : Nat} (l : Linked o h k i x b) (n : LevelNode) (hx : x < h.next) :
    Linked o (h.allocLevel n) k i x b :=
  ⟨l.level, l.index, by
    rw [Heap.allocLevel_orderNodes, l.price, Heap.price_allocLevel, if_neg (Nat.ne_of_lt hx)],
    l.symbol, l.registered, l.placed⟩

/-- Unlinking another order leaves a linked order linked.
Source: `orderbook.go` `(*OrderBook).DeleteOrder`
Kind: L -/
theorem Linked.unlinkOrder {o : UInt64 → Option Nat} {h : Heap} {k : UInt32} {i : LevelIndex}
    {x b L a : Nat} (l : Linked o h k i x b) : Linked o (h.unlinkOrder L a) k i x b :=
  ⟨l.level, l.index, by rw [Heap.price_unlinkOrder]; exact l.price, l.symbol, l.registered,
    l.placed⟩

/-- Moving `S`'s payload into `L` repoints `S`'s orders at `L`.
Source: `avltree.go` `(*AVLTree).Remove` (two-child case)
Kind: L -/
theorem Linked.moveLevel_of_mem {o : UInt64 → Option Nat} {h : Heap} {k : UInt32}
    {i : LevelIndex} {S L b : Nat} (l : Linked o h k i S b) (hb : b ∈ h.nodes S) :
    Linked o (h.moveLevel S L) k i L b := by
  have ho : (h.moveLevel S L).orderNodes b = { h.orderNodes b with level := some L } := by
    rw [Heap.moveLevel_orderNodes, if_pos hb]
  exact ⟨by rw [ho], by rw [ho]; exact l.index,
    by rw [ho, Heap.price_moveLevel, if_pos rfl]; exact l.price, by rw [ho]; exact l.symbol,
    by rw [ho]; exact l.registered, by rw [ho]; exact l.placed⟩

/-- Moving `S`'s payload into `L` leaves the orders of the other levels alone.
Source: `avltree.go` `(*AVLTree).Remove` (two-child case)
Kind: L -/
theorem Linked.moveLevel_of_not_mem {o : UInt64 → Option Nat} {h : Heap} {k : UInt32}
    {i : LevelIndex} {S L x b : Nat} (l : Linked o h k i x b) (hb : b ∉ h.nodes S) (hx : x ≠ L) :
    Linked o (h.moveLevel S L) k i x b := by
  have ho : (h.moveLevel S L).orderNodes b = h.orderNodes b := by
    rw [Heap.moveLevel_orderNodes, if_neg hb]
  exact ⟨by rw [ho]; exact l.level, by rw [ho]; exact l.index,
    by rw [ho, Heap.price_moveLevel, if_neg hx]; exact l.price, by rw [ho]; exact l.symbol,
    by rw [ho]; exact l.registered, by rw [ho]; exact l.placed⟩

/-- Writing another node leaves a linked order linked.
Source: none: infrastructure
Kind: L -/
theorem Linked.setOrderNode {o : UInt64 → Option Nat} {h : Heap} {k : UInt32} {i : LevelIndex}
    {x b a : Nat} (l : Linked o h k i x b) (n : OrderNode) (hb : b ≠ a) :
    Linked o (h.setOrderNode a n) k i x b := by
  have ho : (h.setOrderNode a n).orderNodes b = h.orderNodes b := by
    simp [Function.update_noteq hb]
  exact ⟨by rw [ho]; exact l.level, by rw [ho]; exact l.index, by rw [ho]; exact l.price,
    by rw [ho]; exact l.symbol, by rw [ho]; exact l.registered, by rw [ho]; exact l.placed⟩

/-- Below `2^64` orders, `Empty()` (a `uint64` size of zero) means an empty list.
Source: `level.go` `(*OrderList).Empty`
Kind: L -/
theorem Counts.empty_iff {h : Heap} {L : Nat} (hc : Counts h L) (hlen : (h.nodes L).length < 2 ^ 64) :
    (h.levelNodes L).orderList.empty = true ↔ h.nodes L = [] := by
  rw [OrderList.empty, beq_iff_eq, hc.size, UInt64.eq_iff_toNat_eq, UInt64.toNat_ofNat_eq,
    Nat.mod_eq_of_lt hlen, ← List.length_eq_zero]
  rfl

/-! ## Putting a free order back -/

namespace Inv

variable {m : MarketManager} {k : UInt32} {i : LevelIndex} {L a : Nat}

/-- The tail of `AddOrder` puts the free order `a` at the back of level `L`'s list, `L` being
the level of `a`'s book, tree and price.
Source: `orderbook.go` `(*OrderBook).AddOrder`
Kind: L -/
theorem linkOrder (hI : Inv m (some a) (some L)) (hL : L ∈ m.levelIds k i)
    (hi : LevelIndex.ofOrder (m.heap.orderNodes a).order = i)
    (hp : routingPrice (m.heap.orderNodes a).order = m.heap.price L)
    (hk : (m.heap.orderNodes a).order.symbolID = k)
    (hr : m.orders (m.heap.orderNodes a).order.id = some a) :
    Inv { m with heap := m.heap.linkOrder L a } none none := by
  have hfree : ∀ {k i x}, x ∈ m.levelIds k i → a ∉ m.heap.nodes x :=
    (hI.registered hr).detached rfl
  have hn := m.heap.nodes_linkOrder (L := L) (a := a)
  have ho : ∀ {b}, b ≠ a → (m.heap.linkOrder L a).orderNodes b = m.heap.orderNodes b :=
    fun hb => by rw [Heap.linkOrder_orderNodes, if_neg hb]
  have hmem : ∀ {k i x b}, x ∈ m.levelIds k i → b ∈ (m.heap.linkOrder L a).nodes x →
      (x = L ∧ b = a) ∨ (b ≠ a ∧ b ∈ m.heap.nodes x) := fun hx hb => by
    rw [hn] at hb
    split_ifs at hb with e
    · subst e
      rcases List.mem_append.1 hb with hb | hb
      · exact .inr ⟨fun e' => hfree hx (e' ▸ hb), hb⟩
      · exact .inl ⟨rfl, List.mem_singleton.1 hb⟩
    · exact .inr ⟨fun e' => hfree hx (e' ▸ hb), hb⟩
  refine ⟨hI.descending, hI.best, ?_, hI.nodup, hI.unique, hI.level_lt, ?_, ?_,
    fun hx => (hI.counts hx).linkOrder, ?_, ?_, ?_⟩
  · simpa using hI.sorted
  · intro k i x hx _
    rw [hn]
    split_ifs with e
    · simp
    · exact hI.nonempty hx fun h => e (Option.some.inj h).symm
  · intro k i x hx
    rw [hn]
    split_ifs with e
    · subst e
      exact (hI.nodes_nodup hx).append (List.nodup_singleton a)
        (List.disjoint_singleton.2 (hfree hx))
    · exact hI.nodes_nodup hx
  · intro k' i' x b hx hb
    rcases hmem hx hb with ⟨rfl, rfl⟩ | ⟨hba, hb⟩
    · obtain ⟨rfl, rfl⟩ := hI.unique hL hx
      refine ⟨?_, ?_, ?_, ?_, ?_, ?_⟩ <;> simp [Heap.linkOrder_orderNodes, hi, hp, hk, hr]
    · exact (hI.linked hx hb).linkOrder hba
  · intro k' i' x hx
    have hp : ∀ {b}, b ∈ m.heap.nodes x → ((m.heap.linkOrder L a).orderNodes b).placed =
        (m.heap.orderNodes b).placed := fun hb => by rw [ho fun e => hfree hx (e ▸ hb)]
    have old : (m.heap.nodes x).Pairwise fun b c => ((m.heap.linkOrder L a).orderNodes b).placed <
        ((m.heap.linkOrder L a).orderNodes c).placed :=
      (hI.fifo hx).imp_of_mem fun hb hc h => by rwa [hp hb, hp hc]
    rw [hn]
    split_ifs with e
    · subst e
      refine List.pairwise_append.2 ⟨old, List.pairwise_singleton _ _, fun b hb c hc => ?_⟩
      rw [List.mem_singleton.1 hc, hp hb]
      simpa [Heap.linkOrder_orderNodes] using (hI.linked hx hb).placed
    · exact old
  · intro id b hb
    have r := hI.registered hb
    refine ⟨by simp [r.id], by simpa using r.lt, fun _ => ?_, nofun⟩
    by_cases hba : b = a
    · subst hba
      exact ⟨L, by simpa [hk, hi] using hL, by simp [hn]⟩
    · obtain ⟨x, hx, hbx⟩ := r.placed fun e => hba (Option.some.inj e).symm
      refine ⟨x, by simpa using hx, ?_⟩
      rw [hn]
      split_ifs with e
      · subst e; simp [hbx]
      · exact hbx

/-! ## Writing back a book with one tree replaced -/

section ReplaceTree

variable {free opened : Option Nat} {ob ob' : OrderBook} {t : AVLTree} {p : Option Nat}

/-- Setting tree `i` of book `k` to a tree of the same direction keeps every tree's direction.
Source: `orderbook.go` `(*OrderBook).AddLevel`, `(*OrderBook).DeleteLevel`
Kind: L -/
theorem descending_replaceTree (hI : Inv m free opened) (hob : m.orderBooks k = some ob)
    (hob' : ob' = (ob.setLevels i t).setBest i p) (htd : t.descending = i.descending)
    {k' : UInt32} {ob'' : OrderBook} (j : LevelIndex)
    (hk : Function.update m.orderBooks k (some ob') k' = some ob'') :
    (ob''.levels j).descending = j.descending := by
  rw [Function.update_apply] at hk
  split_ifs at hk with hkk
  · cases hk
    rw [hob', OrderBook.levels_setBest, OrderBook.levels_setLevels]
    split_ifs with hj
    · rw [htd, hj]
    · exact hI.descending j (hkk ▸ hob)
  · exact hI.descending j hk

/-- Setting tree `i` of book `k` to `t` and its best pointer to `t`'s head keeps every best
pointer at the head of its tree.
Source: `orderbook.go` `(*OrderBook).AddLevel`, `(*OrderBook).DeleteLevel`
Kind: L -/
theorem best_replaceTree (hI : Inv m free opened) (hob : m.orderBooks k = some ob)
    (hob' : ob' = (ob.setLevels i t).setBest i p) (hbi : ob'.best i = t.root.ids.head?)
    (h : Heap) {k' : UInt32} {ob'' : OrderBook} (j : LevelIndex)
    (hk : Function.update m.orderBooks k (some ob') k' = some ob'') :
    ob''.best j = (({ m with heap := h, orderBooks := Function.update m.orderBooks k (some ob') } :
      MarketManager).levelIds k' j).head? := by
  rw [MarketManager.levelIds_replaceTree hob hob']
  rw [Function.update_apply] at hk
  split_ifs at hk with hkk
  · cases hk
    by_cases hj : j = i
    · rw [if_pos ⟨hkk, hj⟩, hj, hbi]
    · rw [if_neg fun h => hj h.2, hob', OrderBook.best_setBest, if_neg hj,
        OrderBook.best_setLevels]
      exact hI.best j (hkk ▸ hob)
  · rw [if_neg fun h => hkk h.1]
    exact hI.best j hk

end ReplaceTree

open MarketManager in
/-- `AddLevel` at a price its tree does not have: the new level sits at its sorted position and
heads the tree exactly when the best pointer now names it; it is the one level that may be
empty.
Source: `orderbook.go` `(*OrderBook).AddLevel`
Kind: L -/
theorem addLevel {key : UInt32} {ob ob' : OrderBook} {h' : Heap} {o : Order}
    (hI : Inv m (some a) none) (hob : m.orderBooks key = some ob)
    (hfind : (ob.levels (LevelIndex.ofOrder o)).find m.heap.price (routingPrice o) = none)
    (hadd : ob.addLevel m.heap o = some (ob', h', L)) :
    Inv { m with heap := h', orderBooks := Function.update m.orderBooks key (some ob') }
      (some a) (some L) ∧
    L ∈ ({ m with heap := h', orderBooks := Function.update m.orderBooks key (some ob') } :
      MarketManager).levelIds key (LevelIndex.ofOrder o) ∧
    h'.price L = routingPrice o ∧ h'.orderNodes = m.heap.orderNodes := by
  obtain ⟨rfl, rfl, t, ht, hob'⟩ := OrderBook.addLevel_spec hadd
  set i := LevelIndex.ofOrder o
  set p := routingPrice o
  set N := m.heap.next
  set h' := m.heap.allocLevel (newLevelNode i.levelType p)
  set m' : MarketManager :=
    { m with heap := h', orderBooks := Function.update m.orderBooks key (some ob') }
  obtain ⟨htd, hids⟩ := AVLTree.insert_spec ht
  have hdesc := hI.descending i hob
  have hold := levelIds_of_some hob i
  have hpN : h'.price N = p := by simp [h', Heap.price_allocLevel, newLevelNode, newLevel]
  have hpx : ∀ {x}, x < N → h'.price x = m.heap.price x := fun hx => by
    simp only [h', Heap.price_allocLevel, if_neg (Nat.ne_of_lt hx)]
  have hsorted : Tree.Sorted h'.price i.descending (ob.levels i).root.ids :=
    (hold ▸ hI.sorted key i).congr fun x hx => hpx (hI.level_lt (hold ▸ hx))
  have hdist : ∀ x ∈ (ob.levels i).root.ids, h'.price x ≠ h'.price N := fun x hx e => by
    have := (hI.find_eq_some_iff hob i p).2 ⟨hold ▸ hx, by rw [← hpx (hI.level_lt (hold ▸ hx)),
      e, hpN]⟩
    rw [hfind] at this
    cases this
  rw [hdesc] at hids
  obtain ⟨l₁, l₂, e, e', h₁, h₂⟩ := Tree.insertIds_split hsorted hdist
  rw [e'] at hids
  rw [e] at hold
  have hlev : ∀ k j, m'.levelIds k j =
      if k = key ∧ j = i then l₁ ++ N :: l₂ else m.levelIds k j := fun k j => by
    rw [levelIds_replaceTree hob hob', hids]
  have hmem : ∀ {k j x}, x ∈ m'.levelIds k j ↔
      x ∈ m.levelIds k j ∨ (k = key ∧ j = i ∧ x = N) := fun {k j x} => by
    rw [hlev]
    split_ifs with hkj
    · obtain ⟨rfl, rfl⟩ := hkj
      simp [hold, or_comm, or_left_comm]
    · simp only [iff_self_or, and_imp]
      intro hk hj; exact absurd ⟨hk, hj⟩ hkj
  have hlt : ∀ {k j x}, x ∈ m.levelIds k j → x ≠ N := fun hx => Nat.ne_of_lt (hI.level_lt hx)
  have hnx : ∀ {k j x}, x ∈ m.levelIds k j → h'.nodes x = m.heap.nodes x := fun hx => by
    simp only [h', Heap.nodes_allocLevel, if_neg (hlt hx)]
  have hnN : h'.nodes N = [] := by simp [h', Heap.nodes_allocLevel, newLevelNode]
  have hbi : ob'.best i = t.root.ids.head? := by
    rw [hids]
    have hb := hI.best i hob
    rw [hold] at hb
    rw [hob', OrderBook.best_setBest, if_pos rfl, hb]
    rcases l₁ with _ | ⟨b, l₁⟩
    · rcases l₂ with _ | ⟨b, l₂⟩
      · rfl
      · simp [(LevelIndex.improves_iff _ _ _).2 (hpN ▸ h₂ b (by simp))]
    · have hnot : ¬ AVLTree.precedes i.descending (h'.price N) (h'.price b) :=
        AVLTree.precedes_asymm (h₁ b (by simp))
      rw [← LevelIndex.improves_iff, hpN] at hnot
      simp [hnot]
  refine ⟨⟨?descending, ?best, ?sorted, ?nodup, ?unique, ?level_lt, ?nonempty, ?nodes_nodup,
    ?counts, ?linked, ?fifo, ?registered⟩, hmem.2 (.inr ⟨rfl, rfl, rfl⟩), hpN, rfl⟩
  case descending => exact hI.descending_replaceTree hob hob' (htd.trans hdesc)
  case best => exact hI.best_replaceTree hob hob' hbi h'
  case sorted =>
    intro k j
    rw [hlev]
    split_ifs with hkj
    · obtain ⟨rfl, rfl⟩ := hkj
      exact Tree.sorted_insert (e ▸ hsorted) h₁ h₂
    · exact (hI.sorted k j).congr fun x hx => hpx (hI.level_lt hx)
  case nodup =>
    intro k j
    rw [hlev]
    split_ifs with hkj
    · have := hI.nodup key i
      rw [hold] at this
      have hN : N ∉ l₁ ++ l₂ := fun hN => hlt (show N ∈ m.levelIds key i by rw [hold]; exact hN) rfl
      exact List.nodup_middle.2 (List.nodup_cons.2 ⟨hN, this⟩)
    · exact hI.nodup k j
  case unique =>
    intro k j k' j' x hx hx'
    rcases hmem.1 hx with hx | ⟨hk, hj, hxN⟩ <;> rcases hmem.1 hx' with hx' | ⟨hk', hj', hxN'⟩
    · exact hI.unique hx hx'
    · exact absurd hxN' (hlt hx)
    · exact absurd hxN (hlt hx')
    · exact ⟨hk.trans hk'.symm, hj.trans hj'.symm⟩
  case level_lt =>
    intro k j x hx
    rcases hmem.1 hx with hx | ⟨-, -, rfl⟩
    · exact Nat.lt_succ_of_lt (hI.level_lt hx)
    · exact Nat.lt_succ_self _
  case nonempty =>
    intro k j x hx hne
    rcases hmem.1 hx with hx | ⟨-, -, rfl⟩
    · rw [hnx hx]; exact hI.nonempty hx nofun
    · exact absurd rfl hne
  case nodes_nodup =>
    intro k j x hx
    rcases hmem.1 hx with hx | ⟨-, -, rfl⟩
    · rw [hnx hx]; exact hI.nodes_nodup hx
    · rw [hnN]; exact List.nodup_nil
  case counts =>
    intro k j x hx
    rcases hmem.1 hx with hx | ⟨-, -, rfl⟩
    · exact (hI.counts hx).of_eq (Heap.allocLevel_levelNodes_of_lt _ _ (hI.level_lt hx))
        fun _ _ => rfl
    · have hl : h'.levelNodes N = newLevelNode i.levelType p := by
        simp [h', Heap.allocLevel_levelNodes]
      exact ⟨by rw [hl, hnN]; rfl, by rw [hl, hnN]; rfl, by rw [hl, hnN]; rfl,
        by rw [hl, hnN]; rfl, by rw [hl, hnN]; rfl⟩
  case linked =>
    intro k j x b hx hb
    rcases hmem.1 hx with hx | ⟨-, -, rfl⟩
    · exact (hI.linked hx (hnx hx ▸ hb)).allocLevel _ (hI.level_lt hx)
    · rw [hnN] at hb; cases hb
  case fifo =>
    intro k j x hx
    rcases hmem.1 hx with hx | ⟨-, -, rfl⟩
    · rw [hnx hx]; exact hI.fifo hx
    · rw [hnN]; exact List.Pairwise.nil
  case registered =>
    intro id b hb
    have r := hI.registered hb
    refine ⟨r.id, Nat.lt_succ_of_lt r.lt, fun hne => ?_, fun e {k j x} hx => ?_⟩
    · obtain ⟨x, hx, hbx⟩ := r.placed hne
      exact ⟨x, hmem.2 (.inl hx), (hnx hx).symm ▸ hbx⟩
    · rcases hmem.1 hx with hx | ⟨-, -, rfl⟩
      · rw [hnx hx]; exact r.detached e hx
      · rw [hnN]; exact List.not_mem_nil _

/-- A level holds at most `2^64` orders: they are registered under distinct `uint64` ids.
Source: `market_manager.go` `MarketManager.orders`
Kind: L -/
theorem length_le {free opened : Option Nat} (hI : Inv m free opened) (hL : L ∈ m.levelIds k i) :
    (m.heap.nodes L).length ≤ 2 ^ 64 := by
  have hnd : ((m.heap.nodes L).map fun b => (m.heap.orderNodes b).order.id.toNat).Nodup :=
    (hI.nodes_nodup hL).map_on fun b hb c hc e => by
      have := (hI.linked hL hb).registered
      rw [UInt64.toNat.inj e, (hI.linked hL hc).registered] at this
      exact (Option.some.inj this).symm
  have := (hnd.subperm fun n hn => by
    obtain ⟨b, -, rfl⟩ := List.mem_map.1 hn
    exact List.mem_range.2 (UInt64.toNat_lt_size _)).length_le
  simpa using this

/-- The head of `DeleteOrder` takes a linked order off its level: the order becomes the free
one and its level the one that may be empty.
Source: `orderbook.go` `(*OrderBook).DeleteOrder`
Kind: L -/
theorem unlinkOrder (hI : Inv m none none) (hL : L ∈ m.levelIds k i) (ha : a ∈ m.heap.nodes L) :
    Inv { m with heap := m.heap.unlinkOrder L a } (some a) (some L) := by
  have hn := m.heap.nodes_unlinkOrder (L := L) (a := a)
  have hlevel : ∀ {k' i' x}, x ∈ m.levelIds k' i' → a ∈ m.heap.nodes x → x = L :=
    fun hx hax => Option.some.inj ((hI.linked hx hax).level.symm.trans (hI.linked hL ha).level)
  have hsub : ∀ x, (m.heap.unlinkOrder L a).nodes x ⊆ m.heap.nodes x := fun x b hb => by
    rw [hn] at hb; split_ifs at hb with e
    · exact e ▸ List.mem_of_mem_erase hb
    · exact hb
  refine ⟨hI.descending, hI.best, by simpa using hI.sorted, hI.nodup, hI.unique, hI.level_lt,
    ?_, ?_, fun hx => (hI.counts hx).unlinkOrder ha, fun hx hb => (hI.linked hx (hsub _ hb)).unlinkOrder,
    ?_, ?_⟩
  · intro k i x hx hne
    rw [hn, if_neg fun e => hne (by rw [e])]
    exact hI.nonempty hx nofun
  · intro k i x hx
    rw [hn]; split_ifs with e
    · subst e; exact (hI.nodes_nodup hx).erase a
    · exact hI.nodes_nodup hx
  · intro k i x hx
    refine (hI.fifo hx).sublist ?_
    rw [hn]; split_ifs with e
    · subst e; exact List.erase_sublist _ _
    · exact List.Sublist.refl _
  · intro id b hb
    have r := hI.registered hb
    refine ⟨r.id, r.lt, fun hne => ?_, fun e {k i x} hx => ?_⟩
    · obtain ⟨x, hx, hbx⟩ := r.placed nofun
      refine ⟨x, hx, ?_⟩
      rw [hn]; split_ifs with e
      · subst e; exact (List.mem_erase_of_ne fun e' => hne (by rw [e'])).2 hbx
      · exact hbx
    · cases e
      rw [hn]; split_ifs with e
      · subst e; exact (hI.nodes_nodup hx).not_mem_erase
      · exact fun hax => e (hlevel hx hax)

open MarketManager in
/-- `DeleteLevel` on the emptied level `L` of tree `i` of book `k`: the level leaves the tree
(in the two-child case its successor's payload moves into `L`'s node), the best pointer is
re-seated at the tree's head, and no level is empty any more.
Source: `orderbook.go` `(*OrderBook).DeleteLevel`; `avltree.go` `(*AVLTree).Remove`
Kind: L -/
theorem deleteLevel {ob ob' : OrderBook} {n : OrderNode} {h' : Heap}
    (hI : Inv m (some a) (some L)) (hob : m.orderBooks k = some ob) (hL : L ∈ m.levelIds k i)
    (hn : n.level = some L) (hi : LevelIndex.ofOrder n.order = i) (hempty : m.heap.nodes L = [])
    (hd : ob.deleteLevel m.heap n = some (ob', h')) :
    Inv { m with heap := h', orderBooks := Function.update m.orderBooks k (some ob') }
      (some a) none ∧
    ∀ b, (h'.orderNodes b).order = (m.heap.orderNodes b).order := by
  obtain ⟨t, hrem, hob'⟩ := OrderBook.deleteLevel_spec hn hd
  rw [hi] at hrem hob'
  obtain ⟨htd, l₁, l₂, e, hcase⟩ := AVLTree.remove_spec hrem
  have hold := levelIds_of_some hob i
  rw [e] at hold
  have hnd := hI.nodup k i
  rw [hold] at hnd
  have hL₁ : L ∉ l₁ := fun h => (List.nodup_cons.1 (List.nodup_middle.1 hnd)).1
    (List.mem_append_left _ h)
  have hlev := levelIds_replaceTree (m := m) hob hob'
  rw [hI.descending i hob] at htd
  have hpre : ∃ r, t.root.ids = l₁ ++ r := by
    rcases hcase with ⟨-, ht⟩ | ⟨S, l₃, -, -, ht⟩
    exacts [⟨_, ht⟩, ⟨_, ht⟩]
  have hbi : ob'.best i = t.root.ids.head? := by
    have hb := hI.best i hob
    rw [hold] at hb
    rw [hob', OrderBook.best_setBest, if_pos rfl]
    split_ifs with hbL
    · rw [AVLTree.first, Tree.first_eq_head]
    · obtain ⟨r, hr⟩ := hpre
      rcases l₁ with _ | ⟨b, l₁⟩
      · exact absurd hb hbL
      · rw [hb, hr]; rfl
  have hother : ∀ {k' j x}, x ∈ m.levelIds k' j → ¬ (k' = k ∧ j = i) → x ∉ m.levelIds k i :=
    fun hx hkj hx' => hkj (hI.unique hx hx')
  rcases hcase with ⟨rfl, ht⟩ | ⟨S, l₃, rfl, rfl, ht⟩
  · -- one child or none: `L`'s node leaves the tree
    have hE : ∀ k' j,
        ({ m with heap := m.heap, orderBooks := Function.update m.orderBooks k (some ob') } :
          MarketManager).levelIds k' j =
        (m.levelIds k' j).erase L := fun k' j => by
      rw [hlev]
      split_ifs with hkj
      · rw [hkj.1, hkj.2, hold, ht, List.erase_append_right _ hL₁, List.erase_cons_head]
      · rw [List.erase_of_not_mem fun h => hother h hkj hL]
    have hmem : ∀ {k' j x}, x ∈
        ({ m with heap := m.heap, orderBooks := Function.update m.orderBooks k (some ob') } :
          MarketManager).levelIds k' j ↔
        x ≠ L ∧ x ∈ m.levelIds k' j := fun {k' j x} => by
      rw [hE]; exact (hI.nodup k' j).mem_erase_iff
    refine ⟨⟨hI.descending_replaceTree hob hob' htd, hI.best_replaceTree hob hob' hbi _, fun k' j => ?_,
      fun k' j => ?_, fun hx hx' => hI.unique (hmem.1 hx).2 (hmem.1 hx').2,
      fun hx => hI.level_lt (hmem.1 hx).2,
      fun hx _ => hI.nonempty (hmem.1 hx).2 fun e => (hmem.1 hx).1 (Option.some.inj e).symm,
      fun hx => hI.nodes_nodup (hmem.1 hx).2, fun hx => hI.counts (hmem.1 hx).2,
      fun hx hb => hI.linked (hmem.1 hx).2 hb, fun hx => hI.fifo (hmem.1 hx).2,
      fun hb => ?_⟩, fun _ => rfl⟩
    · rw [hE]; exact (hI.sorted k' j).sublist (List.erase_sublist _ _)
    · rw [hE]; exact (hI.nodup k' j).erase L
    · have r := hI.registered hb
      refine ⟨r.id, r.lt, fun hne => ?_, fun e {k' j x} hx => r.detached e (hmem.1 hx).2⟩
      obtain ⟨x, hx, hbx⟩ := r.placed hne
      have hxL : x ≠ L := by rintro rfl; rw [hempty] at hbx; cases hbx
      exact ⟨x, hmem.2 ⟨hxL, hx⟩, hbx⟩
  · -- two children: the successor `S`'s payload moves into `L`'s node, `S`'s node leaves
    set h' := m.heap.moveLevel S L
    have hS : S ∈ m.levelIds k i := by rw [hold]; simp
    have hnd' := List.nodup_cons.1 (List.nodup_middle.1 hnd)
    have hSL : S ≠ L := fun e => hnd'.1 (by simp [e])
    have hS₁ : S ∉ l₁ := fun h => (List.nodup_cons.1 (List.nodup_middle.1 hnd'.2)).1
      (List.mem_append_left _ h)
    have hL₃ : L ∉ l₃ := fun h => hnd'.1 (by simp [h])
    have hE : ∀ k' j,
        ({ m with heap := h', orderBooks := Function.update m.orderBooks k (some ob') } :
          MarketManager).levelIds k' j =
        (m.levelIds k' j).erase S := fun k' j => by
      rw [hlev]
      split_ifs with hkj
      · rw [hkj.1, hkj.2, hold, ht, List.erase_append_right _ hS₁,
          List.erase_cons_tail (by simpa using hSL.symm), List.erase_cons_head]
      · rw [List.erase_of_not_mem fun h => hother h hkj hS]
    have hmem : ∀ {k' j x}, x ∈
        ({ m with heap := h', orderBooks := Function.update m.orderBooks k (some ob') } :
          MarketManager).levelIds k' j ↔
        x ≠ S ∧ x ∈ m.levelIds k' j := fun {k' j x} => by
      rw [hE]; exact (hI.nodup k' j).mem_erase_iff
    have hLk : ∀ {k' j}, L ∈ m.levelIds k' j → k' = k ∧ j = i := fun hx =>
      ⟨(hI.unique hL hx).1.symm, (hI.unique hL hx).2.symm⟩
    have hnodes : ∀ x, h'.nodes x = if x = L then m.heap.nodes S else m.heap.nodes x :=
      Heap.nodes_moveLevel _
    have hSne : m.heap.nodes S ≠ [] := hI.nonempty hS fun e => hSL (Option.some.inj e).symm
    refine ⟨⟨hI.descending_replaceTree hob hob' htd, hI.best_replaceTree hob hob' hbi _, fun k' j => ?_,
      fun k' j => ?_, fun hx hx' => hI.unique (hmem.1 hx).2 (hmem.1 hx').2,
      fun hx => hI.level_lt (hmem.1 hx).2, fun {k' j x} hx _ => ?_, fun {k' j x} hx => ?_,
      fun {k' j x} hx => ?_, fun {k' j x b} hx hb => ?_, fun {k' j x} hx => ?_,
      fun hb => ?_⟩, fun b => Heap.moveLevel_order _ b⟩
    · -- sorted
      rw [hlev]
      split_ifs with hkj
      · have hs := hI.sorted k i
        rw [hold] at hs
        rw [ht, hkj.2]
        refine Tree.sorted_replace hs (fun x hx => ?_) (by rw [Heap.price_moveLevel, if_pos rfl])
        rw [Heap.price_moveLevel, if_neg]
        rintro rfl
        exact (List.mem_append.1 hx).elim hL₁ hL₃
      · refine (hI.sorted k' j).congr fun x hx => ?_
        rw [Heap.price_moveLevel, if_neg]
        rintro rfl
        exact hkj (hLk hx)
    · rw [hE]; exact (hI.nodup k' j).erase S
    · -- nonempty
      rw [hnodes]
      split_ifs with hxL
      · exact hSne
      · exact hI.nonempty (hmem.1 hx).2 fun e => hxL (Option.some.inj e).symm
    · -- nodes_nodup
      rw [hnodes]
      split_ifs with hxL
      · exact hI.nodes_nodup hS
      · exact hI.nodes_nodup (hmem.1 hx).2
    · -- counts
      by_cases hxL : x = L
      · subst hxL
        exact (hI.counts hS).of_eq (by rw [Heap.moveLevel_levelNodes, if_pos rfl])
          fun b _ => Heap.moveLevel_order _ b
      · exact (hI.counts (hmem.1 hx).2).of_eq (by rw [Heap.moveLevel_levelNodes, if_neg hxL])
          fun b _ => Heap.moveLevel_order _ b
    · -- linked
      rw [hnodes] at hb
      split_ifs at hb with hxL
      · subst hxL
        obtain ⟨rfl, rfl⟩ := hLk (hmem.1 hx).2
        exact (hI.linked hS hb).moveLevel_of_mem hb
      · have l := hI.linked (hmem.1 hx).2 hb
        refine l.moveLevel_of_not_mem (fun hbS => (hmem.1 hx).1 ?_) hxL
        exact Option.some.inj (l.level.symm.trans (hI.linked hS hbS).level)
    · -- fifo
      rw [hnodes]
      split_ifs with hxL
      · simpa only [h', Heap.moveLevel_placed] using hI.fifo hS
      · simpa only [h', Heap.moveLevel_placed] using hI.fifo (hmem.1 hx).2
    · -- registered
      have r := hI.registered hb
      refine ⟨by simpa [h'] using r.id, r.lt, fun hne => ?_, fun e {k' j x} hx => ?_⟩
      · obtain ⟨x, hx, hbx⟩ := r.placed hne
        simp only [h', Heap.moveLevel_order]
        by_cases hxS : x = S
        · subst hxS
          obtain ⟨hk', hj'⟩ := hI.unique hS hx
          refine ⟨L, hmem.2 ⟨hSL.symm, hk' ▸ hj' ▸ hL⟩, ?_⟩
          rw [hnodes, if_pos rfl]; exact hbx
        · refine ⟨x, hmem.2 ⟨hxS, hx⟩, ?_⟩
          rw [hnodes, if_neg fun e => by rw [e, hempty] at hbx; cases hbx]
          exact hbx
      · rw [hnodes]
        split_ifs
        · exact r.detached e hS
        · exact r.detached e (hmem.1 hx).2

/-- `DeleteOrder` finally clears the free order's level pointer.
Source: `orderbook.go` `(*OrderBook).DeleteOrder` (`order.Level = nil`)
Kind: L -/
theorem detach (hI : Inv m (some a) none) (hr : m.orders (m.heap.orderNodes a).order.id = some a) :
    Inv { m with heap := m.heap.setOrderNode a { m.heap.orderNodes a with level := none } }
      (some a) none := by
  have hfree : ∀ {k i x}, x ∈ m.levelIds k i → a ∉ m.heap.nodes x :=
    (hI.registered hr).detached rfl
  have hne : ∀ {k i x b}, x ∈ m.levelIds k i → b ∈ m.heap.nodes x → b ≠ a :=
    fun hx hb e => hfree hx (e ▸ hb)
  refine ⟨hI.descending, hI.best, hI.sorted, hI.nodup, hI.unique, hI.level_lt, hI.nonempty,
    hI.nodes_nodup, fun hx => (hI.counts hx).of_eq rfl fun b _ => by simp,
    fun hx hb => (hI.linked hx hb).setOrderNode _ (hne hx hb), fun hx => ?_, fun hb => ?_⟩
  · refine (hI.fifo hx).imp_of_mem fun hb hc h => ?_
    simpa [Function.update_noteq (hne hx hb), Function.update_noteq (hne hx hc)] using h
  · have r := hI.registered hb
    exact ⟨by simpa using r.id, r.lt, fun hne => by simpa using r.placed hne, r.detached⟩

/-- `ob.DeleteOrder(order)` on the order's own book takes a registered order off the book: it
becomes the free order, still registered, and no order value changes.
Source: `orderbook.go` `(*OrderBook).DeleteOrder`
Kind: L -/
theorem bookDeleteOrder {m' : MarketManager} {id : UInt64} {key : UInt32} (hI : Inv m none none)
    (hr : m.orders id = some a) (hk : (m.heap.orderNodes a).order.symbolID = key)
    (hb : m.bookDeleteOrder key a = some m') :
    Inv m' (some a) none ∧ m'.orders = m.orders ∧
      ∀ b, (m'.heap.orderNodes b).order = (m.heap.orderNodes b).order := by
  subst hk
  have r := hI.registered hr
  obtain ⟨L, hL, ha⟩ := r.placed nofun
  have l := hI.linked hL ha
  obtain ⟨ob, hob, hb⟩ := Option.bind_eq_some.1 hb
  obtain ⟨⟨ob', h'⟩, hd, hb⟩ := Option.bind_eq_some.1 hb
  cases hb
  obtain ⟨L', h₂, hL', rfl, hcase⟩ := OrderBook.deleteOrder_spec hd
  rw [l.level] at hL'
  cases hL'
  have hI₁ := hI.unlinkOrder hL ha
  have hc := hI₁.counts hL
  have hlen : ((m.heap.unlinkOrder L a).nodes L).length < 2 ^ 64 := by
    rw [Heap.nodes_unlinkOrder, if_pos rfl, List.length_erase_of_mem ha]
    have := hI.length_le hL
    have := List.length_pos_of_mem ha
    omega
  have hr' : ∀ {h₂ : Heap}, (h₂.orderNodes a).order = (m.heap.orderNodes a).order →
      m.orders (h₂.orderNodes a).order.id = some a := fun e => by rw [e, r.id]; exact hr
  rcases hcase with ⟨hemp, hdl⟩ | ⟨hne, rfl, rfl⟩
  · obtain ⟨hI₂, ho⟩ := hI₁.deleteLevel hob hL l.level l.index ((hc.empty_iff hlen).1 hemp) hdl
    exact ⟨hI₂.detach (hr' (ho a)), rfl, fun b => (Heap.order_update_level h₂ none b).trans (ho b)⟩
  · have hne' : (m.heap.unlinkOrder L a).nodes L ≠ [] := fun h => by
      rw [(hc.empty_iff hlen).2 h] at hne; cases hne
    rw [← hob, Function.update_eq_self]
    exact ⟨(hI₁.close hne').detach (hr' rfl), rfl, fun b => by simp⟩

/-- `ob.AddOrder(order)` on the order's own book puts the registered free order on the book.
Source: `orderbook.go` `(*OrderBook).AddOrder`
Kind: L -/
theorem bookAddOrder {m' : MarketManager} {key : UInt32} (hI : Inv m (some a) none)
    (hr : m.orders (m.heap.orderNodes a).order.id = some a)
    (hk : (m.heap.orderNodes a).order.symbolID = key) (hb : m.bookAddOrder key a = some m') :
    Inv m' none none := by
  subst hk
  obtain ⟨ob, hob, hb⟩ := Option.bind_eq_some.1 hb
  obtain ⟨⟨ob', h'⟩, ha, hb⟩ := Option.bind_eq_some.1 hb
  cases hb
  obtain ⟨h₁, L, rfl, ⟨hf, rfl, rfl⟩ | ⟨hf, hadd⟩⟩ := OrderBook.addOrder_spec ha
  · obtain ⟨hL, hpL⟩ := (hI.find_eq_some_iff hob _ _).1 hf
    rw [← hob, Function.update_eq_self]
    exact (hI.reopen (some L)).linkOrder hL rfl hpL.symm rfl hr
  · obtain ⟨hI', hL, hpL, ho⟩ := hI.addLevel hob hf hadd
    exact hI'.linkOrder hL (by simp [ho]) (by simp [ho, hpL]) (by simp [ho]) (by simpa [ho] using hr)

end Inv

end GoTrader.Matching
