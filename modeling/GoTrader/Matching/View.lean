import GoTrader.Matching.InvariantRun

/-!
# The books as the design sees them

The design's account of a book (`spec.md` §3): each tree is a sequence of levels in tree
order, each level a price and a FIFO list of orders. `MarketManager.view` reads that off the
heap; this module says what the operations that take orders off the book do to it.

* `View.erase a` — order `a` leaves its level, and a level left empty leaves the tree;
  `View.count` is the number of orders in a tree, which `erase` lowers by one for an order
  that rests there.
* `Inv.view_bookDeleteOrder` — `ob.DeleteOrder(order)` is `View.erase` on every tree of every
  book, including `AVLTree.Remove`'s two-child case, which moves the successor's list into the
  removed level's node.
* `Inv.view_bookAddOrder_of_ne` — `ob.AddOrder(order)` leaves every other tree alone.
* `Inv.view_executeOrderNode`, `Inv.view_deleteOrder` — a fill erases the order exactly when
  it is filled; `DeleteOrder` erases it.
-/

namespace GoTrader.Matching

/-- Tree `i` of the book under `k`: its levels in order, each with its price and its list.
Source: none: the design's view of a book (`spec.md` §3)
Kind: D -/
def MarketManager.view (m : MarketManager) (k : UInt32) (i : LevelIndex) :
    List (UInt64 × List Nat) :=
  (m.levelIds k i).map fun L => (m.heap.price L, m.heap.nodes L)

/-- The view reads only the books, the level prices and the level lists.
Source: none: infrastructure
Kind: L -/
theorem MarketManager.view_congr {m m' : MarketManager} (hb : m'.orderBooks = m.orderBooks)
    (hp : m'.heap.price = m.heap.price) (hn : m'.heap.nodes = m.heap.nodes) : m'.view = m.view := by
  funext k i
  simp only [MarketManager.view, MarketManager.levelIds, hb, hp, hn]

namespace Inv

open MarketManager

variable {m : MarketManager} {free opened : Option Nat}

/-- A level of a tree of book `k` lies in a book that exists.
Source: none: infrastructure
Kind: L -/
theorem isSome_of_mem_levelIds {k : UInt32} {i : LevelIndex} {L : Nat} (hL : L ∈ m.levelIds k i) :
    (m.orderBooks k).isSome := by
  unfold levelIds at hL
  split at hL
  · simp [*]
  · cases hL

/-- An order node lies in one level list only, whichever tree holds it.
Source: none: infrastructure
Kind: L -/
theorem level_unique (hI : Inv m free opened) {k k' : UInt32} {i i' : LevelIndex} {L L' a : Nat}
    (hL : L ∈ m.levelIds k i) (ha : a ∈ m.heap.nodes L) (hL' : L' ∈ m.levelIds k' i')
    (ha' : a ∈ m.heap.nodes L') : L' = L :=
  Option.some.inj ((hI.linked hL' ha').level.symm.trans (hI.linked hL ha).level)

/-- The first level of a tree comes before every other one in the tree's direction.
Source: none: infrastructure
Kind: L -/
theorem head_precedes (hI : Inv m free opened) {k : UInt32} {i : LevelIndex} {b L : Nat}
    (hb : (m.levelIds k i).head? = some b) (hL : L ∈ m.levelIds k i) (hne : L ≠ b) :
    AVLTree.precedes i.descending (m.heap.price b) (m.heap.price L) := by
  have hs := hI.sorted k i
  rcases hids : m.levelIds k i with _ | ⟨c, l⟩
  · rw [hids] at hb; cases hb
  · rw [hids] at hb hL hs
    cases hb
    exact List.rel_of_pairwise_cons hs ((List.mem_cons.1 hL).resolve_left hne)

end Inv

namespace View

/-- Order `a` leaves its level; a level left empty leaves the tree.
Source: none: the design's `delete_order` (`spec.md` §4.4)
Kind: D -/
def erase (a : Nat) (v : List (UInt64 × List Nat)) : List (UInt64 × List Nat) :=
  (v.map fun e => (e.1, e.2.erase a)).filter fun e => !e.2.isEmpty

/-- The number of orders resting in a tree. Source: none. Kind: D -/
def count (v : List (UInt64 × List Nat)) : Nat := (v.map fun e => e.2.length).sum

@[simp] theorem erase_nil (a : Nat) : erase a [] = [] := rfl

theorem erase_cons (a : Nat) (e : UInt64 × List Nat) (v : List (UInt64 × List Nat)) :
    erase a (e :: v) =
      if (e.2.erase a).isEmpty then erase a v else (e.1, e.2.erase a) :: erase a v := by
  unfold erase
  rw [List.map_cons, List.filter_cons]
  split_ifs <;> simp_all

@[simp] theorem count_nil : count [] = 0 := rfl

@[simp] theorem count_cons (e : UInt64 × List Nat) (v : List (UInt64 × List Nat)) :
    count (e :: v) = e.2.length + count v := by
  simp [count]

theorem count_erase_le (a : Nat) : ∀ v, count (erase a v) ≤ count v
  | [] => le_rfl
  | e :: v => by
    have := count_erase_le a v
    have := List.length_erase_le a e.2
    rw [erase_cons]
    split_ifs <;> simp only [count_cons] <;> omega

/-- Erasing an order that rests in the tree lowers the count. Source: none. Kind: L -/
theorem count_erase_lt (a : Nat) : ∀ v, (∃ e ∈ v, a ∈ e.2) → count (erase a v) < count v
  | [] => by simp
  | e :: v => by
    intro ha
    have hle := count_erase_le a v
    rw [erase_cons]
    by_cases hae : a ∈ e.2
    · have := List.length_erase_of_mem hae
      have := List.length_pos_of_mem hae
      split_ifs <;> simp only [count_cons] <;> omega
    · obtain ⟨e', he', hae'⟩ := ha
      have hlt := count_erase_lt a v
        ⟨e', (List.mem_cons.1 he').resolve_left (by rintro rfl; exact hae hae'), hae'⟩
      have := List.length_erase_le a e.2
      split_ifs <;> simp only [count_cons] <;> omega

/-- Every level left by `erase` has a price the tree had. Source: none. Kind: L -/
theorem price_mem_of_mem_erase {a : Nat} {v : List (UInt64 × List Nat)}
    {e : UInt64 × List Nat} (he : e ∈ erase a v) : ∃ l, (e.1, l) ∈ v := by
  obtain ⟨⟨p, l⟩, hl, rfl⟩ := List.mem_map.1 (List.mem_filter.1 he).1
  exact ⟨l, hl⟩

/-- A tree whose levels are all non-empty and do not hold `a` is unchanged by `erase a`.
Source: none. Kind: L -/
theorem erase_eq_self {a : Nat} :
    ∀ {v : List (UInt64 × List Nat)}, (∀ e ∈ v, a ∉ e.2 ∧ e.2 ≠ []) → erase a v = v
  | [], _ => rfl
  | e :: v, h => by
    obtain ⟨ha, hne⟩ := h e (List.mem_cons_self _ _)
    rw [erase_cons, List.erase_of_not_mem ha,
      erase_eq_self fun e' he' => h e' (List.mem_cons_of_mem _ he')]
    cases e with
    | mk p l => cases l with
      | nil => exact absurd rfl hne
      | cons x l => rfl

end View

namespace Inv

open MarketManager

variable {m : MarketManager} {a L : Nat} {k : UInt32} {i : LevelIndex}

/-- With every level but `L` non-empty and `L` empty, dropping the empty levels drops `L`.
Source: none: infrastructure
Kind: L -/
theorem filter_view {free : Option Nat} (hI : Inv m free (some L)) (hempty : m.heap.nodes L = [])
    (k : UInt32) (j : LevelIndex) :
    (m.view k j).filter (fun e => !e.2.isEmpty) =
      ((m.levelIds k j).erase L).map fun x => (m.heap.price x, m.heap.nodes x) := by
  rw [view, List.filter_map, (hI.nodup k j).erase_eq_filter]
  congr 1
  refine List.filter_congr fun x hx => ?_
  by_cases hxL : x = L
  · simp [hxL, hempty]
  · have hne := hI.nonempty hx fun e => hxL (Option.some.inj e).symm
    cases hnx : m.heap.nodes x
    · exact absurd hnx hne
    · simp [hxL, hnx]

/-- `DeleteLevel` on the emptied level `L` drops it from the view of every tree: in the
two-child case the successor `S`'s payload, moved into `L`'s node, stands where `S` stood.
Source: `orderbook.go` `(*OrderBook).DeleteLevel`; `avltree.go` `(*AVLTree).Remove`
Kind: L -/
theorem view_deleteLevel {ob ob' : OrderBook} {n : OrderNode} {h' : Heap}
    (hI : Inv m (some a) (some L)) (hob : m.orderBooks k = some ob) (hL : L ∈ m.levelIds k i)
    (hn : n.level = some L) (hi : LevelIndex.ofOrder n.order = i) (hempty : m.heap.nodes L = [])
    (hd : ob.deleteLevel m.heap n = some (ob', h')) (k' : UInt32) (j : LevelIndex) :
    ({ m with heap := h', orderBooks := Function.update m.orderBooks k (some ob') } :
        MarketManager).view k' j =
      (m.view k' j).filter fun e => !e.2.isEmpty := by
  obtain ⟨t, hrem, hob'⟩ := OrderBook.deleteLevel_spec hn hd
  rw [hi] at hrem hob'
  obtain ⟨-, l₁, l₂, e, hcase⟩ := AVLTree.remove_spec hrem
  have hold := levelIds_of_some hob i
  rw [e] at hold
  have hnd := hI.nodup k i
  rw [hold] at hnd
  have hL₁ : L ∉ l₁ := fun h => (List.nodup_cons.1 (List.nodup_middle.1 hnd)).1
    (List.mem_append_left _ h)
  have hL₂ : L ∉ l₂ := fun h => (List.nodup_cons.1 (List.nodup_middle.1 hnd)).1
    (List.mem_append_right _ h)
  have hlev := fun hh => levelIds_replaceTree (m := m) hob hob' hh k' j
  have hother : ¬ (k' = k ∧ j = i) → L ∉ m.levelIds k' j := fun hkj hx =>
    hkj ⟨(hI.unique hx hL).1, (hI.unique hx hL).2⟩
  rw [hI.filter_view hempty, view, hlev]
  rcases hcase with ⟨rfl, ht⟩ | ⟨S, l₃, rfl, rfl, ht⟩
  · split_ifs with hkj
    · rw [ht, hkj.1, hkj.2, hold, List.erase_append_right _ hL₁, List.erase_cons_head]
    · rw [List.erase_of_not_mem (hother hkj)]
  · have hf : ∀ x, x ≠ L → ((m.heap.moveLevel S L).price x, (m.heap.moveLevel S L).nodes x) =
        (m.heap.price x, m.heap.nodes x) := fun x hx => by
      rw [Heap.price_moveLevel, Heap.nodes_moveLevel, if_neg hx, if_neg hx]
    split_ifs with hkj
    · rw [ht, hkj.1, hkj.2, hold, List.erase_append_right _ hL₁, List.erase_cons_head,
        List.map_append, List.map_append, List.map_cons, List.map_cons,
        Heap.price_moveLevel, Heap.nodes_moveLevel, if_pos rfl, if_pos rfl,
        List.map_congr_left fun x hx => hf x fun e => hL₁ (e ▸ hx),
        List.map_congr_left fun x hx => hf x fun e => hL₂ (e ▸ List.mem_cons_of_mem _ hx)]
    · rw [List.erase_of_not_mem (hother hkj)]
      exact List.map_congr_left fun x hx => hf x fun e => hother hkj (e ▸ hx)

/-- With no level allowed to be empty, dropping the empty levels changes nothing.
Source: none: infrastructure
Kind: L -/
theorem filter_view_of_none {free : Option Nat} (hI : Inv m free none) (k : UInt32)
    (j : LevelIndex) : (m.view k j).filter (fun e => !e.2.isEmpty) = m.view k j := by
  refine List.filter_eq_self.2 fun e he => ?_
  obtain ⟨x, hx, rfl⟩ := List.mem_map.1 he
  cases hnx : m.heap.nodes x
  · exact absurd hnx (hI.nonempty hx nofun)
  · rfl

/-- Taking a linked order off its level empties the level exactly when its `uint64` counter
reads empty (the list is shorter than `2^64`).
Source: `level.go` `(*OrderList).Empty`
Kind: L -/
theorem unlinkOrder_empty_iff (hI : Inv m none none) (hL : L ∈ m.levelIds k i)
    (ha : a ∈ m.heap.nodes L) :
    ((m.heap.unlinkOrder L a).levelNodes L).orderList.empty = true ↔
      (m.heap.unlinkOrder L a).nodes L = [] := by
  refine ((hI.unlinkOrder hL ha).counts hL).empty_iff ?_
  rw [Heap.nodes_unlinkOrder, if_pos rfl, List.length_erase_of_mem ha]
  have := hI.length_le hL
  have := List.length_pos_of_mem ha
  omega

/-- `ob.DeleteOrder(order)` on a registered order's own book is `View.erase` on every tree of
every book.
Source: `orderbook.go` `(*OrderBook).DeleteOrder`
Kind: L -/
theorem view_bookDeleteOrder {m' : MarketManager} {id : UInt64} {key : UInt32}
    (hI : Inv m none none) (hr : m.orders id = some a)
    (hk : (m.heap.orderNodes a).order.symbolID = key) (hb : m.bookDeleteOrder key a = some m')
    (k : UInt32) (j : LevelIndex) : m'.view k j = View.erase a (m.view k j) := by
  subst hk
  obtain ⟨L, hL, ha⟩ := (hI.registered hr).placed nofun
  have l := hI.linked hL ha
  obtain ⟨ob, hob, hb⟩ := Option.bind_eq_some.1 hb
  obtain ⟨⟨ob', h'⟩, hd, hb⟩ := Option.bind_eq_some.1 hb
  cases hb
  obtain ⟨L', h₂, hL', rfl, hcase⟩ := OrderBook.deleteOrder_spec hd
  rw [l.level] at hL'
  cases hL'
  have hI₁ := hI.unlinkOrder hL ha
  have hv₁ : ({ m with heap := m.heap.unlinkOrder L a } : MarketManager).view k j =
      (m.view k j).map fun e => (e.1, e.2.erase a) := by
    simp only [view, levelIds_heap, List.map_map]
    refine List.map_congr_left fun x hx => ?_
    simp only [Function.comp, Heap.price_unlinkOrder, Heap.nodes_unlinkOrder]
    split_ifs with hxL
    · rw [hxL]
    · rw [List.erase_of_not_mem fun hax => hxL (hI.level_unique hL ha hx hax)]
  rw [View.erase, ← hv₁]
  change ({ m with heap := h₂, orderBooks := Function.update m.orderBooks _ (some ob') } :
    MarketManager).view k j = _
  rcases hcase with ⟨hemp, hdl⟩ | ⟨hne, rfl, rfl⟩
  · exact hI₁.view_deleteLevel hob hL l.level l.index
      ((hI.unlinkOrder_empty_iff hL ha).1 hemp) hdl k j
  · rw [← hob, Function.update_eq_self]
    exact ((hI₁.close fun h => by
      simpa [hne] using (hI.unlinkOrder_empty_iff hL ha).2 h).filter_view_of_none k j).symm

/-- A fill of `q` on a registered order leaves every tree as it was, unless it fills the order,
which then leaves its level.
Source: `market_manager.go` `executeOrder`
Kind: L -/
theorem view_executeOrderNode {m' : MarketManager} {id price q : UInt64} {e : ErrorCode}
    (hI : Inv m none none) (hr : m.orders id = some a)
    (h : m.executeOrderNode a price q = some (m', e)) (k : UInt32) (j : LevelIndex) :
    m'.view k j = if (m.heap.orderNodes a).order.leavesQuantity - q = 0
      then View.erase a (m.view k j) else m.view k j := by
  unfold MarketManager.executeOrderNode at h
  dsimp only at h
  obtain ⟨heap, hred, h⟩ := Option.bind_eq_some.1 h
  have hI₁ := hI.reduce hr hred rfl rfl rfl rfl (sub_sub_cancel _ _) rfl rfl
  obtain ⟨L, -, rfl⟩ := OrderBook.reduceOrder_spec hred
  have hv : ∀ (o : Order) (q₁ q₂ q₃ : UInt64) (m₁ : MarketManager),
      m₁.orderBooks = m.orderBooks → m₁.heap = (m.setOrder a o).heap.reduceLevel L q₁ q₂ q₃ →
      m₁.view = m.view :=
    fun _ _ _ _ m₁ hb hh => view_congr hb (by simp [hh, MarketManager.setOrder])
      (by simp [hh, MarketManager.setOrder])
  split at h
  · rename_i hfill
    obtain ⟨m₃, h₃, h⟩ := Option.bind_eq_some.1 h
    obtain ⟨m₄, h₄, h⟩ := Option.bind_eq_some.1 h
    cases h
    have hI₃ := (hI₁.call _).updateLevel h₃
    obtain ⟨cs, rfl⟩ := MarketManager.updateLevel_eq h₃
    rw [if_pos hfill]
    refine (hI₃.view_bookDeleteOrder (by simpa [MarketManager.setOrder,
      (hI.registered hr).id] using hr) (by simp [MarketManager.call, MarketManager.setOrder]) h₄
      k j).trans (congrArg (View.erase a) (congrFun (congrFun (hv _ _ _ _ _ (by rfl) (by rfl)) k) j))
  · rename_i hfill
    obtain ⟨m₃, h₃, h⟩ := Option.bind_eq_some.1 h
    cases h
    obtain ⟨cs, rfl⟩ := MarketManager.updateLevel_eq h₃
    rw [if_neg hfill]
    exact congrFun (congrFun (hv _ _ _ _ _ (by rfl) (by rfl)) k) j

/-- `DeleteOrder` takes the order off its level.
Source: `market_manager.go` `DeleteOrder`
Kind: L -/
theorem view_deleteOrder {m' : MarketManager} {id : UInt64} {e : ErrorCode}
    (hI : Inv m none none) (hr : m.orders id = some a) (h : m.deleteOrder id = some (m', e))
    (k : UInt32) (j : LevelIndex) : m'.view k j = View.erase a (m.view k j) := by
  unfold MarketManager.deleteOrder at h
  rw [hr] at h
  obtain ⟨m₁, h₁, h⟩ := Option.bind_eq_some.1 h
  obtain ⟨m₂, h₂, h⟩ := Option.bind_eq_some.1 h
  cases h
  have hI₁ := hI.updateLevel h₁
  obtain ⟨cs, rfl⟩ := MarketManager.updateLevel_eq h₁
  exact hI₁.view_bookDeleteOrder hr rfl h₂ k j

/-- `ob.AddOrder(order)` changes no tree but the one the order is routed to.
Source: `orderbook.go` `(*OrderBook).AddOrder`
Kind: L -/
theorem view_bookAddOrder_of_ne {m' : MarketManager} {key : UInt32} (hI : Inv m (some a) none)
    (hb : m.bookAddOrder key a = some m') {k : UInt32} {j : LevelIndex}
    (hkj : ¬ (k = key ∧ j = LevelIndex.ofOrder (m.heap.orderNodes a).order)) :
    m'.view k j = m.view k j := by
  obtain ⟨ob, hob, hb⟩ := Option.bind_eq_some.1 hb
  obtain ⟨⟨ob', h'⟩, ha, hb⟩ := Option.bind_eq_some.1 hb
  cases hb
  have hlink : ∀ (h₁ : Heap) (L : Nat), (∀ x ∈ m.levelIds k j, x ≠ L ∧
      h₁.price x = m.heap.price x ∧ h₁.nodes x = m.heap.nodes x) →
      (m.levelIds k j).map (fun x => ((h₁.linkOrder L a).price x, (h₁.linkOrder L a).nodes x)) =
        m.view k j := fun h₁ L hx =>
    List.map_congr_left fun x hxm => by
      obtain ⟨hxL, hp, hn⟩ := hx x hxm
      rw [Heap.price_linkOrder, Heap.nodes_linkOrder, if_neg hxL, hp, hn]
  obtain ⟨h₁, L, rfl, ⟨hf, rfl, rfl⟩ | ⟨-, hadd⟩⟩ := OrderBook.addOrder_spec ha
  · obtain ⟨hL, -⟩ := (hI.find_eq_some_iff hob _ _).1 hf
    rw [← hob, Function.update_eq_self]
    exact hlink _ _ fun x hx => ⟨fun e => hkj (hI.unique hx (e ▸ hL)), rfl, rfl⟩
  · obtain ⟨rfl, rfl, t, -, hob'⟩ := OrderBook.addLevel_spec hadd
    have hlev := levelIds_replaceTree hob hob'
      (m.heap.allocLevel (newLevelNode (LevelIndex.ofOrder (m.heap.orderNodes a).order).levelType
        (routingPrice (m.heap.orderNodes a).order)) |>.linkOrder m.heap.next a) k j
    rw [if_neg hkj] at hlev
    rw [view, hlev]
    exact hlink _ _ fun x hx => have hlt := hI.level_lt hx
      ⟨Nat.ne_of_lt hlt, by rw [Heap.price_allocLevel, if_neg (Nat.ne_of_lt hlt)],
        by rw [Heap.nodes_allocLevel, if_neg (Nat.ne_of_lt hlt)]⟩

/-- Taking an order of tree `i` of book `key` off the book changes no other tree.
Source: none. Kind: L -/
theorem erase_view_of_ne {key : UInt32} (hI : Inv m none none)
    (hL : L ∈ m.levelIds key i) (ha : a ∈ m.heap.nodes L) {k : UInt32} {j : LevelIndex}
    (hkj : ¬ (k = key ∧ j = i)) : View.erase a (m.view k j) = m.view k j := by
  refine View.erase_eq_self fun e he => ?_
  obtain ⟨L', hL', rfl⟩ := List.mem_map.1 he
  exact ⟨fun ha' => hkj (hI.unique hL' (hI.level_unique hL ha hL' ha' ▸ hL)),
    hI.nonempty hL' nofun⟩

end Inv

end GoTrader.Matching
