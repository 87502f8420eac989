import GoTrader.Matching.Run
import GoTrader.Matching.OrderBookSpec

/-!
# The engine invariant

`Inv m free opened` ties the registry, the books' trees, the level lists and the nodes'
back-pointers together. Between two operations it holds with `free = none` and
`opened = none`; inside one, `free` is the one registered order that has been taken off the
book and not yet put back, and `opened` the one level whose list may be empty (just created,
or just emptied).

* `Linked orders h k i L a` — order node `a`, in the list of level `L` of tree `i` of book `k`, points
  back at `L`, is routed to `i` at `L`'s price, belongs to book `k`, is registered under its
  id, and carries a stamp below the placement clock.
* `Counts h L` — `L`'s `Size`, `Orders` and volume counters are the count and the sums over its
  list, in `uint64` arithmetic.
* `Registered m free id a` — a registered node carries its key as id and sits in exactly the
  level its type, side and price select (or, when it is `free`, in no list).
-/

namespace GoTrader.Matching

/-- The level nodes of tree `i` of the book under `k`, in order; none without a book.
Source: none: infrastructure
Kind: D -/
def MarketManager.levelIds (m : MarketManager) (k : UInt32) (i : LevelIndex) : List Nat :=
  match m.orderBooks k with
  | some ob => (ob.levels i).root.ids
  | none => []

/-- A level's counters agree with its list, modulo `2^64`.
Source: `orderbook.go` (`AddOrder`, `ReduceOrder`, `DeleteOrder` counter updates)
Kind: D -/
structure Counts (h : Heap) (L : Nat) : Prop where
  size : (h.levelNodes L).orderList.size = UInt64.ofNat (h.nodes L).length
  orders : (h.levelNodes L).level.orders = UInt64.ofNat (h.nodes L).length
  total : (h.levelNodes L).level.totalVolume =
    ((h.nodes L).map fun a => (h.orderNodes a).order.leavesQuantity).sum
  hidden : (h.levelNodes L).level.hiddenVolume =
    ((h.nodes L).map fun a => (h.orderNodes a).order.hiddenQuantity).sum
  visible : (h.levelNodes L).level.visibleVolume =
    ((h.nodes L).map fun a => (h.orderNodes a).order.visibleQuantity).sum

/-- Order node `a` is correctly linked in level `L` of tree `i` of book `k`.
Source: `orderbook.go` `(*OrderBook).AddOrder`
Kind: D -/
structure Linked (orders : UInt64 → Option Nat) (h : Heap) (k : UInt32) (i : LevelIndex)
    (L a : Nat) : Prop where
  level : (h.orderNodes a).level = some L
  index : LevelIndex.ofOrder (h.orderNodes a).order = i
  price : routingPrice (h.orderNodes a).order = h.price L
  symbol : (h.orderNodes a).order.symbolID = k
  registered : orders (h.orderNodes a).order.id = some a
  placed : (h.orderNodes a).placed < h.clock

/-- A registry entry `id ↦ a` is consistent.
Source: `market_manager.go` `MarketManager.orders`
Kind: D -/
structure Registered (m : MarketManager) (free : Option Nat) (id : UInt64) (a : Nat) : Prop where
  id : (m.heap.orderNodes a).order.id = id
  lt : a < m.heap.next
  placed : free ≠ some a → ∃ L, L ∈ m.levelIds (m.heap.orderNodes a).order.symbolID
    (LevelIndex.ofOrder (m.heap.orderNodes a).order) ∧ a ∈ m.heap.nodes L
  detached : free = some a → ∀ {k i L}, L ∈ m.levelIds k i → a ∉ m.heap.nodes L

/-- The engine invariant (see the module doc).
Source: `market_manager.go`, `orderbook.go`, `avltree.go`
Kind: D -/
structure Inv (m : MarketManager) (free opened : Option Nat) : Prop where
  descending : ∀ {k ob} (i : LevelIndex), m.orderBooks k = some ob →
    (ob.levels i).descending = i.descending
  best : ∀ {k ob} (i : LevelIndex), m.orderBooks k = some ob →
    ob.best i = (m.levelIds k i).head?
  sorted : ∀ k i, Tree.Sorted m.heap.price i.descending (m.levelIds k i)
  nodup : ∀ k i, (m.levelIds k i).Nodup
  unique : ∀ {k i k' i' L}, L ∈ m.levelIds k i → L ∈ m.levelIds k' i' → k = k' ∧ i = i'
  level_lt : ∀ {k i L}, L ∈ m.levelIds k i → L < m.heap.next
  nonempty : ∀ {k i L}, L ∈ m.levelIds k i → opened ≠ some L → m.heap.nodes L ≠ []
  nodes_nodup : ∀ {k i L}, L ∈ m.levelIds k i → (m.heap.nodes L).Nodup
  counts : ∀ {k i L}, L ∈ m.levelIds k i → Counts m.heap L
  linked : ∀ {k i L a}, L ∈ m.levelIds k i → a ∈ m.heap.nodes L → Linked m.orders m.heap k i L a
  fifo : ∀ {k i L}, L ∈ m.levelIds k i → (m.heap.nodes L).Pairwise
    fun a b => (m.heap.orderNodes a).placed < (m.heap.orderNodes b).placed
  registered : ∀ {id a}, m.orders id = some a → Registered m free id a

namespace MarketManager

variable {m : MarketManager} {key k : UInt32} {ob ob' : OrderBook}

@[simp] theorem levelIds_call (m : MarketManager) (c : HandlerCall) :
    (m.call c).levelIds = m.levelIds := rfl

@[simp] theorem levelIds_heap (m : MarketManager) (h : Heap) :
    ({ m with heap := h } : MarketManager).levelIds = m.levelIds := rfl

@[simp] theorem levelIds_orders (m : MarketManager) (o : UInt64 → Option Nat) :
    ({ m with orders := o } : MarketManager).levelIds = m.levelIds := rfl

theorem levelIds_of_some (hob : m.orderBooks k = some ob) (i : LevelIndex) :
    m.levelIds k i = (ob.levels i).root.ids := by
  simp only [levelIds, hob]

theorem levelIds_update (m : MarketManager) (key : UInt32) (ob : Option OrderBook)
    (k : UInt32) (i : LevelIndex) :
    ({ m with orderBooks := Function.update m.orderBooks key ob } : MarketManager).levelIds k i =
      if k = key then (match ob with | some ob => (ob.levels i).root.ids | none => [])
      else m.levelIds k i := by
  unfold levelIds
  split_ifs with h
  · subst h; simp
  · simp [Function.update_noteq h]

/-- Writing back a book that differs from the stored one in tree `i` only changes the levels
of that tree.
Source: none: infrastructure
Kind: L -/
theorem levelIds_replace (hob : m.orderBooks key = some ob) (i : LevelIndex)
    (hj : ∀ j, j ≠ i → ob'.levels j = ob.levels j) (h : Heap) (k : UInt32) (j : LevelIndex) :
    ({ m with heap := h, orderBooks := Function.update m.orderBooks key (some ob') } :
        MarketManager).levelIds k j =
      if k = key ∧ j = i then (ob'.levels i).root.ids else m.levelIds k j := by
  have := levelIds_update { m with heap := h } key (some ob') k j
  simp only [levelIds_heap] at this
  rw [this]
  by_cases hk : k = key
  · subst hk
    by_cases hji : j = i
    · subst hji; simp
    · simp [hji, hj j hji, levelIds_of_some hob]
  · simp [hk]

/-- `levelIds_replace` for the book `AddLevel` and `DeleteLevel` write back: tree `i` set to `t`
and a best pointer re-seated.
Source: `orderbook.go` `(*OrderBook).AddLevel`, `(*OrderBook).DeleteLevel`
Kind: L -/
theorem levelIds_replaceTree {t : AVLTree} {p : Option Nat} (hob : m.orderBooks key = some ob)
    {i : LevelIndex} (hob' : ob' = (ob.setLevels i t).setBest i p) (h : Heap) (k : UInt32)
    (j : LevelIndex) :
    ({ m with heap := h, orderBooks := Function.update m.orderBooks key (some ob') } :
        MarketManager).levelIds k j =
      if k = key ∧ j = i then t.root.ids else m.levelIds k j := by
  subst hob'
  rw [levelIds_replace hob i (fun j hj => by
      rw [OrderBook.levels_setBest, OrderBook.levels_setLevels, if_neg hj]) h k j,
    OrderBook.levels_setBest, OrderBook.levels_setLevels, if_pos rfl]

end MarketManager

/-! ## Counters and links under heap updates -/

/-- `Counts` depends only on the level node and the orders in its list.
Source: none: infrastructure
Kind: L -/
theorem Counts.of_eq {h h' : Heap} {x y : Nat} (hc : Counts h x)
    (hl : h'.levelNodes y = h.levelNodes x)
    (ho : ∀ b ∈ h.nodes x, (h'.orderNodes b).order = (h.orderNodes b).order) : Counts h' y := by
  have hn : h'.nodes y = h.nodes x := by simp only [Heap.nodes, hl]
  have hm : ∀ f : Order → UInt64, (h'.nodes y).map (fun b => f (h'.orderNodes b).order) =
      (h.nodes x).map (fun b => f (h.orderNodes b).order) := fun f => by
    rw [hn]; exact List.map_congr_left fun b hb => by rw [ho b hb]
  exact ⟨by rw [hl, hn]; exact hc.size, by rw [hl, hn]; exact hc.orders,
    by rw [hl, hm Order.leavesQuantity]; exact hc.total,
    by rw [hl, hm Order.hiddenQuantity]; exact hc.hidden,
    by rw [hl, hm Order.visibleQuantity]; exact hc.visible⟩

/-! ## The initial state -/

/-- `NewMarketManager()` satisfies the invariant: it has no book and no order.
Source: `market_manager.go` `NewMarketManager`
Kind: L -/
theorem Inv.init : Inv MarketManager.newMarketManager none none where
  descending := by intro _ _ _ h; cases h
  best := by intro _ _ _ h; cases h
  sorted := fun _ _ => List.Pairwise.nil
  nodup := fun _ _ => List.nodup_nil
  unique := fun h => absurd h (List.not_mem_nil _)
  level_lt := fun h => absurd h (List.not_mem_nil _)
  nonempty := fun h => absurd h (List.not_mem_nil _)
  nodes_nodup := fun h => absurd h (List.not_mem_nil _)
  counts := fun h => absurd h (List.not_mem_nil _)
  linked := fun h => absurd h (List.not_mem_nil _)
  fifo := fun h => absurd h (List.not_mem_nil _)
  registered := fun h => by cases h

/-- A link survives any update that keeps the node, the level's price and the registry entry,
and does not turn the clock back.
Source: none: infrastructure
Kind: L -/
theorem Linked.of_eq {o o' : UInt64 → Option Nat} {h h' : Heap} {k : UInt32} {i : LevelIndex}
    {x b : Nat} (l : Linked o h k i x b) (hb : h'.orderNodes b = h.orderNodes b)
    (hp : h'.price x = h.price x) (hr : o' (h.orderNodes b).order.id = some b)
    (hc : h.clock ≤ h'.clock) : Linked o' h' k i x b := by
  obtain ⟨l1, l2, l3, l4, -, l6⟩ := l
  rw [← hb, ← hp] at *
  exact ⟨l1, l2, l3, l4, hr, Nat.lt_of_lt_of_le l6 hc⟩

/-! ## Frame: what the invariant reads -/

namespace Inv

variable {m m' : MarketManager} {free opened : Option Nat}

/-- The invariant reads only the books, the registry and the heap.
Source: none: infrastructure
Kind: L -/
theorem congr (h : Inv m free opened) (hb : m'.orderBooks = m.orderBooks)
    (ho : m'.orders = m.orders) (hh : m'.heap = m.heap) : Inv m' free opened := by
  obtain ⟨_, _, B, O, _, H⟩ := m
  obtain ⟨_, _, B', O', _, H'⟩ := m'
  cases hb; cases ho; cases hh
  obtain ⟨h1, h2, h3, h4, h5, h6, h7, h8, h9, h10, h11, h12⟩ := h
  refine ⟨h1, h2, h3, h4, h5, h6, h7, h8, h9, h10, h11, fun hr => ?_⟩
  obtain ⟨r1, r2, r3, r4⟩ := h12 hr
  exact ⟨r1, r2, r3, r4⟩

theorem call (h : Inv m free opened) (c : HandlerCall) : Inv (m.call c) free opened :=
  h.congr rfl rfl rfl

/-- The invariant does not read the symbol registry. Source: none. Kind: L -/
theorem withSymbols (h : Inv m free opened) (s : UInt32 → Option Symbol) :
    Inv { m with symbols := s } free opened :=
  h.congr rfl rfl rfl

/-- The invariant does not read the matching flag. Source: none. Kind: L -/
theorem withMatching (h : Inv m free opened) (b : Bool) : Inv { m with matching := b } free opened :=
  h.congr rfl rfl rfl

/-- Any level may be declared the one allowed to be empty.
Source: none: infrastructure
Kind: L -/
theorem reopen (h : Inv m free none) (opened : Option Nat) : Inv m free opened :=
  { h with nonempty := fun hx _ => h.nonempty hx nofun }

/-- The level allowed to be empty no longer is.
Source: none: infrastructure
Kind: L -/
theorem close {L : Nat} (h : Inv m free (some L)) (hL : m.heap.nodes L ≠ []) :
    Inv m free none :=
  { h with nonempty := fun {_ _ x} hx _ =>
      if e : x = L then e ▸ hL else h.nonempty hx fun h' => e (Option.some.inj h').symm }

/-- `Find(price)` on a tree of a book returns the level of that price, if the tree has one.
Source: `avltree.go` `(*AVLTree).Find`
Kind: L -/
theorem find_eq_some_iff (h : Inv m free opened) {k : UInt32} {ob : OrderBook}
    (hob : m.orderBooks k = some ob) (i : LevelIndex) (p : UInt64) {L : Nat} :
    (ob.levels i).find m.heap.price p = some L ↔ L ∈ m.levelIds k i ∧ m.heap.price L = p := by
  have hs := h.sorted k i
  rw [MarketManager.levelIds_of_some hob, ← h.descending i hob] at hs
  rw [MarketManager.levelIds_of_some hob]
  exact Tree.find_eq_some_iff hs

end Inv

namespace MarketManager

/-- `updateLevel` only calls the handler.
Source: `market_manager.go` `updateLevel`
Kind: L -/
theorem updateLevel_eq {m m' : MarketManager} {ob : Option OrderBook} {a : Nat} {u : UpdateType}
    (h : m.updateLevel ob a u = some m') : ∃ cs, m' = { m with handler := m.handler ++ cs } := by
  unfold updateLevel at h
  dsimp only at h
  split at h
  · cases h; exact ⟨[], by simp⟩
  · cases ob with
    | none => cases h
    | some ob => cases u <;> (cases h; exact ⟨_, by simp [call]; rfl⟩)

end MarketManager

/-- `updateLevel` keeps the invariant.
Source: `market_manager.go` `updateLevel`
Kind: L -/
theorem Inv.updateLevel {m m' : MarketManager} {free opened : Option Nat} {ob : Option OrderBook}
    {a : Nat} {u : UpdateType} (h : Inv m free opened) (hu : m.updateLevel ob a u = some m') :
    Inv m' free opened := by
  obtain ⟨cs, rfl⟩ := MarketManager.updateLevel_eq hu
  exact h.congr rfl rfl rfl

end GoTrader.Matching
