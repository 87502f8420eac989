import GoTrader.Matching.AVLTreeSpec
import GoTrader.Matching.OrderBook

/-!
# What the order-book methods do

One spec lemma per method, read through the in-order sequence of each tree (`Tree.ids`), the
level lists (`Heap.nodes`), the level prices (`Heap.price`) and the order values, so that the
invariant proofs never unfold a method:

* the heap updates `allocLevel`, `linkOrder`, `unlinkOrder` and `moveLevel`, field by field;
* `AVLTree.insert_spec` (the new level lands at its binary-search position) and
  `AVLTree.remove_spec` (the level leaves the sequence, or takes its successor's payload);
* `OrderBook.addLevel_spec`, `deleteLevel_spec`, `addOrder_spec`, `deleteOrder_spec` and
  `reduceOrder_spec`: which tree, which best pointer and which heap update each method makes.
-/

namespace GoTrader.Matching

/-- The node addresses of level `L`'s list, from `Head` along `Next`.
Source: `level.go` `OrderList`
Kind: D -/
def Heap.nodes (h : Heap) (L : Nat) : List Nat := (h.levelNodes L).orderList.nodes

namespace Heap

variable (h : Heap) {L S a b x : Nat}

@[simp] theorem nodes_setOrderNode (n : OrderNode) : (h.setOrderNode a n).nodes = h.nodes := rfl
@[simp] theorem price_setOrderNode (n : OrderNode) : (h.setOrderNode a n).price = h.price := rfl

/-- Rewriting a node's level pointer leaves every order value alone. -/
@[simp] theorem order_update_level (l : Option Nat) (b : Nat) :
    (Function.update h.orderNodes a { h.orderNodes a with level := l } b).order =
      (h.orderNodes b).order := by
  rw [Function.update_apply]; split_ifs with e <;> simp [e]

/-! ## Allocating an order -/

@[simp] theorem allocOrder_orderNodes (o : Order) :
    (h.allocOrder o).orderNodes = Function.update h.orderNodes h.next ⟨o, none, 0⟩ := rfl
@[simp] theorem allocOrder_levelNodes (o : Order) :
    (h.allocOrder o).levelNodes = h.levelNodes := rfl
@[simp] theorem allocOrder_next (o : Order) : (h.allocOrder o).next = h.next + 1 := rfl
@[simp] theorem allocOrder_clock (o : Order) : (h.allocOrder o).clock = h.clock := rfl

/-! ## Allocating a level -/

@[simp] theorem allocLevel_orderNodes (n : LevelNode) :
    (h.allocLevel n).orderNodes = h.orderNodes := rfl
@[simp] theorem allocLevel_next (n : LevelNode) : (h.allocLevel n).next = h.next + 1 := rfl
@[simp] theorem allocLevel_clock (n : LevelNode) : (h.allocLevel n).clock = h.clock := rfl

theorem allocLevel_levelNodes (n : LevelNode) (x : Nat) :
    (h.allocLevel n).levelNodes x = if x = h.next then n else h.levelNodes x :=
  Function.update_apply _ _ _ _

theorem allocLevel_levelNodes_of_lt (n : LevelNode) (hx : x < h.next) :
    (h.allocLevel n).levelNodes x = h.levelNodes x := by
  rw [allocLevel_levelNodes, if_neg (Nat.ne_of_lt hx)]

theorem price_allocLevel (n : LevelNode) (x : Nat) :
    (h.allocLevel n).price x = if x = h.next then n.level.price else h.price x := by
  simp only [price, allocLevel_levelNodes]; split_ifs <;> rfl

theorem nodes_allocLevel (n : LevelNode) (x : Nat) :
    (h.allocLevel n).nodes x = if x = h.next then n.orderList.nodes else h.nodes x := by
  simp only [nodes, allocLevel_levelNodes]; split_ifs <;> rfl

/-! ## Linking and unlinking an order -/

@[simp] theorem linkOrder_next : (h.linkOrder L a).next = h.next := rfl
@[simp] theorem linkOrder_clock : (h.linkOrder L a).clock = h.clock + 1 := rfl

theorem linkOrder_levelNodes (x : Nat) :
    (h.linkOrder L a).levelNodes x = if x = L then
      { level := { (h.levelNodes L).level with
          totalVolume := (h.levelNodes L).level.totalVolume + (h.orderNodes a).order.leavesQuantity
          hiddenVolume := (h.levelNodes L).level.hiddenVolume + (h.orderNodes a).order.hiddenQuantity
          visibleVolume :=
            (h.levelNodes L).level.visibleVolume + (h.orderNodes a).order.visibleQuantity
          orders := (h.levelNodes L).level.orders + 1 }
        orderList := (h.levelNodes L).orderList.pushBack a }
    else h.levelNodes x := by
  simp only [linkOrder, setOrderNode_levelNodes, setLevelNode_levelNodes, Function.update_apply]

theorem linkOrder_orderNodes (b : Nat) :
    (h.linkOrder L a).orderNodes b =
      if b = a then { h.orderNodes a with level := some L, placed := h.clock }
      else h.orderNodes b := by
  simp only [linkOrder, setOrderNode_orderNodes, setLevelNode_orderNodes, setLevelNode_clock,
    Function.update_apply]

@[simp] theorem linkOrder_order (b : Nat) :
    ((h.linkOrder L a).orderNodes b).order = (h.orderNodes b).order := by
  rw [linkOrder_orderNodes]; split_ifs with hb <;> simp [hb]

@[simp] theorem price_linkOrder : (h.linkOrder L a).price = h.price := by
  funext x; simp only [price, linkOrder_levelNodes]; split_ifs with hx <;> simp [hx]

theorem nodes_linkOrder (x : Nat) :
    (h.linkOrder L a).nodes x = if x = L then h.nodes L ++ [a] else h.nodes x := by
  simp only [nodes, linkOrder_levelNodes]; split_ifs <;> rfl

@[simp] theorem unlinkOrder_orderNodes : (h.unlinkOrder L a).orderNodes = h.orderNodes := rfl
@[simp] theorem unlinkOrder_next : (h.unlinkOrder L a).next = h.next := rfl
@[simp] theorem unlinkOrder_clock : (h.unlinkOrder L a).clock = h.clock := rfl

theorem unlinkOrder_levelNodes (x : Nat) :
    (h.unlinkOrder L a).levelNodes x = if x = L then
      { level := { (h.levelNodes L).level with
          totalVolume := (h.levelNodes L).level.totalVolume - (h.orderNodes a).order.leavesQuantity
          hiddenVolume := (h.levelNodes L).level.hiddenVolume - (h.orderNodes a).order.hiddenQuantity
          visibleVolume :=
            (h.levelNodes L).level.visibleVolume - (h.orderNodes a).order.visibleQuantity
          orders := (h.levelNodes L).level.orders - 1 }
        orderList := (h.levelNodes L).orderList.remove a }
    else h.levelNodes x :=
  Function.update_apply _ _ _ _

@[simp] theorem price_unlinkOrder : (h.unlinkOrder L a).price = h.price := by
  funext x; simp only [price, unlinkOrder_levelNodes]; split_ifs with hx <;> simp [hx]

theorem nodes_unlinkOrder (x : Nat) :
    (h.unlinkOrder L a).nodes x = if x = L then (h.nodes L).erase a else h.nodes x := by
  simp only [nodes, unlinkOrder_levelNodes]; split_ifs <;> rfl

/-! ## Reducing a level's volumes -/

@[simp] theorem reduceLevel_orderNodes (q hq vq : UInt64) :
    (h.reduceLevel L q hq vq).orderNodes = h.orderNodes := rfl
@[simp] theorem reduceLevel_next (q hq vq : UInt64) : (h.reduceLevel L q hq vq).next = h.next := rfl
@[simp] theorem reduceLevel_clock (q hq vq : UInt64) :
    (h.reduceLevel L q hq vq).clock = h.clock := rfl

theorem reduceLevel_levelNodes (q hq vq : UInt64) (x : Nat) :
    (h.reduceLevel L q hq vq).levelNodes x = if x = L then
      { h.levelNodes L with level := { (h.levelNodes L).level with
          totalVolume := (h.levelNodes L).level.totalVolume - q
          hiddenVolume := (h.levelNodes L).level.hiddenVolume - hq
          visibleVolume := (h.levelNodes L).level.visibleVolume - vq } }
    else h.levelNodes x :=
  Function.update_apply _ _ _ _

@[simp] theorem nodes_reduceLevel (q hq vq : UInt64) : (h.reduceLevel L q hq vq).nodes = h.nodes := by
  funext x; simp only [nodes, reduceLevel_levelNodes]; split_ifs with e <;> simp [e]

@[simp] theorem price_reduceLevel (q hq vq : UInt64) : (h.reduceLevel L q hq vq).price = h.price := by
  funext x; simp only [price, reduceLevel_levelNodes]; split_ifs with e <;> simp [e]

/-! ## Moving a level's payload (the two-child case of `Remove`) -/

@[simp] theorem moveLevel_next : (h.moveLevel S L).next = h.next := rfl
@[simp] theorem moveLevel_clock : (h.moveLevel S L).clock = h.clock := rfl

theorem moveLevel_levelNodes (x : Nat) :
    (h.moveLevel S L).levelNodes x = if x = L then h.levelNodes S else h.levelNodes x :=
  Function.update_apply _ _ _ _

theorem moveLevel_orderNodes (b : Nat) :
    (h.moveLevel S L).orderNodes b =
      if b ∈ h.nodes S then { h.orderNodes b with level := some L } else h.orderNodes b := rfl

@[simp] theorem moveLevel_order (b : Nat) :
    ((h.moveLevel S L).orderNodes b).order = (h.orderNodes b).order := by
  rw [moveLevel_orderNodes]; split_ifs <;> rfl

@[simp] theorem moveLevel_placed (b : Nat) :
    ((h.moveLevel S L).orderNodes b).placed = (h.orderNodes b).placed := by
  rw [moveLevel_orderNodes]; split_ifs <;> rfl

theorem price_moveLevel (x : Nat) :
    (h.moveLevel S L).price x = if x = L then h.price S else h.price x := by
  simp only [price, moveLevel_levelNodes]; split_ifs <;> rfl

theorem nodes_moveLevel (x : Nat) :
    (h.moveLevel S L).nodes x = if x = L then h.nodes S else h.nodes x := by
  simp only [nodes, moveLevel_levelNodes]; split_ifs <;> rfl

end Heap

/-! ## Tree insertion and removal -/

namespace AVLTree

/-- `Insert` keeps the direction and puts the level at its descent position.
Source: `avltree.go` `(*AVLTree).Insert`
Kind: L -/
theorem insert_spec {t t' : AVLTree} {price : Nat → UInt64} {level : Nat}
    (h : t.insert price level = some t') :
    t'.descending = t.descending ∧ t'.root.ids = t.root.insertIds price t.descending level := by
  unfold insert at h
  split at h
  · cases h; rename_i hr; exact ⟨rfl, by simp [hr, Tree.insertIds]⟩
  · obtain ⟨⟨r, g⟩, hr, h⟩ := Option.bind_eq_some.1 h
    cases h
    exact ⟨rfl, Tree.insertAux_ids hr⟩

/-- `Remove(level)` keeps the direction and either drops `level` from the sequence, or drops its
successor `S` after moving `S`'s payload into `level`'s node.
Source: `avltree.go` `(*AVLTree).Remove`
Kind: L -/
theorem remove_spec {t t' : AVLTree} {h h' : Heap} {L : Nat}
    (hr : t.remove h (some L) = some (t', h')) :
    t'.descending = t.descending ∧ ∃ l₁ l₂, t.root.ids = l₁ ++ L :: l₂ ∧
      ((h' = h ∧ t'.root.ids = l₁ ++ l₂) ∨
        (∃ S l₃, l₂ = S :: l₃ ∧ h' = h.moveLevel S L ∧ t'.root.ids = l₁ ++ L :: l₃)) := by
  obtain ⟨⟨root', c, s⟩, hs, hr⟩ := Option.bind_eq_some.1 hr
  cases hr
  obtain ⟨l₁, l₂, e, ⟨rfl, e'⟩ | ⟨S, l₃, rfl, rfl, e'⟩⟩ := Tree.removeAux_ids hs
  · exact ⟨rfl, l₁, l₂, e, .inl ⟨rfl, e'⟩⟩
  · exact ⟨rfl, l₁, _, e, .inr ⟨S, l₃, rfl, rfl, e'⟩⟩

end AVLTree

/-- `AddLevel`'s strict comparison is the tree's order.
Source: `orderbook.go` `(*OrderBook).AddLevel`, `NewOrderBook`
Kind: L -/
theorem LevelIndex.improves_iff (i : LevelIndex) (p q : UInt64) :
    i.improves p q = true ↔ AVLTree.precedes i.descending p q := by
  rw [AVLTree.precedes_iff]
  cases i <;> simp [improves, descending, UInt64.lt_iff_toNat_lt]

/-! ## The book methods -/

namespace OrderBook

variable {ob ob' : OrderBook} {h h' : Heap}

theorem setBest_best_self (ob : OrderBook) (i : LevelIndex) : ob.setBest i (ob.best i) = ob := by
  cases i <;> rfl

/-- `AddLevel` allocates the level at the next address, inserts it into the order's tree, and
points the best pointer at it when the tree was empty or its price improves on the best.
Source: `orderbook.go` `(*OrderBook).AddLevel`
Kind: L -/
theorem addLevel_spec {o : Order} {L : Nat} (ha : ob.addLevel h o = some (ob', h', L)) :
    L = h.next ∧
    h' = h.allocLevel (newLevelNode (LevelIndex.ofOrder o).levelType (routingPrice o)) ∧
    ∃ t, (ob.levels (LevelIndex.ofOrder o)).insert h'.price L = some t ∧
      ob' = (ob.setLevels (LevelIndex.ofOrder o) t).setBest (LevelIndex.ofOrder o)
        (match ob.best (LevelIndex.ofOrder o) with
          | none => some L
          | some b => if (LevelIndex.ofOrder o).improves (routingPrice o) (h'.price b) then some L
            else some b) := by
  obtain ⟨t, ht, ha⟩ := Option.bind_eq_some.1 ha
  refine ⟨(Prod.mk.inj (Prod.mk.inj (Option.some.inj ha)).2).2.symm,
    (Prod.mk.inj (Prod.mk.inj (Option.some.inj ha)).2).1.symm, t, ?_⟩
  cases ha
  refine ⟨ht, ?_⟩
  simp only [best_setLevels]
  rcases hb : ob.best (LevelIndex.ofOrder o) with _ | b
  · rfl
  · dsimp only
    split_ifs
    · rfl
    · rw [← hb, ← best_setLevels ob _ _ t, setBest_best_self]

/-- `DeleteLevel` removes the order's level from the order's tree and, when the best pointer
was that level, re-seats it at the tree's new first node.
Source: `orderbook.go` `(*OrderBook).DeleteLevel`
Kind: L -/
theorem deleteLevel_spec {n : OrderNode} {L : Nat} (hL : n.level = some L)
    (hd : ob.deleteLevel h n = some (ob', h')) :
    ∃ t, (ob.levels (LevelIndex.ofOrder n.order)).remove h (some L) = some (t, h') ∧
      ob' = (ob.setLevels (LevelIndex.ofOrder n.order) t).setBest (LevelIndex.ofOrder n.order)
        (if ob.best (LevelIndex.ofOrder n.order) = some L then t.first
          else ob.best (LevelIndex.ofOrder n.order)) := by
  obtain ⟨⟨t, h2⟩, ht, hd⟩ := Option.bind_eq_some.1 hd
  cases hd
  rw [hL] at ht ⊢
  refine ⟨t, ht, ?_⟩
  simp only [best_setLevels]
  split_ifs
  · rfl
  · rw [← best_setLevels ob _ _ t, setBest_best_self]

/-- `AddOrder` links the order into the level of its price in its tree, created by `AddLevel`
when `Find` has none.
Source: `orderbook.go` `(*OrderBook).AddOrder`
Kind: L -/
theorem addOrder_spec {a : Nat} (ha : ob.addOrder h a = some (ob', h')) :
    ∃ h₁ L, h' = h₁.linkOrder L a ∧
      (((ob.levels (LevelIndex.ofOrder (h.orderNodes a).order)).find h.price
          (routingPrice (h.orderNodes a).order) = some L ∧ ob' = ob ∧ h₁ = h) ∨
        ((ob.levels (LevelIndex.ofOrder (h.orderNodes a).order)).find h.price
          (routingPrice (h.orderNodes a).order) = none ∧
          ob.addLevel h (h.orderNodes a).order = some (ob', h₁, L))) := by
  unfold addOrder at ha
  dsimp only at ha
  split at ha
  · cases ha; exact ⟨h, _, rfl, .inl ⟨‹_›, rfl, rfl⟩⟩
  · obtain ⟨⟨ob₁, h₁, L⟩, hf, ha⟩ := Option.bind_eq_some.1 ha
    cases ha
    exact ⟨h₁, L, rfl, .inr ⟨‹_›, hf⟩⟩

/-- `DeleteOrder` unlinks the order from its level, deletes the level when its list is empty,
and clears the order's level pointer.
Source: `orderbook.go` `(*OrderBook).DeleteOrder`
Kind: L -/
theorem deleteOrder_spec {a : Nat} (hd : ob.deleteOrder h a = some (ob', h')) :
    ∃ L h₂, (h.orderNodes a).level = some L ∧
      h' = h₂.setOrderNode a { h₂.orderNodes a with level := none } ∧
      ((((h.unlinkOrder L a).levelNodes L).orderList.empty = true ∧
          ob.deleteLevel (h.unlinkOrder L a) (h.orderNodes a) = some (ob', h₂)) ∨
        (((h.unlinkOrder L a).levelNodes L).orderList.empty = false ∧
          ob' = ob ∧ h₂ = h.unlinkOrder L a)) := by
  obtain ⟨L, hL, hd⟩ := Option.bind_eq_some.1 hd
  dsimp only at hd
  split at hd
  · obtain ⟨⟨ob₂, h₂⟩, hd₂, hd⟩ := Option.bind_eq_some.1 hd
    cases hd
    exact ⟨L, h₂, hL, rfl, .inl ⟨‹_›, hd₂⟩⟩
  · rename_i hne
    cases hd
    exact ⟨L, _, hL, rfl, .inr ⟨by simpa using hne, rfl, rfl⟩⟩

/-- `ReduceOrder` subtracts from the counters of the order's level, and from nothing else.
Source: `orderbook.go` `(*OrderBook).ReduceOrder`
Kind: L -/
theorem reduceOrder_spec {a : Nat} {q hq vq : UInt64} (hr : reduceOrder h a q hq vq = some h') :
    ∃ L, (h.orderNodes a).level = some L ∧ h' = h.reduceLevel L q hq vq := by
  obtain ⟨L, hL, hr⟩ := Option.bind_eq_some.1 hr
  cases hr
  exact ⟨L, hL, rfl⟩

end OrderBook

end GoTrader.Matching
