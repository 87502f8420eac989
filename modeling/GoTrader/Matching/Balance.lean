import GoTrader.Matching.AVLBalance
import GoTrader.Matching.Match

/-!
# Balanced books

`MarketManager.Balanced` — every tree of every book is AVL — holds in every reachable state, so
no `AVLTree.Insert` or `AVLTree.Remove` the engine makes can reach a nil dereference of
`rebalance`:

* `AVLTree.avl_of_remove` — a removal that succeeds keeps a tree AVL (it only succeeds on a
  node of the tree, `Tree.removeAux_mem`);
* `Balanced.bookAddOrder`, `Balanced.bookDeleteOrder` — the two book calls keep every tree AVL;
  nothing else the engine does writes a tree;
* one lemma per public call, `Balanced.step`, and `Reachable.balanced`;
* `Inv.bookDeleteOrder_isSome` — on a balanced state, deleting a registered order from its
  book succeeds: its level is in its tree, and removal from an AVL tree cannot fail;
* `Reachable.tree_height_le_log` — so every tree of every reachable book is logarithmically
  high in its number of price levels.
-/

namespace GoTrader.Matching

open MarketManager

/-- Every tree of every book is AVL.
Source: `avltree.go` (the trees as `Insert` maintains them)
Kind: D -/
def MarketManager.Balanced (m : MarketManager) : Prop :=
  ∀ k ob i, m.orderBooks k = some ob → (ob.levels i).root.AVL

namespace OrderBook

variable {ob ob' : OrderBook} {h h' : Heap}

theorem root_newOrderBook (s : Symbol) (i : LevelIndex) :
    ((newOrderBook s).levels i).root = .nil := by
  cases i <;> rfl

theorem addLevel_isSome (h : Heap) (o : Order) (hb : (ob.levels (LevelIndex.ofOrder o)).root.AVL) :
    (ob.addLevel h o).isSome := by
  obtain ⟨t, ht, -⟩ := AVLTree.insert_avl
    (h.allocLevel (newLevelNode (LevelIndex.ofOrder o).levelType (routingPrice o))).price h.next hb
  simp [addLevel, ht]

theorem addLevel_avl {o : Order} {L : Nat} (hb : ∀ i, (ob.levels i).root.AVL)
    (ha : ob.addLevel h o = some (ob', h', L)) (i : LevelIndex) : (ob'.levels i).root.AVL := by
  obtain ⟨-, -, t, ht, rfl⟩ := addLevel_spec ha
  obtain ⟨t', ht', hta, -⟩ := AVLTree.insert_avl h'.price L (hb (LevelIndex.ofOrder o))
  rw [ht] at ht'
  cases ht'
  simp only [levels_setBest, levels_setLevels]
  split_ifs
  · exact hta
  · exact hb i

/-- `AddOrder` on a book whose trees are AVL succeeds. Source: `orderbook.go` `AddOrder`. Kind: L -/
theorem addOrder_isSome (h : Heap) (a : Nat) (hb : ∀ i, (ob.levels i).root.AVL) :
    (ob.addOrder h a).isSome := by
  unfold addOrder
  dsimp only
  split
  · simp
  · obtain ⟨r, hr⟩ := Option.isSome_iff_exists.1 (addLevel_isSome h (h.orderNodes a).order (hb _))
    simp [hr]

theorem addOrder_avl {a : Nat} (hb : ∀ i, (ob.levels i).root.AVL)
    (ha : ob.addOrder h a = some (ob', h')) (i : LevelIndex) : (ob'.levels i).root.AVL := by
  obtain ⟨h₁, L, rfl, ⟨-, rfl, rfl⟩ | ⟨-, hadd⟩⟩ := addOrder_spec ha
  · exact hb i
  · exact addLevel_avl hb hadd i

end OrderBook

namespace Tree

/-- A removal that succeeds removes a node of the tree. Source: `avltree.go` `Remove`. Kind: L -/
theorem removeAux_mem {level : Nat} : ∀ {t t' : Tree} {c : Bool} {s : Option Nat},
    t.removeAux level = some (t', c, s) → level ∈ t.ids
  | nil, _, _, _, h => by cases h
  | node l x b r, t', c, s, h => by
    unfold removeAux at h
    split_ifs at h with hx hl
    · simp [ids, hx]
    · simp [ids, hl]
    · obtain ⟨⟨r', c', s'⟩, hr, -⟩ := Option.bind_eq_some.1 h
      simp [ids, removeAux_mem hr]

end Tree

/-- A removal that succeeds keeps a tree AVL. Source: `avltree.go` `Remove`. Kind: L -/
theorem AVLTree.avl_of_remove {t t' : AVLTree} {h h' : Heap} {x : Option Nat} (ht : t.root.AVL)
    (hr : t.remove h x = some (t', h')) : t'.root.AVL := by
  cases x with
  | none => cases hr; exact ht
  | some level =>
    obtain ⟨⟨r, c, s⟩, e, hr⟩ := Option.bind_eq_some.1 hr
    obtain ⟨r', c', s', e', hs⟩ := Tree.removeAux_avl level ht (Tree.removeAux_mem e)
    rw [e] at e'
    cases e'
    cases hr
    exact hs.avl

namespace OrderBook

variable {ob ob' : OrderBook} {h h' : Heap}

theorem deleteLevel_avl {n : OrderNode} (hb : ∀ i, (ob.levels i).root.AVL)
    (hd : ob.deleteLevel h n = some (ob', h')) (i : LevelIndex) : (ob'.levels i).root.AVL := by
  obtain ⟨⟨t, h₁⟩, hr, hd⟩ := Option.bind_eq_some.1 hd
  cases hd
  have ht := AVLTree.avl_of_remove (hb _) hr
  split_ifs <;> simp only [levels_setBest, levels_setLevels] <;> split_ifs
  all_goals first | exact ht | exact hb i

theorem deleteOrder_avl {a : Nat} (hb : ∀ i, (ob.levels i).root.AVL)
    (hd : ob.deleteOrder h a = some (ob', h')) (i : LevelIndex) : (ob'.levels i).root.AVL := by
  obtain ⟨L, -, hd⟩ := Option.bind_eq_some.1 hd
  dsimp only at hd
  split at hd
  · obtain ⟨⟨ob₁, h₁⟩, hl, e⟩ := Option.bind_eq_some.1 hd
    cases e
    exact deleteLevel_avl hb hl i
  · cases hd; exact hb i

end OrderBook

namespace MarketManager

variable {m m' : MarketManager} {key : UInt32} {a : Nat}

theorem Balanced.of_books (hB : m.Balanced) (h : m'.orderBooks = m.orderBooks) : m'.Balanced :=
  fun k ob i hk => hB k ob i (h ▸ hk)

theorem balanced_newMarketManager : newMarketManager.Balanced := fun _ _ _ h => by cases h

theorem addSymbol_orderBooks (m : MarketManager) (s : Symbol) :
    (m.addSymbol s).1.orderBooks = m.orderBooks := by
  unfold MarketManager.addSymbol; split_ifs <;> rfl

theorem Balanced.addOrderBook (hB : m.Balanced) (s : Symbol) : (m.addOrderBook s).1.Balanced := by
  unfold MarketManager.addOrderBook
  split_ifs
  · exact hB
  · intro k ob i hk
    simp only [call, Function.update_apply] at hk
    split_ifs at hk
    · cases hk; simp [OrderBook.root_newOrderBook]
    · exact hB k ob i hk

theorem bookAddOrder_isSome (a : Nat) (hB : m.Balanced) (hk : (m.orderBooks key).isSome) :
    (m.bookAddOrder key a).isSome := by
  obtain ⟨ob, hob⟩ := Option.isSome_iff_exists.1 hk
  obtain ⟨r, hr⟩ := Option.isSome_iff_exists.1
    (OrderBook.addOrder_isSome m.heap a fun i => hB key ob i hob)
  simp [bookAddOrder, hob, hr]

/-- `ob.AddOrder` keeps the trees AVL, and the book where it was. Source: none. Kind: L -/
theorem Balanced.bookAddOrder (hB : m.Balanced) (h : m.bookAddOrder key a = some m') :
    m'.Balanced ∧ ∀ k, (m'.orderBooks k).isSome = (m.orderBooks k).isSome := by
  obtain ⟨ob, hob, h⟩ := Option.bind_eq_some.1 h
  obtain ⟨⟨ob', h'⟩, ha, h⟩ := Option.bind_eq_some.1 h
  cases h
  refine ⟨fun k ob₁ i hk => ?_, fun k => ?_⟩
  · simp only [Function.update_apply] at hk
    split_ifs at hk with e
    · cases hk; exact OrderBook.addOrder_avl (fun i => hB key ob i hob) ha i
    · exact hB k ob₁ i hk
  · simp only [Function.update_apply]
    split_ifs with e
    · subst e; simp [hob]
    · rfl

theorem updateLevel_isSome (m : MarketManager) (a : Nat) (ob : OrderBook) (u : UpdateType) :
    (m.updateLevel (some ob) a u).isSome := by
  cases hl : (m.heap.orderNodes a).level <;> cases u <;> simp [updateLevel, hl]


/-- `ob.DeleteOrder` keeps the trees AVL. Source: none. Kind: L -/
theorem Balanced.bookDeleteOrder (hB : m.Balanced) (h : m.bookDeleteOrder key a = some m') :
    m'.Balanced := by
  obtain ⟨ob, hob, h⟩ := Option.bind_eq_some.1 h
  obtain ⟨⟨ob', h'⟩, hd, h⟩ := Option.bind_eq_some.1 h
  cases h
  intro k ob₁ i hk
  simp only [Function.update_apply] at hk
  split_ifs at hk
  · cases hk; exact OrderBook.deleteOrder_avl (fun i => hB key ob i hob) hd i
  · exact hB k ob₁ i hk

theorem Balanced.updateLevel (hB : m.Balanced) {ob : Option OrderBook} {u : UpdateType}
    (h : m.updateLevel ob a u = some m') : m'.Balanced := by
  obtain ⟨cs, rfl⟩ := updateLevel_eq h
  exact hB

theorem Balanced.executeOrderNode {p q : UInt64} {e : ErrorCode} (hB : m.Balanced)
    (h : m.executeOrderNode a p q = some (m', e)) : m'.Balanced := by
  unfold MarketManager.executeOrderNode at h
  dsimp only at h
  obtain ⟨heap, -, h⟩ := Option.bind_eq_some.1 h
  split at h
  · obtain ⟨m₃, h₃, h⟩ := Option.bind_eq_some.1 h
    obtain ⟨m₄, h₄, h⟩ := Option.bind_eq_some.1 h
    cases h
    refine .of_books ((Balanced.updateLevel (.of_books hB ?_) h₃).bookDeleteOrder h₄) rfl
    rfl
  · obtain ⟨m₃, h₃, h⟩ := Option.bind_eq_some.1 h
    cases h
    refine Balanced.updateLevel (.of_books hB ?_) h₃
    rfl

theorem Balanced.deleteOrder {id : UInt64} {e : ErrorCode} (hB : m.Balanced)
    (h : m.deleteOrder id = some (m', e)) : m'.Balanced := by
  unfold MarketManager.deleteOrder at h
  split at h
  · cases h; exact hB
  · obtain ⟨m₁, h₁, h⟩ := Option.bind_eq_some.1 h
    obtain ⟨m₂, h₂, h⟩ := Option.bind_eq_some.1 h
    cases h
    exact .of_books ((hB.updateLevel h₁).bookDeleteOrder h₂) rfl

theorem Balanced.matchLoop (key : UInt32) :
    ∀ (fuel : Nat) {m m' : MarketManager}, m.Balanced → matchLoop key fuel m = some m' →
      m'.Balanced
  | 0, _, _, _, h => by cases h
  | fuel + 1, m, m', hB, h => by
    unfold MarketManager.matchLoop at h
    obtain ⟨ob, -, h⟩ := Option.bind_eq_some.1 h
    split at h
    · cases h; exact hB
    · obtain ⟨⟨m₁, e₁⟩, h₁, h⟩ := Option.bind_eq_some.1 h
      obtain ⟨⟨m₂, e₂⟩, h₂, h⟩ := Option.bind_eq_some.1 h
      exact Balanced.matchLoop key fuel ((hB.executeOrderNode h₁).executeOrderNode h₂) h

theorem Balanced.matchIfEnabled {e : ErrorCode} (hB : m.Balanced)
    (h : m.matchIfEnabled key = some (m', e)) : m'.Balanced := by
  unfold MarketManager.matchIfEnabled at h
  split_ifs at h
  · obtain ⟨m₁, h₁, h⟩ := Option.map_eq_some'.1 h
    cases h
    exact Balanced.matchLoop key _ hB h₁
  · cases h; exact hB

/-! ## Every public call -/

theorem Balanced.addOrder {order : Order} {e : ErrorCode} (hB : m.Balanced)
    (h : m.addOrder order = some (m', e)) : m'.Balanced := by
  unfold MarketManager.addOrder at h
  split_ifs at h
  · cases h; exact hB
  · cases h; exact hB
  · cases h; exact hB
  · obtain ⟨m₁, hb, h⟩ := Option.bind_eq_some.1 h
    obtain ⟨m₂, hu, h⟩ := Option.bind_eq_some.1 h
    refine (Balanced.updateLevel (.of_books (Balanced.bookAddOrder (.of_books hB ?_) hb).1 ?_)
      hu).matchIfEnabled h <;> rfl

theorem Balanced.reduceOrder {id q : UInt64} {e : ErrorCode} (hB : m.Balanced)
    (h : m.reduceOrder id q = some (m', e)) : m'.Balanced := by
  unfold MarketManager.reduceOrder at h
  split at h
  · cases h; exact hB
  · dsimp only at h
    split_ifs at h
    · cases h; exact hB
    · exact hB.deleteOrder h
    · obtain ⟨heap, -, h⟩ := Option.bind_eq_some.1 h
      obtain ⟨m₃, hu, h⟩ := Option.bind_eq_some.1 h
      cases h
      refine Balanced.updateLevel (.of_books hB ?_) hu
      rfl

/-- Taking an order off its book and adding it back, as `ModifyOrder`, `MitigateOrder` and
`ReplaceOrder` do. Source: none. Kind: L -/
theorem Balanced.reinsert {m₁ m₂ m₂' m₃ : MarketManager} {ob : Option OrderBook} {b : Nat}
    (hB : m.Balanced) (hu : m.updateLevel ob a .updateDelete = some m₁)
    (hd : m₁.bookDeleteOrder key a = some m₂) (hf : m₂'.orderBooks = m₂.orderBooks)
    (hb : m₂'.bookAddOrder key b = some m₃) : m₃.Balanced :=
  (Balanced.bookAddOrder (.of_books ((hB.updateLevel hu).bookDeleteOrder hd) hf) hb).1

theorem Balanced.modifyOrder {id p q : UInt64} {e : ErrorCode} (hB : m.Balanced)
    (h : m.modifyOrder id p q = some (m', e)) : m'.Balanced := by
  unfold MarketManager.modifyOrder at h
  split at h
  · cases h; exact hB
  · split_ifs at h
    · cases h; exact hB
    · obtain ⟨m₁, hu₁, h⟩ := Option.bind_eq_some.1 h
      obtain ⟨m₂, hd, h⟩ := Option.bind_eq_some.1 h
      obtain ⟨m₃, hb, h⟩ := Option.bind_eq_some.1 h
      obtain ⟨m₄, hu₄, h⟩ := Option.bind_eq_some.1 h
      refine (Balanced.updateLevel (.of_books (hB.reinsert hu₁ hd ?_ hb) ?_) hu₄).matchIfEnabled h
        <;> rfl

theorem Balanced.mitigateOrder {id p q : UInt64} {e : ErrorCode} (hB : m.Balanced)
    (h : m.mitigateOrder id p q = some (m', e)) : m'.Balanced := by
  unfold MarketManager.mitigateOrder at h
  split at h
  · cases h; exact hB
  · split_ifs at h
    · exact hB.deleteOrder h
    · obtain ⟨m₁, hu₁, h⟩ := Option.bind_eq_some.1 h
      obtain ⟨m₂, hd, h⟩ := Option.bind_eq_some.1 h
      obtain ⟨m₃, hb, h⟩ := Option.bind_eq_some.1 h
      obtain ⟨m₄, hu₄, h⟩ := Option.bind_eq_some.1 h
      refine (Balanced.updateLevel (.of_books (hB.reinsert hu₁ hd ?_ hb) ?_) hu₄).matchIfEnabled h
        <;> rfl

theorem Balanced.replaceOrder {id newID p q : UInt64} {e : ErrorCode} (hB : m.Balanced)
    (h : m.replaceOrder id newID p q = some (m', e)) : m'.Balanced := by
  unfold MarketManager.replaceOrder at h
  split at h
  · cases h; exact hB
  · split_ifs at h
    · cases h; exact hB
    · cases h; exact hB
    · obtain ⟨m₁, hu₁, h⟩ := Option.bind_eq_some.1 h
      obtain ⟨m₂, hd, h⟩ := Option.bind_eq_some.1 h
      obtain ⟨m₃, hb, h⟩ := Option.bind_eq_some.1 h
      obtain ⟨m₄, hu₄, h⟩ := Option.bind_eq_some.1 h
      refine (Balanced.updateLevel (.of_books (hB.reinsert hu₁ hd ?_ hb) ?_) hu₄).matchIfEnabled h
        <;> rfl

theorem Balanced.executeOrder {id q : UInt64} {e : ErrorCode} (hB : m.Balanced)
    (h : m.executeOrder id q = some (m', e)) : m'.Balanced := by
  unfold MarketManager.executeOrder at h
  split at h
  · cases h; exact hB
  · dsimp only at h
    split_ifs at h
    · cases h; exact hB
    · exact hB.executeOrderNode h

theorem Balanced.executeOrderWithPrice {id p q : UInt64} {e : ErrorCode} (hB : m.Balanced)
    (h : m.executeOrderWithPrice id p q = some (m', e)) : m'.Balanced := by
  unfold MarketManager.executeOrderWithPrice at h
  split at h
  · cases h; exact hB
  · dsimp only at h
    split_ifs at h
    · cases h; exact hB
    · exact hB.executeOrderNode h

theorem Balanced.matchSymbol {k : UInt32} {e : ErrorCode} (hB : m.Balanced)
    (h : m.matchSymbol k = some (m', e)) : m'.Balanced := by
  unfold MarketManager.matchSymbol at h
  split at h
  · cases h; exact hB
  · obtain ⟨m₁, h₁, h⟩ := Option.map_eq_some'.1 h
    cases h
    exact Balanced.matchLoop k _ hB h₁

theorem Balanced.removeBook (hB : m.Balanced) (k : UInt32) :
    ({ m with orderBooks := Function.update m.orderBooks k none } : MarketManager).Balanced := by
  intro k' ob i hk
  simp only [Function.update_apply] at hk
  split_ifs at hk
  exact hB k' ob i hk

theorem Balanced.deleteOrders :
    ∀ (l : List Nat) {m mf : MarketManager}, m.Balanced →
      l.foldlM (fun m a => (m.deleteOrder (m.heap.orderNodes a).order.id).map Prod.fst) m =
        some mf → mf.Balanced
  | [], _, _, hB, h => by cases h; exact hB
  | a :: l, _, _, hB, h => by
    rw [List.foldlM_cons] at h
    obtain ⟨m₁, h₁, h⟩ := Option.bind_eq_some.1 h
    obtain ⟨⟨m₁, e⟩, hd, rfl⟩ := Option.map_eq_some'.1 h₁
    exact Balanced.deleteOrders l (hB.deleteOrder hd) h

theorem Balanced.deleteOrderBook {id : UInt32} {enum : List UInt64} {e : ErrorCode}
    (hB : m.Balanced) (h : m.deleteOrderBook id enum = some (m', e)) : m'.Balanced := by
  unfold MarketManager.deleteOrderBook at h
  split at h
  · cases h; exact hB
  · obtain ⟨mf, hf, h⟩ := Option.bind_eq_some.1 h
    cases h
    exact .of_books ((Balanced.deleteOrders _ hB hf).removeBook id) rfl

theorem Balanced.deleteSymbol {id : UInt32} {enum : List UInt64} {e : ErrorCode}
    (hB : m.Balanced) (h : m.deleteSymbol id enum = some (m', e)) : m'.Balanced := by
  unfold MarketManager.deleteSymbol at h
  split at h
  · cases h; exact hB
  · dsimp only at h
    split_ifs at h
    · obtain ⟨m₁, h₁, h⟩ := Option.bind_eq_some.1 h
      obtain ⟨⟨m₂, e₂⟩, h₂, rfl⟩ := Option.map_eq_some'.1 h₁
      cases h
      exact .of_books (hB.deleteOrderBook h₂) rfl
    · cases h
      exact .of_books hB rfl

/-- Every public call keeps every tree of every book AVL, whatever iteration order it carries.
Source: `market_manager.go`. Kind: L -/
theorem Balanced.step {op : Op} {e : ErrorCode} (hB : m.Balanced)
    (h : m.step op = some (m', e)) : m'.Balanced := by
  cases op with
  | addSymbol s =>
    obtain rfl : (m.addSymbol s).1 = m' := congrArg Prod.fst (Option.some.inj h)
    exact .of_books hB (addSymbol_orderBooks m s)
  | deleteSymbol id enum => exact hB.deleteSymbol h
  | addOrderBook s =>
    obtain rfl : (m.addOrderBook s).1 = m' := congrArg Prod.fst (Option.some.inj h)
    exact hB.addOrderBook s
  | deleteOrderBook id enum => exact hB.deleteOrderBook h
  | addOrder order => exact hB.addOrder h
  | reduceOrder id q => exact hB.reduceOrder h
  | modifyOrder id p q => exact hB.modifyOrder h
  | mitigateOrder id p q => exact hB.mitigateOrder h
  | replaceOrder id newID p q => exact hB.replaceOrder h
  | deleteOrder id => exact hB.deleteOrder h
  | executeOrder id q => exact hB.executeOrder h
  | executeOrderWithPrice id p q => exact hB.executeOrderWithPrice h
  | matchSymbol k => exact hB.matchSymbol h
  | enableMatching => cases h; exact .of_books hB rfl
  | disableMatching => cases h; exact .of_books hB rfl

end MarketManager

/-- Every tree of every book of every reachable state is AVL. Source: `market_manager.go`.
Kind: L -/
theorem Reachable.balanced {m : MarketManager} (h : Reachable m) : m.Balanced := by
  induction h with
  | init => exact MarketManager.balanced_newMarketManager
  | step _ _ hs ih => exact ih.step hs

/-- **Logarithmic trees.** In every reachable state, a tree of a book with `n` price levels has
a height `h` with `fib (h + 2) ≤ n + 1`, so `h ≤ 2 log₂ (n + 1) + 1`: `Find`, `Insert`,
`Remove` and their rebalancing walks visit that many nodes at most.
Source: `avltree.go` `height`, `Find`, `Insert`, `Remove`; `orderbook.go` (the six trees)
Kind: P -/
theorem Reachable.tree_height_le_log {m : MarketManager} (hm : Reachable m) {k : UInt32}
    {ob : OrderBook} (hob : m.orderBooks k = some ob) (i : LevelIndex) :
    Nat.fib ((ob.levels i).root.height.toNat + 2) ≤ (m.levelIds k i).length + 1 ∧
    (ob.levels i).root.height.toNat ≤ 2 * Nat.log 2 ((m.levelIds k i).length + 1) + 1 := by
  have ht := hm.balanced k ob i hob
  rw [levelIds_of_some hob]
  exact ⟨ht.fib_height_le, ht.height_le_log⟩

theorem demo_tree_height_le_log :
    Reachable demo ∧ demo.orderBooks 1 = some demoBook ∧
    Nat.fib ((demoBook.levels .bids).root.height.toNat + 2) ≤ (demo.levelIds 1 .bids).length + 1 ∧
    (demoBook.levels .bids).root.height.toNat ≤
      2 * Nat.log 2 ((demo.levelIds 1 .bids).length + 1) + 1 :=
  ⟨demo_reachable, demo_orderBooks, Reachable.tree_height_le_log demo_reachable demo_orderBooks .bids⟩

end GoTrader.Matching
