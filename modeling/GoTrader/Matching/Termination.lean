import GoTrader.Matching.Balance

/-!
# Termination of matching

`match` is Go's unbounded `for {}`; the model runs it with a bound (`matchBook` allows
`restingCount + 1` tests at the top of its body). From every reachable state that bound is
never what stops it: the loop stops by its own test, after at most as many iterations as there
are orders resting in the book's bid and ask trees, and no call it makes fails.

* `MatchStops key k m m'` — started at `m`, the loop runs its body `k` times and its test then
  stops it at `m'`; `matchLoop_of_matchStops` — the bounded loop returns `m'` for every bound
  above `k`;
* `OrderBook.deleteOrder_isSome`, `bookDeleteOrder_isSome`, `Inv.executeOrderNode_isSome` — on a
  state where the engine invariant holds and the trees are AVL, executing a registered order
  succeeds: its level is in its tree, and removal from an AVL tree cannot fail;
* `Inv.matchIter_fills` — every iteration fills its bid or its ask and unregisters it;
  `Inv.restingCount_matchIter` — so the number of resting orders drops;
* `Inv.matchStops` — from a state where the invariant holds and the trees are AVL, the loop
  stops within `restingCount` iterations;
* `Reachable.match_terminates` — the statement over every reachable state and every book.
-/

namespace GoTrader.Matching

open MarketManager

/-! ## Runs of the loop that stop -/

/-- Started at `m`, the loop of `match` on book `key` runs its body `k` times, and the test at
the top of the next iteration stops it at `m'` (a side is empty, the book is uncrossed, or a
front order is missing).
Source: `market_manager.go` `match` (the `for` loop and its `break`s)
Kind: D -/
inductive MatchStops (key : UInt32) : Nat → MarketManager → MarketManager → Prop where
  | stop {m : MarketManager} {ob : OrderBook} :
      m.orderBooks key = some ob → m.matchPair ob = none → MatchStops key 0 m m
  | step {k : Nat} {m m₁ m₂ m' : MarketManager} {ob : OrderBook} {b a : Nat} {p q : UInt64}
      {e₁ e₂ : ErrorCode} :
      m.orderBooks key = some ob → m.matchPair ob = some (b, a, p, q) →
      m.executeOrderNode b p q = some (m₁, e₁) → m₁.executeOrderNode a p q = some (m₂, e₂) →
      MatchStops key k m₂ m' → MatchStops key (k + 1) m m'

/-- A loop that stops after `k` iterations is what the bounded loop returns, for every bound
that allows `k` iterations and the final test.
Source: `market_manager.go` `match`
Kind: L -/
theorem matchLoop_of_matchStops {key : UInt32} {k : Nat} {m m' : MarketManager}
    (hs : MatchStops key k m m') : ∀ {f : Nat}, k < f → MarketManager.matchLoop key f m = some m' := by
  induction hs with
  | stop hob hp =>
    intro f hf
    obtain ⟨f, rfl⟩ := Nat.exists_eq_add_of_lt hf
    simp only [MarketManager.matchLoop, hob, hp, Option.bind_eq_bind, Option.some_bind]
  | step hob hp h₁ h₂ _ ih =>
    intro f hf
    obtain ⟨f, rfl⟩ := Nat.exists_eq_add_of_lt hf
    simp only [MarketManager.matchLoop, hob, hp, h₁, h₂, Option.bind_eq_bind, Option.some_bind]
    exact ih (by omega)

/-! ## Executions that cannot fail -/

/-- A bind succeeds when its first step does and its continuation does on that result.
Source: none. Kind: L -/
theorem isSome_bind_of_isSome {α β : Type} {x : Option α} {f : α → Option β} (hx : x.isSome)
    (hf : ∀ y, x = some y → (f y).isSome) : (x.bind f).isSome := by
  obtain ⟨y, hy⟩ := Option.isSome_iff_exists.1 hx
  rw [hy, Option.some_bind]
  exact hf y hy

/-- `DeleteOrder` of an order whose level is in its tree, on a book whose trees are AVL,
succeeds. Source: `orderbook.go` `DeleteOrder`, `DeleteLevel`. Kind: L -/
theorem OrderBook.deleteOrder_isSome {ob : OrderBook} {h : Heap} {a L : Nat}
    (hb : ∀ i, (ob.levels i).root.AVL) (hl : (h.orderNodes a).level = some L)
    (hL : L ∈ (ob.levels (LevelIndex.ofOrder (h.orderNodes a).order)).root.ids) :
    (ob.deleteOrder h a).isSome := by
  obtain ⟨t, h', ht, -⟩ := AVLTree.remove_avl (h.unlinkOrder L a) (hb _) hL
  simp only [OrderBook.deleteOrder, OrderBook.deleteLevel, hl, Heap.unlinkOrder_orderNodes,
    Option.bind_eq_bind, Option.some_bind, ht]
  split <;> rfl

namespace MarketManager

variable {m : MarketManager} {key : UInt32} {a L : Nat}

theorem bookDeleteOrder_books {m' : MarketManager} (h : m.bookDeleteOrder key a = some m')
    (k : UInt32) : (m'.orderBooks k).isSome = (m.orderBooks k).isSome := by
  obtain ⟨ob, hob, h⟩ := Option.bind_eq_some.1 h
  obtain ⟨_, -, h⟩ := Option.bind_eq_some.1 h
  cases h
  simp only [Function.update_apply]
  split_ifs with e
  · subst e; simp [hob]
  · rfl

/-- Executing an order removes no book and adds none. Source: none. Kind: L -/
theorem executeOrderNode_books {m' : MarketManager} {p q : UInt64} {e : ErrorCode}
    (h : m.executeOrderNode a p q = some (m', e)) (k : UInt32) :
    (m'.orderBooks k).isSome = (m.orderBooks k).isSome := by
  unfold MarketManager.executeOrderNode at h
  dsimp only at h
  obtain ⟨heap, -, h⟩ := Option.bind_eq_some.1 h
  split at h
  · obtain ⟨m₃, h₃, h⟩ := Option.bind_eq_some.1 h
    obtain ⟨m₄, h₄, h⟩ := Option.bind_eq_some.1 h
    cases h
    obtain ⟨cs, rfl⟩ := updateLevel_eq h₃
    exact bookDeleteOrder_books h₄ k
  · obtain ⟨m₃, h₃, h⟩ := Option.bind_eq_some.1 h
    cases h
    obtain ⟨cs, rfl⟩ := updateLevel_eq h₃
    rfl

theorem bookDeleteOrder_isSome {ob : OrderBook} (hB : m.Balanced)
    (hob : m.orderBooks key = some ob) (hl : (m.heap.orderNodes a).level = some L)
    (hL : L ∈ (ob.levels (LevelIndex.ofOrder (m.heap.orderNodes a).order)).root.ids) :
    (m.bookDeleteOrder key a).isSome := by
  obtain ⟨r, hr⟩ := Option.isSome_iff_exists.1
    (OrderBook.deleteOrder_isSome (fun i => hB key ob i hob) hl hL)
  simp [bookDeleteOrder, hob, hr]

end MarketManager

namespace Inv

variable {m : MarketManager} {id : UInt64} {a : Nat}

/-- Executing a registered order succeeds, from a state where the invariant holds and the trees
are AVL: its level pointer is set, and when the order is filled its level is in its tree.
Source: `market_manager.go` `executeOrder`; `orderbook.go` `ReduceOrder`, `DeleteOrder`
Kind: L -/
theorem executeOrderNode_isSome (hI : Inv m none none) (hB : m.Balanced)
    (hr : m.orders id = some a) (p q : UInt64) : (m.executeOrderNode a p q).isSome := by
  obtain ⟨L, hL, ha⟩ := (hI.registered hr).placed nofun
  have hl := (hI.linked hL ha).level
  rcases hob : m.orderBooks (m.heap.orderNodes a).order.symbolID with _ | ob
  · simp [levelIds, hob] at hL
  rw [levelIds_of_some hob] at hL
  unfold MarketManager.executeOrderNode
  simp only [OrderBook.reduceOrder, MarketManager.setOrder, MarketManager.call,
    Heap.setOrderNode_orderNodes, Function.update_same, hl, Option.bind_eq_bind, Option.some_bind,
    hob]
  split
  · refine isSome_bind_of_isSome (updateLevel_isSome _ a ob _) fun m₃ h₃ => ?_
    obtain ⟨cs, rfl⟩ := updateLevel_eq h₃
    refine isSome_bind_of_isSome ?_ fun _ _ => rfl
    exact bookDeleteOrder_isSome (L := L) (.of_books hB rfl) hob (by simp [hl]) (by simpa using hL)
  · exact isSome_bind_of_isSome (updateLevel_isSome _ a ob _) fun _ _ => rfl

variable {key : UInt32} {ob : OrderBook} {b : Nat} {p q : UInt64} {m₁ m₂ : MarketManager}
  {e₁ e₂ : ErrorCode}

/-- Every iteration fills its bid or its ask (it executes the smaller of their leaves
quantities), and the filled order is unregistered.
Source: `market_manager.go` `match`, `executeOrder`
Kind: L -/
theorem matchIter_fills (hI : Inv m none none) (hob : m.orderBooks key = some ob)
    (h : m.matchPair ob = some (b, a, p, q)) (h₁ : m.executeOrderNode b p q = some (m₁, e₁))
    (h₂ : m₁.executeOrderNode a p q = some (m₂, e₂)) :
    ((m.heap.orderNodes b).order.leavesQuantity = q ∧
        m₂.orders (m.heap.orderNodes b).order.id = none) ∨
      ((m.heap.orderNodes a).order.leavesQuantity = q ∧
        m₂.orders (m.heap.orderNodes a).order.id = none) := by
  obtain ⟨-, -, -, -, -, -, -, -, hq⟩ := MarketManager.matchPair_eq_some h
  obtain ⟨_, _, -, -, lb, -, -, -⟩ := hI.matchPair_linked hob h
  obtain ⟨-, hr₁, hv₁⟩ := hI.matchIter_registered hob h h₁
  obtain ⟨hI₁, ho₁, -⟩ := hI.executeOrderNode lb.registered h₁
  obtain ⟨-, ho₂, -⟩ := hI₁.executeOrderNode hr₁ h₂
  rw [hv₁] at ho₂
  split_ifs at hq
  · have ha : (m.heap.orderNodes a).order.leavesQuantity - q = 0 := by rw [hq, sub_self]
    exact .inr ⟨hq.symm, by rw [ho₂, if_pos ha, Function.update_same]⟩
  · have hb : (m.heap.orderNodes b).order.leavesQuantity - q = 0 := by rw [hq, sub_self]
    refine .inl ⟨hq.symm, ?_⟩
    rw [ho₂, ho₁, if_pos hb]
    split_ifs <;> simp [Function.update_apply]

/-- From a state where the invariant holds and the trees are AVL, the loop of `match` on a
book stops by its own test within `restingCount` iterations: both executions of every iteration
succeed, and every iteration lowers `restingCount`.
Source: `market_manager.go` `match`
Kind: L -/
theorem matchStops {m : MarketManager} {ob : OrderBook} (hI : Inv m none none) (hB : m.Balanced)
    (hob : m.orderBooks key = some ob) :
    ∃ k m', k ≤ m.restingCount key ∧ MatchStops key k m m' := by
  rcases hp : m.matchPair ob with _ | ⟨b, a, p, q⟩
  · exact ⟨0, m, Nat.zero_le _, .stop hob hp⟩
  · obtain ⟨_, _, -, -, lb, -, -, -⟩ := hI.matchPair_linked hob hp
    obtain ⟨⟨m₁, e₁⟩, h₁⟩ := Option.isSome_iff_exists.1 (hI.executeOrderNode_isSome hB lb.registered p q)
    obtain ⟨-, hr₁, -⟩ := hI.matchIter_registered hob hp h₁
    have hI₁ := (hI.executeOrderNode lb.registered h₁).1
    have hB₁ := hB.executeOrderNode h₁
    obtain ⟨⟨m₂, e₂⟩, h₂⟩ := Option.isSome_iff_exists.1 (hI₁.executeOrderNode_isSome hB₁ hr₁ p q)
    obtain ⟨ob₂, hob₂⟩ := Option.isSome_iff_exists.1 (by
      rw [executeOrderNode_books h₂, executeOrderNode_books h₁, hob]; rfl :
        (m₂.orderBooks key).isSome)
    have hlt := hI.restingCount_matchIter hob hp h₁ h₂
    obtain ⟨k, m', hk, hs⟩ := matchStops (hI.matchIter hob hp h₁ h₂) (hB₁.executeOrderNode h₂) hob₂
    exact ⟨k + 1, m', by omega, .step hob hp h₁ h₂ hs⟩
termination_by m.restingCount key

end Inv

/-- **Termination of matching.** From every reachable state, the loop of `match` on every book
stops by its own test after at most `restingCount` iterations, the number of orders resting in
the book's bid and ask trees at entry, and `matchBook`, which allows that many, returns the
state where it stops: it never runs out of its bound and no execution in it fails. Every
iteration, from every state the loop visits, fills its bid or its ask and unregisters it, and
lowers that count.
Source: `market_manager.go` `match`, `executeOrder`; `orderbook.go` `DeleteOrder`
Kind: P -/
theorem Reachable.match_terminates {m : MarketManager} (hm : Reachable m) {key : UInt32}
    {ob : OrderBook} (hob : m.orderBooks key = some ob) :
    (∃ k m', k ≤ m.restingCount key ∧ MatchStops key k m m' ∧ m.matchBook key = some m') ∧
    ∀ {m₁ m₂ m₃ : MarketManager} {ob₁ : OrderBook} {b a : Nat} {p q : UInt64} {e₁ e₂ : ErrorCode},
      MatchVisits key m m₁ → m₁.orderBooks key = some ob₁ →
      m₁.matchPair ob₁ = some (b, a, p, q) → m₁.executeOrderNode b p q = some (m₂, e₁) →
      m₂.executeOrderNode a p q = some (m₃, e₂) →
      m₃.restingCount key < m₁.restingCount key ∧
      (((m₁.heap.orderNodes b).order.leavesQuantity = q ∧
          m₃.orders (m₁.heap.orderNodes b).order.id = none) ∨
        ((m₁.heap.orderNodes a).order.leavesQuantity = q ∧
          m₃.orders (m₁.heap.orderNodes a).order.id = none)) := by
  refine ⟨?_, fun hv hob₁ hp h₁ h₂ => ?_⟩
  · obtain ⟨k, m', hk, hs⟩ := hm.inv.matchStops hm.balanced hob
    exact ⟨k, m', hk, hs, matchLoop_of_matchStops hs (Nat.lt_succ_of_le hk)⟩
  · have hI := hm.inv.of_matchVisits hv
    exact ⟨hI.restingCount_matchIter hob₁ hp h₁ h₂, hI.matchIter_fills hob₁ hp h₁ h₂⟩

/-- On the crossed book (a sell at 9 against bids at 10, matching off), `match` stops within
the three resting orders. -/
theorem crossed_match_terminates :
    Reachable crossed ∧ crossed.orderBooks 1 = some crossedBook ∧
    (∃ k m', k ≤ crossed.restingCount 1 ∧ MatchStops 1 k crossed m' ∧
      crossed.matchBook 1 = some m') ∧
    ∀ {m₁ m₂ m₃ : MarketManager} {ob₁ : OrderBook} {b a : Nat} {p q : UInt64} {e₁ e₂ : ErrorCode},
      MatchVisits 1 crossed m₁ → m₁.orderBooks 1 = some ob₁ →
      m₁.matchPair ob₁ = some (b, a, p, q) → m₁.executeOrderNode b p q = some (m₂, e₁) →
      m₂.executeOrderNode a p q = some (m₃, e₂) →
      m₃.restingCount 1 < m₁.restingCount 1 ∧
      (((m₁.heap.orderNodes b).order.leavesQuantity = q ∧
          m₃.orders (m₁.heap.orderNodes b).order.id = none) ∨
        ((m₁.heap.orderNodes a).order.leavesQuantity = q ∧
          m₃.orders (m₁.heap.orderNodes a).order.id = none)) :=
  ⟨crossed_reachable, rfl, Reachable.match_terminates crossed_reachable rfl⟩

end GoTrader.Matching
