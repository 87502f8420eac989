import GoTrader.Matching.Shape

/-!
# The matching loop

* `MatchVisits key m m'` — started at `m`, the loop of `match` on book `key` runs its body's
  test again at `m'`.
* `Inv.restingCount_matchIter` — each iteration fills one of its two orders, which leaves the
  book, so `restingCount` drops.
* `Inv.price_time_priority` — every iteration, from a state where the engine invariant holds
  (every reachable state, and every state at which an operation calls `match`), executes the
  earliest-placed order at the highest bid price against the earliest-placed order at the
  lowest ask price, each for the smaller of their leaves quantities.
-/

namespace GoTrader.Matching

open MarketManager

/-- The states at which the loop of `match` on book `key`, started at `m`, runs the test at the
top of its body.
Source: `market_manager.go` `match` (the `for` loop)
Kind: D -/
inductive MatchVisits (key : UInt32) : MarketManager → MarketManager → Prop where
  | refl (m : MarketManager) : MatchVisits key m m
  | step {m m₁ m₂ m' : MarketManager} {ob : OrderBook} {b a : Nat} {p q : UInt64}
      {e₁ e₂ : ErrorCode} :
      m.orderBooks key = some ob → m.matchPair ob = some (b, a, p, q) →
      m.executeOrderNode b p q = some (m₁, e₁) → m₁.executeOrderNode a p q = some (m₂, e₂) →
      MatchVisits key m₂ m' → MatchVisits key m m'

/-- `restingCount` counts the orders of the bid and ask trees' views.
Source: none: infrastructure
Kind: L -/
theorem MarketManager.restingCount_eq (m : MarketManager) (key : UInt32) :
    m.restingCount key = View.count (m.view key .bids) + View.count (m.view key .asks) := by
  unfold restingCount view View.count levelIds
  split <;> next hk => simp [hk, List.map_map, Function.comp_def, Heap.nodes]

/-! ## A crossed book -/

/-- `demoOps`, matching still off, then a sell order at 9 that crosses the bids at 10.
Source: none: a run for the witnesses
Kind: D -/
def crossedOps : List Op := demoOps ++ [.addOrder (newLimitOrder 4 1 orderSideSell 9 2)]

/-- The state `crossedOps` reaches. Source: none. Kind: D -/
def crossed : MarketManager := (newMarketManager.run crossedOps).getD newMarketManager

/-- Its book. Source: none. Kind: D -/
def crossedBook : OrderBook := (crossed.orderBooks 1).getD (OrderBook.newOrderBook ⟨1, [65]⟩)

theorem crossed_reachable : Reachable crossed :=
  Reachable.init.run (show newMarketManager.run crossedOps = some crossed from rfl)
    (by simp [crossedOps, demoOps, Op.Admissible])

namespace Inv

variable {m : MarketManager} {key : UInt32} {ob : OrderBook} {b a : Nat} {p q : UInt64}

/-- The ask an iteration executes is still registered after the bid's execution.
Source: none: infrastructure
Kind: L -/
theorem matchIter_registered {m₁ : MarketManager} {e₁ : ErrorCode} (hI : Inv m none none)
    (hob : m.orderBooks key = some ob) (h : m.matchPair ob = some (b, a, p, q))
    (h₁ : m.executeOrderNode b p q = some (m₁, e₁)) :
    a ≠ b ∧ m₁.orders (m.heap.orderNodes a).order.id = some a ∧
      (m₁.heap.orderNodes a).order = (m.heap.orderNodes a).order := by
  obtain ⟨_, _, -, -, lb, la, -, -⟩ := hI.matchPair_linked hob h
  obtain ⟨-, ho₁, hv₁⟩ := hI.executeOrderNode lb.registered h₁
  have hab : a ≠ b := fun e => by subst e; exact absurd (lb.index.symm.trans la.index) nofun
  have hne : (m.heap.orderNodes a).order.id ≠ (m.heap.orderNodes b).order.id := fun e =>
    hab (Option.some.inj (la.registered.symm.trans (e ▸ lb.registered)))
  refine ⟨hab, ?_, by rw [hv₁, if_neg hab]⟩
  rw [ho₁]
  split_ifs
  · rw [Function.update_noteq hne]; exact la.registered
  · exact la.registered

/-- A count that an optional erasure leaves no larger. Source: none. Kind: L -/
theorem count_ite_erase_le (c : Prop) [Decidable c] (x : Nat) (v : List (UInt64 × List Nat)) :
    View.count (if c then View.erase x v else v) ≤ View.count v := by
  split_ifs
  · exact View.count_erase_le x v
  · exact le_rfl

/-- Every iteration fills its bid or its ask (it executes the smaller leaves quantity of the
two), and a filled order leaves the book: the number of resting orders drops.
Source: `market_manager.go` `match`, `executeOrder`
Kind: L -/
theorem restingCount_matchIter {m₁ m₂ : MarketManager} {e₁ e₂ : ErrorCode}
    (hI : Inv m none none) (hob : m.orderBooks key = some ob)
    (h : m.matchPair ob = some (b, a, p, q)) (h₁ : m.executeOrderNode b p q = some (m₁, e₁))
    (h₂ : m₁.executeOrderNode a p q = some (m₂, e₂)) :
    m₂.restingCount key < m.restingCount key := by
  obtain ⟨-, -, -, -, -, -, -, -, hq⟩ := MarketManager.matchPair_eq_some h
  obtain ⟨bb, ba, hbb, hba, lb, -, hbn, han⟩ := hI.matchPair_linked hob h
  obtain ⟨hab, hr₁, hv₁⟩ := hI.matchIter_registered hob h h₁
  have hI₁ := (hI.executeOrderNode lb.registered h₁).1
  have hw₁ := hI.view_executeOrderNode lb.registered h₁
  have hw₂ := hI₁.view_executeOrderNode hr₁ h₂
  rw [hv₁] at hw₂
  have hfill : (m.heap.orderNodes b).order.leavesQuantity - q = 0 ∨
      (m.heap.orderNodes a).order.leavesQuantity - q = 0 := by
    rw [hq]; split_ifs <;> simp
  have hbm : ∃ e ∈ m.view key .bids, b ∈ e.2 :=
    ⟨_, List.mem_map_of_mem _ (List.mem_of_mem_head? hbb), hbn⟩
  have ham : ∃ e ∈ m.view key .asks, a ∈ e.2 :=
    ⟨_, List.mem_map_of_mem _ (List.mem_of_mem_head? hba), han⟩
  simp only [restingCount_eq, hw₂, hw₁]
  have hB' := count_ite_erase_le ((m.heap.orderNodes b).order.leavesQuantity - q = 0) b
  have hA' := count_ite_erase_le ((m.heap.orderNodes a).order.leavesQuantity - q = 0) a
  by_cases hB : (m.heap.orderNodes b).order.leavesQuantity - q = 0
  · have h1 : View.count (if (m.heap.orderNodes b).order.leavesQuantity - q = 0 then
        View.erase b (m.view key .bids) else m.view key .bids) < View.count (m.view key .bids) := by
      rw [if_pos hB]; exact View.count_erase_lt b _ hbm
    have := hA' (if (m.heap.orderNodes b).order.leavesQuantity - q = 0 then
      View.erase b (m.view key .bids) else m.view key .bids)
    have := hA' (if (m.heap.orderNodes b).order.leavesQuantity - q = 0 then
      View.erase b (m.view key .asks) else m.view key .asks)
    have := hB' (m.view key .asks)
    omega
  · have h1 : View.count (if (m.heap.orderNodes a).order.leavesQuantity - q = 0 then
        View.erase a (if (m.heap.orderNodes b).order.leavesQuantity - q = 0 then
          View.erase b (m.view key .asks) else m.view key .asks)
        else if (m.heap.orderNodes b).order.leavesQuantity - q = 0 then
          View.erase b (m.view key .asks) else m.view key .asks) <
        View.count (m.view key .asks) := by
      rw [if_pos (hfill.resolve_left hB), if_neg hB]
      exact View.count_erase_lt a _ ham
    have := hA' (if (m.heap.orderNodes b).order.leavesQuantity - q = 0 then
      View.erase b (m.view key .bids) else m.view key .bids)
    have := hB' (m.view key .bids)
    omega

/-- Every state the loop visits keeps the invariant.
Source: `market_manager.go` `match`
Kind: L -/
theorem of_matchVisits {m' : MarketManager} (hI : Inv m none none) (hv : MatchVisits key m m') :
    Inv m' none none := by
  induction hv with
  | refl => exact hI
  | step hob hp h₁ h₂ _ ih => exact ih (hI.matchIter hob hp h₁ h₂)

/-- The front order of the first level of a tree was placed before every other order at that
level, and every other level of the tree comes after the first in the tree's direction.
Source: `level.go` `(*OrderList).PushBack` / `Front`; `avltree.go` `(*AVLTree).First`
Kind: L -/
theorem head_front {k : UInt32} {i : LevelIndex} {L L' c : Nat} (hI : Inv m none none)
    (hL : (m.levelIds k i).head? = some L) (hb : (m.heap.nodes L).head? = some b)
    (hL' : L' ∈ m.levelIds k i) (hc : c ∈ m.heap.nodes L') :
    (L' ≠ L → AVLTree.precedes i.descending (m.heap.price L) (m.heap.price L')) ∧
    (L' = L → c ≠ b → (m.heap.orderNodes b).placed < (m.heap.orderNodes c).placed) := by
  refine ⟨hI.head_precedes hL hL', ?_⟩
  rintro rfl hcb
  have hf := hI.fifo hL'
  rcases hn : m.heap.nodes L' with _ | ⟨d, l⟩
  · rw [hn] at hc; cases hc
  · rw [hn] at hb hc hf
    cases hb
    exact List.rel_of_pairwise_cons hf ((List.mem_cons.1 hc).resolve_left hcb)

/-- **Price-time priority.** At every iteration of `match` on book `key`, started at a state
where the engine invariant holds (every reachable state, `Reachable.inv`, and every state at
which an operation calls `match`), the bid executed is the earliest-placed order among those
resting at the highest bid price of the book, the ask executed is the earliest-placed order
among those resting at the lowest ask price, and both are executed for the same quantity,
the smaller of their leaves quantities. An order's placement stamp is the clock at the last
`linkOrder` that put it on a level list (`AddOrder`, and the re-insertion of `ModifyOrder`,
`MitigateOrder`, `ReplaceOrder`); nothing else writes it.
Source: `market_manager.go` `match`; `level.go` `(*OrderList).PushBack` / `Front`;
`orderbook.go` `(*OrderBook).AddOrder`
Kind: P -/
theorem price_time_priority {m₀ : MarketManager} (hI : Inv m₀ none none)
    (hv : MatchVisits key m₀ m) (hob : m.orderBooks key = some ob)
    (h : m.matchPair ob = some (b, a, p, q)) :
    (∃ L ∈ m.levelIds key .bids, b ∈ m.heap.nodes L ∧
      ∀ L' ∈ m.levelIds key .bids, ∀ c ∈ m.heap.nodes L',
        m.heap.price L' ≤ m.heap.price L ∧ (m.heap.price L' = m.heap.price L → c ≠ b →
          (m.heap.orderNodes b).placed < (m.heap.orderNodes c).placed)) ∧
    (∃ L ∈ m.levelIds key .asks, a ∈ m.heap.nodes L ∧
      ∀ L' ∈ m.levelIds key .asks, ∀ c ∈ m.heap.nodes L',
        m.heap.price L ≤ m.heap.price L' ∧ (m.heap.price L' = m.heap.price L → c ≠ a →
          (m.heap.orderNodes a).placed < (m.heap.orderNodes c).placed)) ∧
    q = min (m.heap.orderNodes b).order.leavesQuantity (m.heap.orderNodes a).order.leavesQuantity := by
  have hI' := hI.of_matchVisits hv
  obtain ⟨bb, ba, hbb, hba, -, hbo, hao, -, hq⟩ := MarketManager.matchPair_eq_some h
  have hb := hI'.best .bids hob
  have ha := hI'.best .asks hob
  rw [OrderBook.best_bids, hbb] at hb
  rw [OrderBook.best_asks, hba] at ha
  refine ⟨⟨bb, List.mem_of_mem_head? hb.symm, List.mem_of_mem_head? hbo,
    fun L' hL' c hc => ?_⟩, ⟨ba, List.mem_of_mem_head? ha.symm, List.mem_of_mem_head? hao,
    fun L' hL' c hc => ?_⟩, ?_⟩
  · obtain ⟨hpre, hfifo⟩ := hI'.head_front hb.symm hbo hL' hc
    by_cases e : L' = bb
    · subst e; exact ⟨UInt64.le_iff_toNat_le.2 (Nat.le_refl _), fun _ => hfifo rfl⟩
    · have := AVLTree.precedes_iff.1 (hpre e)
      simp only [LevelIndex.descending, if_true] at this
      refine ⟨UInt64.le_iff_toNat_le.2 (Nat.le_of_lt this), fun hp => ?_⟩
      rw [hp] at this; exact absurd this (Nat.lt_irrefl _)
  · obtain ⟨hpre, hfifo⟩ := hI'.head_front ha.symm hao hL' hc
    by_cases e : L' = ba
    · subst e; exact ⟨UInt64.le_iff_toNat_le.2 (Nat.le_refl _), fun _ => hfifo rfl⟩
    · have := AVLTree.precedes_iff.1 (hpre e)
      simp only [LevelIndex.descending] at this
      refine ⟨UInt64.le_iff_toNat_le.2 (Nat.le_of_lt this), fun hp => ?_⟩
      rw [hp] at this; exact absurd this (Nat.lt_irrefl _)
  · rw [hq]
    show _ = if _ ≤ _ then _ else _
    simp only [UInt64.lt_iff_toNat_lt, UInt64.le_iff_toNat_le]
    split_ifs <;> first | rfl | (apply UInt64.toNat.inj; omega)

end Inv

theorem crossed_price_time_priority :
    Inv crossed none none ∧ MatchVisits 1 crossed crossed ∧
    crossed.orderBooks 1 = some crossedBook ∧ crossed.matchPair crossedBook = some (0, 5, 9, 2) ∧
    (∃ L ∈ crossed.levelIds 1 .bids, 0 ∈ crossed.heap.nodes L ∧
      ∀ L' ∈ crossed.levelIds 1 .bids, ∀ c ∈ crossed.heap.nodes L',
        crossed.heap.price L' ≤ crossed.heap.price L ∧
        (crossed.heap.price L' = crossed.heap.price L → c ≠ 0 →
          (crossed.heap.orderNodes 0).placed < (crossed.heap.orderNodes c).placed)) ∧
    (∃ L ∈ crossed.levelIds 1 .asks, 5 ∈ crossed.heap.nodes L ∧
      ∀ L' ∈ crossed.levelIds 1 .asks, ∀ c ∈ crossed.heap.nodes L',
        crossed.heap.price L ≤ crossed.heap.price L' ∧
        (crossed.heap.price L' = crossed.heap.price L → c ≠ 5 →
          (crossed.heap.orderNodes 5).placed < (crossed.heap.orderNodes c).placed)) ∧
    (2 : UInt64) = min (crossed.heap.orderNodes 0).order.leavesQuantity
      (crossed.heap.orderNodes 5).order.leavesQuantity :=
  have hI := crossed_reachable.inv
  have hp : crossed.matchPair crossedBook = some (0, 5, 9, 2) := by decide
  ⟨hI, .refl _, rfl, hp, Inv.price_time_priority hI (.refl _) rfl hp⟩

end GoTrader.Matching
