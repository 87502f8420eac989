import GoTrader.Matching.Effects

/-!
# No crossed book

The spec's "between matching cycles, best-bid.price < best-ask.price", for the runs that turn
matching on before their first `AddOrder` and never turn it off (`EnablesFirst`).

* `MatchingInv` — the invariant of those runs: `Inv`, every book `Uncrossed`, and matching on
  unless the registry is empty. `MatchingInv.step` keeps it over every call such a run makes,
  from `Inv.step_effect`: calls that only take orders off a book keep every book uncrossed,
  and calls that put an order on a book end with `match`, which stops only when that book is
  uncrossed.
* `Runs.bestBid_lt_bestAsk` — after every call of such a run, every book with a best bid and a
  best ask has the bid's price strictly below the ask's, and both levels have a front order,
  so `match`'s nil-front exit is never reached.
-/

namespace GoTrader.Matching

open MarketManager

/-- `EnableMatching` comes before the first `AddOrder`, and `DisableMatching` never comes.
Source: none: the runs of the no-crossed-book contract
Kind: D -/
def EnablesFirst (ops : List Op) : Prop :=
  Op.disableMatching ∉ ops ∧
    ∀ pre o post, ops = pre ++ .addOrder o :: post → Op.enableMatching ∈ pre

/-- A run that enables matching after calls that neither add nor disable, and never disables
after.
Source: none
Kind: L -/
theorem enablesFirst_append {pre₀ post₀ : List Op}
    (hpre : ∀ op ∈ pre₀, op ≠ .disableMatching ∧ ∀ o, op ≠ .addOrder o)
    (hpost : Op.disableMatching ∉ post₀) : EnablesFirst (pre₀ ++ .enableMatching :: post₀) := by
  refine ⟨fun h => ?_, fun pre o post e => ?_⟩
  · rcases List.mem_append.1 h with h | h
    · exact (hpre _ h).1 rfl
    · exact hpost ((List.mem_cons.1 h).resolve_left nofun)
  · rcases List.append_eq_append_iff.1 e with ⟨a', rfl, h⟩ | ⟨c', rfl, h⟩
    · cases a' with
      | nil => cases h
      | cons x a' => cases h; exact List.mem_append_right _ (List.mem_cons_self _ _)
    · cases c' with
      | nil => cases h
      | cons x c' =>
        cases h
        exact absurd rfl ((hpre _ (List.mem_append_right _ (List.mem_cons_self _ _))).2 o)

/-- The invariant of the runs of `EnablesFirst`.
Source: none
Kind: D -/
structure MatchingInv (m : MarketManager) : Prop where
  inv : Inv m none none
  uncrossed : ∀ k, Uncrossed k m
  matching : m.matching = true ∨ ∀ id, m.orders id = none

namespace MatchingInv

variable {m m' mc : MarketManager} {e : ErrorCode}

theorem init : MatchingInv newMarketManager :=
  ⟨Inv.init, fun _ _ he => by simp [view, levelIds, newMarketManager] at he, .inr fun _ => rfl⟩

theorem of_shrinks (hg : MatchingInv m) (hs : Shrinks m m') : MatchingInv m' := by
  refine ⟨hs.inv, fun k => (hg.uncrossed k).of_shrinksAt (hs.levels k),
    hg.matching.imp (fun h => hs.matching.trans h) fun h id => ?_⟩
  cases h' : m'.orders id with
  | none => rfl
  | some a => simpa [h id] using hs.orders h'

theorem of_adds {key : UInt32} (hg : MatchingInv m) (hm : m.matching = true)
    (hA : AddsAt key m mc) (h : mc.matchIfEnabled key = some (m', e)) : MatchingInv m' := by
  obtain ⟨hs, hu⟩ := hA.inv.matchIfEnabled_effect h
  refine ⟨hs.inv, fun k => ?_, .inl (hs.matching.trans (hA.matching.trans hm))⟩
  by_cases hk : k = key
  · subst hk; exact hu (hA.matching.trans hm)
  · exact ((hg.uncrossed k).of_shrinksAt (hA.levels k hk)).of_shrinksAt (hs.levels k)

/-- Every call that is not `DisableMatching`, and is an `AddOrder` only with matching on, keeps
the invariant.
Source: `market_manager.go`
Kind: L -/
theorem step {op : Op} (hg : MatchingInv m) (hop : op.Admissible m)
    (hdis : op ≠ .disableMatching) (hadd : ∀ o, op = .addOrder o → m.matching = true)
    (h : m.step op = some (m', e)) : MatchingInv m' := by
  rcases hg.inv.step_effect hop h with ⟨-, rfl⟩ | ⟨rfl, -⟩ | hs | ⟨key, mc, hr, hA, -, hmc⟩
  · exact ⟨hg.inv.withMatching true, hg.uncrossed, .inl rfl⟩
  · exact absurd rfl hdis
  · exact hg.of_shrinks hs
  · refine hg.of_adds ?_ hA hmc
    rcases hr with ⟨id, hid⟩ | ⟨o, rfl⟩
    · exact hg.matching.resolve_right fun h => by simp [h id] at hid
    · exact hadd o rfl

/-- A run with no `DisableMatching`, in which each `AddOrder` finds matching on at its start or
`EnableMatching` earlier in the run, keeps the invariant.
Source: `market_manager.go`
Kind: L -/
theorem runs {ops : List Op} (h : Runs m ops m') (hg : MatchingInv m)
    (hdis : Op.disableMatching ∉ ops)
    (hadd : ∀ pre o post, ops = pre ++ .addOrder o :: post →
      m.matching = true ∨ Op.enableMatching ∈ pre) : MatchingInv m' := by
  induction h with
  | nil => exact hg
  | @cons m m₁ m' op ops e hop hs _ ih =>
    have hne : op ≠ .disableMatching := fun e => hdis (e ▸ List.mem_cons_self _ _)
    have hm₁ : m.matching = true ∨ op = .enableMatching → m₁.matching = true := fun hm => by
      by_cases hen : op = .enableMatching
      · subst hen; cases hs; rfl
      · exact (hg.inv.step_matching hop hs hen hne).trans (hm.resolve_right hen)
    have hg₁ := hg.step hop hne (fun o e => ((hadd [] o ops (by rw [e]; rfl)).resolve_right
      (List.not_mem_nil _))) hs
    refine ih hg₁ (fun h => hdis (List.mem_cons_of_mem _ h)) fun pre o post e => ?_
    rcases hadd (op :: pre) o post (by rw [e]; rfl) with hm | hen
    · exact .inl (hm₁ (.inl hm))
    · rcases List.mem_cons.1 hen with rfl | hen
      · exact .inl (hm₁ (.inr rfl))
      · exact .inr hen

end MatchingInv

theorem Inv.front_isSome {m : MarketManager} {k : UInt32} {i : LevelIndex} {L : Nat}
    (hI : Inv m none none) (hL : L ∈ m.levelIds k i) :
    (m.heap.levelNodes L).orderList.front.isSome := by
  cases hn : (m.heap.levelNodes L).orderList.nodes with
  | nil => exact absurd hn (hI.nonempty hL nofun)
  | cons => simp [OrderList.front, hn]

/-- After every call of a run from `NewMarketManager()` that calls `EnableMatching` before its
first `AddOrder` and never calls `DisableMatching`, every book with a best bid and a best ask
has `bestBid.Price < bestAsk.Price`, and both levels have a front order.
Source: `market_manager.go` `match`, `AddOrder` ... `ReplaceOrder`; `orderbook.go`
`(*OrderBook).DeleteLevel`
Kind: P -/
theorem Runs.bestBid_lt_bestAsk {ops : List Op} {n : Nat} {m : MarketManager}
    (hops : EnablesFirst ops) (h : Runs newMarketManager (ops.take n) m) {k : UInt32}
    {ob : OrderBook} {bb ba : Nat} (hob : m.orderBooks k = some ob)
    (hbb : ob.bestBid = some bb) (hba : ob.bestAsk = some ba) :
    m.heap.price bb < m.heap.price ba ∧ (m.heap.levelNodes bb).orderList.front.isSome ∧
      (m.heap.levelNodes ba).orderList.front.isSome := by
  have hg := MatchingInv.init.runs h (fun h => hops.1 (List.mem_of_mem_take h))
    fun pre o post e => .inr (hops.2 pre o (post ++ ops.drop n) (calc
      ops = ops.take n ++ ops.drop n := (List.take_append_drop n ops).symm
      _ = _ := by rw [e, List.append_assoc, List.cons_append]))
  have hb := hg.inv.best .bids hob
  have ha := hg.inv.best .asks hob
  rw [OrderBook.best_bids, hbb] at hb
  rw [OrderBook.best_asks, hba] at ha
  have hbL := List.mem_of_mem_head? hb.symm
  have haL := List.mem_of_mem_head? ha.symm
  exact ⟨hg.uncrossed k _ (List.mem_map_of_mem _ hbL) _ (List.mem_map_of_mem _ haL),
    hg.inv.front_isSome hbL, hg.inv.front_isSome haL⟩

/-- A run with matching on: a bid at 10, an ask at 12, and a sell at 9 that the bid fills.
Source: none: a run for the witness
Kind: D -/
def enabledOps : List Op :=
  [.addOrderBook ⟨1, [65]⟩, .enableMatching,
   .addOrder (newLimitOrder 1 1 orderSideBuy 10 5),
   .addOrder (newLimitOrder 2 1 orderSideSell 12 4),
   .addOrder (newLimitOrder 3 1 orderSideSell 9 2)]

/-- The state `enabledOps` reaches. Source: none. Kind: D -/
def enabled : MarketManager := (newMarketManager.run enabledOps).getD newMarketManager

/-- Its book. Source: none. Kind: D -/
def enabledBook : OrderBook := (enabled.orderBooks 1).getD (OrderBook.newOrderBook ⟨1, [65]⟩)

theorem enabled_bestBid_lt_bestAsk :
    EnablesFirst enabledOps ∧ Runs newMarketManager (enabledOps.take 5) enabled ∧
    enabled.orderBooks 1 = some enabledBook ∧ enabledBook.bestBid = some 1 ∧
    enabledBook.bestAsk = some 3 ∧
    (enabled.heap.price 1 < enabled.heap.price 3 ∧
      (enabled.heap.levelNodes 1).orderList.front.isSome ∧
      (enabled.heap.levelNodes 3).orderList.front.isSome) :=
  have hops : EnablesFirst enabledOps :=
    show EnablesFirst ([.addOrderBook ⟨1, [65]⟩] ++ .enableMatching :: enabledOps.drop 2) from
      enablesFirst_append (by simp) (by simp [enabledOps])
  have hrun : Runs newMarketManager (enabledOps.take 5) enabled :=
    Runs.of_run (show newMarketManager.run enabledOps = some enabled from rfl)
      (by simp [enabledOps, Op.Admissible])
  ⟨hops, hrun, rfl, rfl, rfl,
    Runs.bestBid_lt_bestAsk hops hrun (show enabled.orderBooks 1 = some enabledBook from rfl)
      (show enabledBook.bestBid = some 1 from rfl) (show enabledBook.bestAsk = some 3 from rfl)⟩

end GoTrader.Matching
