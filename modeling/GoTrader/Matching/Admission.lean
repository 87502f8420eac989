import GoTrader.Matching.Quantities

/-!
# What admission leaves in force

`AddOrder` admits only orders that pass `validateOrder`, but the calls that later rewrite a
registered order check less. `ModifyOrder`, `MitigateOrder` and `ReplaceOrder` take any new
price, as their descriptions say. `ReplaceOrder` also takes the new ID 0, which `validateOrder`
rejects and the order ID's description reserves as invalid: it only checks that no order holds
the new ID. So a reachable state can hold orders that `AddOrder` would reject
(`modify_replace_break_admission`). In a run whose `ReplaceOrder` calls take no new ID 0, every
later change keeps the rest of the checks:

* `Order.AdmissionKept` — a non-zero ID and quantity, and the stop price or trailing distance
  the order's type requires; `admissionKept_of_validateOrder` — `validateOrder` enforces it;
* `valueClosed_admissionKept` — every change a call makes to a registered order keeps it,
  `ReplaceOrder`'s when the new ID is not 0;
* `Runs.admission_kept` — so in every run from `NewMarketManager()` whose `ReplaceOrder` calls
  take no new ID 0, every registered order has `AdmissionKept`.
-/

namespace GoTrader.Matching

open MarketManager

/-- The checks of `validateOrder` that no later change of a registered order undoes, when
`ReplaceOrder` takes no new ID 0: `ID != 0`, `Quantity != 0`, `StopPrice != 0` for stop and
stop-limit orders, and `TrailingDistance != 0` for trailing-stop and trailing-stop-limit orders.
Source: `market_manager.go` `validateOrder`, less its checks of `Price`
Kind: D -/
def Order.AdmissionKept (o : Order) : Prop :=
  o.id ≠ 0 ∧ o.quantity ≠ 0 ∧
    ((o.type = orderTypeStop ∨ o.type = orderTypeStopLimit) → o.stopPrice ≠ 0) ∧
    ((o.type = orderTypeTrailingStop ∨ o.type = orderTypeTrailingStopLimit) →
      o.trailingDistance ≠ 0)

instance : DecidablePred Order.AdmissionKept :=
  fun _ => inferInstanceAs (Decidable (_ ∧ _ ∧ _ ∧ _))

/-- An order that passes `validateOrder` has what admission leaves in force.
Source: `market_manager.go` `validateOrder`
Kind: L -/
theorem admissionKept_of_validateOrder {o : Order} (h : validateOrder o = .errorOK) :
    o.AdmissionKept := by
  unfold validateOrder at h
  refine ⟨fun hid => ?_, fun hq => ?_, fun ht hs => ?_, fun ht hd => ?_⟩
  · rw [if_pos hid] at h
    cases h
  · simp only [hq, if_true, ite_self] at h
    split_ifs at h
  · rcases ht with ht | ht <;>
    simp only [ht, hs, if_neg (show orderTypeStop ≠ orderTypeLimit by decide),
      if_neg (show orderTypeStopLimit ≠ orderTypeLimit by decide),
      if_neg (show orderTypeStopLimit ≠ orderTypeStop by decide), if_true, or_true,
      ite_self] at h <;>
    split_ifs at h
  · rcases ht with ht | ht <;>
    simp only [ht, hd, if_neg (show orderTypeTrailingStop ≠ orderTypeLimit by decide),
      if_neg (show orderTypeTrailingStop ≠ orderTypeStop by decide),
      if_neg (show orderTypeTrailingStop ≠ orderTypeStopLimit by decide),
      if_neg (show orderTypeTrailingStopLimit ≠ orderTypeLimit by decide),
      if_neg (show orderTypeTrailingStopLimit ≠ orderTypeStop by decide),
      if_neg (show orderTypeTrailingStopLimit ≠ orderTypeStopLimit by decide),
      if_neg (show orderTypeTrailingStopLimit ≠ orderTypeTrailingStop by decide),
      if_true, or_true, ite_self] at h <;>
    split_ifs at h

/-- The ID, quantity, type, stop price and trailing distance are what `AdmissionKept` reads;
fills and reductions do not touch them, the rewrites set a non-zero quantity and keep the rest,
and `ReplaceOrder` sets the new ID, here one other than 0.
Source: `market_manager.go` `executeOrder`, `ReduceOrder`, `ModifyOrder`, `MitigateOrder`,
`ReplaceOrder`
Kind: L -/
theorem valueClosed_admissionKept : ValueClosed (· ≠ 0) Order.AdmissionKept where
  fill _ _ h _ _ := h
  reduce _ _ h _ _ := h
  modify _ _ _ h hq := ⟨h.1, hq, h.2.2⟩
  mitigate _ _ q h hlt :=
    ⟨h.1, fun (hq : q = 0) => by rw [hq] at hlt; exact Nat.not_lt_zero _ hlt, h.2.2⟩
  replace _ _ _ _ hid h hq := ⟨hid, hq, h.2.2⟩

/-- In every run from `NewMarketManager()` whose `ReplaceOrder` calls take no new ID 0, every
registered order has a non-zero ID and quantity, and the stop price or trailing distance its
type requires.
Source: `market_manager.go` (`validateOrder` and every call that changes a registered order)
Kind: P -/
theorem Runs.admission_kept {ops : List Op} {m : MarketManager}
    (hrep : ∀ id newID p q, Op.replaceOrder id newID p q ∈ ops → newID ≠ 0)
    (h : Runs newMarketManager ops m) {id : UInt64} {a : Nat} (hr : m.orders id = some a) :
    (m.heap.orderNodes a).order.AdmissionKept :=
  h.registeredSatisfy valueClosed_admissionKept .init
    (fun _ _ => admissionKept_of_validateOrder) hrep (fun _ _ h => by cases h) _ _ hr

/-- A book, a limit order, `ModifyOrder` to price 0, then `ReplaceOrder` with the new ID 2.
Source: none: a run for the witness
Kind: D -/
def renumberedOps : List Op :=
  [.addOrderBook ⟨1, [65]⟩, .addOrder (newLimitOrder 1 1 orderSideBuy 10 5), .modifyOrder 1 0 5,
   .replaceOrder 1 2 10 5]

/-- The state `renumberedOps` reaches. Source: none. Kind: D -/
def renumbered : MarketManager := (newMarketManager.run renumberedOps).getD newMarketManager

/-- The replacing order 2 has what admission leaves in force. -/
theorem renumbered_admission_kept :
    (∀ id newID p q, Op.replaceOrder id newID p q ∈ renumberedOps → newID ≠ 0) ∧
    Runs newMarketManager renumberedOps renumbered ∧ renumbered.orders 2 = some 3 ∧
      (renumbered.heap.orderNodes 3).order.AdmissionKept :=
  have hrep : ∀ id newID p q, Op.replaceOrder id newID p q ∈ renumberedOps → newID ≠ 0 := by
    simp only [renumberedOps, List.mem_cons, List.mem_singleton, List.not_mem_nil, or_false]
    rintro _ _ _ _ (h | h | h | h) <;> cases h
    decide
  have hrun : Runs newMarketManager renumberedOps renumbered :=
    Runs.of_run (show newMarketManager.run renumberedOps = some renumbered from rfl)
      (by simp [renumberedOps, Op.Admissible])
  have hr : renumbered.orders 2 = some 3 := by decide
  ⟨hrep, hrun, hr, Runs.admission_kept hrep hrun hr⟩

/-! ## Orders that `AddOrder` would reject -/

/-- A book, a limit order, `ModifyOrder` to price 0, then `ReplaceOrder` with the new ID 0.
Source: none: a run for the counterexample
Kind: D -/
def zeroedOps : List Op :=
  [.addOrderBook ⟨1, [65]⟩, .addOrder (newLimitOrder 1 1 orderSideBuy 10 5), .modifyOrder 1 0 5,
   .replaceOrder 1 0 10 5]

/-- The state after the `ModifyOrder`. Source: none. Kind: D -/
def modifiedToZero : MarketManager :=
  (newMarketManager.run (zeroedOps.take 3)).getD newMarketManager

/-- The state after the `ReplaceOrder`. Source: none. Kind: D -/
def replacedByZero : MarketManager := (newMarketManager.run zeroedOps).getD newMarketManager

theorem reachable_modifiedToZero : Reachable modifiedToZero :=
  Reachable.init.run (show newMarketManager.run (zeroedOps.take 3) = some modifiedToZero from rfl)
    (by simp [zeroedOps, Op.Admissible])

theorem reachable_replacedByZero : Reachable replacedByZero :=
  Reachable.init.run (show newMarketManager.run zeroedOps = some replacedByZero from rfl)
    (by simp [zeroedOps, Op.Admissible])

/-- `ModifyOrder(1, 0, 5)` leaves limit order 1 registered with price 0, and
`ReplaceOrder(1, 0, 10, 5)` then registers an order with ID 0: `validateOrder` rejects both. -/
theorem modify_replace_break_admission :
    Reachable modifiedToZero ∧ modifiedToZero.orders 1 = some 0 ∧
    validateOrder (modifiedToZero.heap.orderNodes 0).order = .errorOrderParameterInvalid ∧
    Reachable replacedByZero ∧ replacedByZero.orders 0 = some 3 ∧
    validateOrder (replacedByZero.heap.orderNodes 3).order = .errorOrderIDInvalid :=
  ⟨reachable_modifiedToZero, by decide, by decide, reachable_replacedByZero, by decide, by decide⟩

end GoTrader.Matching
