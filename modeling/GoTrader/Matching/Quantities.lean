import GoTrader.Matching.Effects

/-!
# Order quantities

What the registered orders' quantities satisfy over every run.

`AddOrder` registers the caller's `Order` value as it is (`validateOrder` reads neither
`ExecutedQuantity` nor `LeavesQuantity`), and `ReduceOrder` lowers `LeavesQuantity` alone, so
`ExecutedQuantity + LeavesQuantity = Quantity` is neither established nor kept
(`reduced_quantities`). What holds is the inequality:

* `valueClosed_quantitiesOk` — `ExecutedQuantity + LeavesQuantity ≤ Quantity` (as integers) and
  `LeavesQuantity > 0` survive every change a call makes to a registered order's value;
* `Inv.step_registeredSatisfy` — one step keeps any such property of the registered orders
  when the order an `AddOrder` admits has it;
* `Runs.quantities` — so in every run whose admitted `AddOrder` arguments satisfy it, every
  registered order does.
-/

namespace GoTrader.Matching

open MarketManager

/-- `ExecutedQuantity + LeavesQuantity ≤ Quantity`, without wrap-around, and `LeavesQuantity > 0`.
Source: none: `spec.md` §3 (executed + leaves = quantity; leaves > 0 while registered), with
the equality weakened as `ReduceOrder` requires
Kind: D -/
def Order.QuantitiesOk (o : Order) : Prop :=
  o.executedQuantity.toNat + o.leavesQuantity.toNat ≤ o.quantity.toNat ∧ 0 < o.leavesQuantity.toNat

instance : DecidablePred Order.QuantitiesOk := fun _ => inferInstanceAs (Decidable (_ ∧ _))

/-- Every change a call makes to a registered order keeps `QuantitiesOk`.
Source: `market_manager.go` `executeOrder`, `ReduceOrder`, `ModifyOrder`, `MitigateOrder`,
`ReplaceOrder`
Kind: L -/
theorem valueClosed_quantitiesOk (R : UInt64 → Prop) : ValueClosed R Order.QuantitiesOk where
  fill o x h hx hne := by
    have hQ : o.quantity.toNat < 2 ^ 64 := o.quantity.toNat_lt_size
    have hne' : x.toNat ≠ o.leavesQuantity.toNat := fun e => hne (UInt64.eq_iff_toNat_eq.2 e)
    simp only [Order.QuantitiesOk] at h ⊢
    rw [UInt64.toNat_add_of_lt (by omega), UInt64.toNat_sub_of_le _ _ hx]
    omega
  reduce o x h hx hlt := by
    simp only [Order.QuantitiesOk] at h ⊢
    rw [UInt64.toNat_sub_of_le _ _ (Nat.le_of_lt hlt)]
    omega
  modify o p q _ hq := by
    have hq' : q.toNat ≠ 0 := fun e => hq (UInt64.eq_iff_toNat_eq.2 e)
    simp only [Order.QuantitiesOk]
    exact ⟨by simp, Nat.pos_of_ne_zero hq'⟩
  mitigate o p q _ hlt := by
    simp only [Order.QuantitiesOk]
    rw [UInt64.toNat_sub_of_le _ _ (Nat.le_of_lt hlt)]
    omega
  replace o id p q _ _ hq := by
    have hq' : q.toNat ≠ 0 := fun e => hq (UInt64.eq_iff_toNat_eq.2 e)
    exact ⟨by simp [replacement], Nat.pos_of_ne_zero hq'⟩

/-- One step keeps a `ValueClosed` property of the registered orders, when an `AddOrder` it
admits brings an order that has it and a `ReplaceOrder` takes a new ID the property allows.
Source: `market_manager.go`
Kind: L -/
theorem Inv.step_registeredSatisfy {m m' : MarketManager} {op : Op} {e : ErrorCode}
    {R : UInt64 → Prop} {P : Order → Prop} (hI : Inv m none none) (hop : op.Admissible m)
    (h : m.step op = some (m', e)) (hP : ValueClosed R P)
    (hadd : ∀ o, op = .addOrder o → validateOrder o = .errorOK → P o)
    (hrep : ∀ id newID p q, op = .replaceOrder id newID p q → R newID)
    (hs : RegisteredSatisfy P m) : RegisteredSatisfy P m' := by
  rcases hI.step_effect hop h with ⟨-, rfl⟩ | ⟨-, rfl⟩ | hsh | ⟨key, mc, -, hA, hv, hmc⟩
  · exact hs
  · exact hs
  · exact hsh.values hP hs
  · exact (hA.inv.matchIfEnabled_effect hmc).1.values hP (hv hP hadd hrep hs)

/-- A run from a reachable state keeps a `ValueClosed` property of the registered orders when
every order its `AddOrder` calls admit has it and its `ReplaceOrder` calls take new IDs the
property allows.
Source: `market_manager.go`
Kind: L -/
theorem Runs.registeredSatisfy {R : UInt64 → Prop} {P : Order → Prop} (hP : ValueClosed R P)
    {m₀ m : MarketManager} {ops : List Op} (h : Runs m₀ ops m) (hm : Reachable m₀)
    (hadd : ∀ o, Op.addOrder o ∈ ops → validateOrder o = .errorOK → P o)
    (hrep : ∀ id newID p q, Op.replaceOrder id newID p q ∈ ops → R newID)
    (hs : RegisteredSatisfy P m₀) : RegisteredSatisfy P m := by
  induction h with
  | nil => exact hs
  | cons hop hst _ ih =>
    exact ih (hm.step hop hst) (fun o ho => hadd o (List.mem_cons_of_mem _ ho))
      (fun _ _ _ _ ho => hrep _ _ _ _ (List.mem_cons_of_mem _ ho))
      (hm.inv.step_registeredSatisfy hop hst hP
        (fun o e => hadd o (e ▸ List.mem_cons_self _ _))
        (fun _ _ _ _ e => hrep _ _ _ _ (by rw [← e]; exact List.mem_cons_self _ _)) hs)

/-- In every run from `NewMarketManager()` in which each `Order` that `AddOrder` admits has
`ExecutedQuantity + LeavesQuantity ≤ Quantity` and `LeavesQuantity > 0`, every registered order
has them too.
Source: `market_manager.go` `AddOrder`, `ReduceOrder`, `ModifyOrder`, `MitigateOrder`,
`ReplaceOrder`, `executeOrder`, `match`
Kind: P -/
theorem Runs.quantities {ops : List Op} {m : MarketManager}
    (hadd : ∀ o, Op.addOrder o ∈ ops → validateOrder o = .errorOK → o.QuantitiesOk)
    (h : Runs newMarketManager ops m) {id : UInt64} {a : Nat} (hr : m.orders id = some a) :
    (m.heap.orderNodes a).order.executedQuantity.toNat +
        (m.heap.orderNodes a).order.leavesQuantity.toNat ≤
      (m.heap.orderNodes a).order.quantity.toNat ∧
    0 < (m.heap.orderNodes a).order.leavesQuantity.toNat :=
  h.registeredSatisfy (valueClosed_quantitiesOk fun _ => True) .init hadd (fun _ _ _ _ _ => trivial)
    (fun _ _ h => by cases h) _ _ hr

/-- The book, an order of 5, then a reduce by 2, then an order whose `LeavesQuantity` is 0.
Source: none: a run for the counterexample
Kind: D -/
def reducedOps : List Op :=
  [.addOrderBook ⟨1, [65]⟩, .addOrder (newLimitOrder 1 1 orderSideBuy 10 5), .reduceOrder 1 2,
   .addOrder { newLimitOrder 2 1 orderSideBuy 10 5 with leavesQuantity := 0 }]

/-- The state `reducedOps` reaches. Source: none. Kind: D -/
def reduced : MarketManager := (newMarketManager.run reducedOps).getD newMarketManager

/-- After `ReduceOrder(1, 2)` order 1 has `ExecutedQuantity + LeavesQuantity = 0 + 3 ≠ 5 =
Quantity`, and `AddOrder` registered order 2 with `LeavesQuantity = 0`. -/
theorem reduced_quantities :
    Reachable reduced ∧ reduced.orders 1 = some 0 ∧
    (reduced.heap.orderNodes 0).order.executedQuantity +
      (reduced.heap.orderNodes 0).order.leavesQuantity ≠
      (reduced.heap.orderNodes 0).order.quantity ∧
    reduced.orders 2 = some 2 ∧ (reduced.heap.orderNodes 2).order.leavesQuantity = 0 :=
  ⟨Reachable.init.run (show newMarketManager.run reducedOps = some reduced from rfl)
    (by simp [reducedOps, Op.Admissible]), by decide, by decide, by decide, by decide⟩

/-- The run of `reducedOps` without its last call. Source: none: a run for the witness. Kind: D -/
def reducedPrefix : MarketManager :=
  (newMarketManager.run (reducedOps.take 3)).getD newMarketManager

theorem reducedPrefix_quantities :
    (∀ o, Op.addOrder o ∈ reducedOps.take 3 → validateOrder o = .errorOK → o.QuantitiesOk) ∧
    Runs newMarketManager (reducedOps.take 3) reducedPrefix ∧ reducedPrefix.orders 1 = some 0 ∧
    ((reducedPrefix.heap.orderNodes 0).order.executedQuantity.toNat +
        (reducedPrefix.heap.orderNodes 0).order.leavesQuantity.toNat ≤
      (reducedPrefix.heap.orderNodes 0).order.quantity.toNat ∧
    0 < (reducedPrefix.heap.orderNodes 0).order.leavesQuantity.toNat) :=
  have hadd : ∀ o, Op.addOrder o ∈ reducedOps.take 3 → validateOrder o = .errorOK →
      o.QuantitiesOk := fun o ho _ => by
    simp only [reducedOps, List.take, List.mem_cons, Op.addOrder.injEq, List.mem_nil_iff,
      or_false, reduceCtorEq, false_or] at ho
    subst ho
    decide
  have hrun : Runs newMarketManager (reducedOps.take 3) reducedPrefix :=
    Runs.of_run (show newMarketManager.run (reducedOps.take 3) = some reducedPrefix from rfl)
      (by simp [reducedOps, Op.Admissible])
  ⟨hadd, hrun, by decide, Runs.quantities hadd hrun (show reducedPrefix.orders 1 = some 0 by decide)⟩

end GoTrader.Matching
