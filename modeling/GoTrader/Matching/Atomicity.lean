import GoTrader.Matching.Run

/-!
# Error atomicity of the engine

Every public `MarketManager` method checks all it rejects on before its first write, so a call
that returns a code other than `ErrorOK` returns the state it was given: its registries, books,
order nodes and handler log are untouched.

* `ReturnsOK` — every result a call can give carries `ErrorOK`: the success paths, which end in
  `matchIfEnabled`, `executeOrderNode`, a `DeleteOrder` of a registered order or a literal
  `ErrorOK`;
* `FailsClean` — a result with another code is the state the call was given; one lemma per
  method;
* `step_failsClean` — every operation, by cases;
* `step_error_atomic` — the statement over `step`.
-/

namespace GoTrader.Matching

namespace MarketManager

/-! ## Results that carry `ErrorOK` -/

/-- Every result the call can give carries `ErrorOK`. Source: none. Kind: D -/
def ReturnsOK (r : Option (MarketManager × ErrorCode)) : Prop :=
  ∀ p ∈ r, p.2 = .errorOK

theorem ReturnsOK.ok (m : MarketManager) : ReturnsOK (some (m, .errorOK)) := by
  simp [ReturnsOK]

theorem ReturnsOK.bind {α : Type} {x : Option α} {f : α → Option (MarketManager × ErrorCode)}
    (h : ∀ a, ReturnsOK (f a)) : ReturnsOK (x.bind f) := by
  intro p hp
  obtain ⟨a, -, hf⟩ := Option.bind_eq_some.1 hp
  exact h a p hf

theorem ReturnsOK.map_ok (x : Option MarketManager) : ReturnsOK (x.map (·, .errorOK)) := by
  intro p hp
  obtain ⟨m, -, rfl⟩ := Option.map_eq_some'.1 hp
  rfl

theorem matchIfEnabled_returnsOK (m : MarketManager) (key : UInt32) :
    ReturnsOK (m.matchIfEnabled key) := by
  unfold matchIfEnabled
  split
  · exact .map_ok _
  · exact .ok m

theorem executeOrderNode_returnsOK (m : MarketManager) (a : Nat) (price quantity : UInt64) :
    ReturnsOK (m.executeOrderNode a price quantity) := by
  unfold executeOrderNode
  refine .bind fun heap => ?_
  split
  · exact .bind fun _ => .bind fun _ => .ok _
  · exact .bind fun _ => .ok _

theorem deleteOrder_returnsOK {m : MarketManager} {id : UInt64} {a : Nat}
    (h : m.orders id = some a) : ReturnsOK (m.deleteOrder id) := by
  rw [deleteOrder, h]
  exact .bind fun _ => .bind fun _ => .ok _

/-! ## Calls that fail cleanly -/

/-- Whenever the call returns a code other than `ErrorOK`, it returns `m` itself.
Source: none. Kind: D -/
def FailsClean (m : MarketManager) (r : Option (MarketManager × ErrorCode)) : Prop :=
  ∀ m' e, r = some (m', e) → e ≠ .errorOK → m' = m

theorem FailsClean.of_returnsOK {m : MarketManager} {r : Option (MarketManager × ErrorCode)}
    (h : ReturnsOK r) : FailsClean m r :=
  fun _ _ hr he => absurd (h _ hr) he

theorem FailsClean.same (m : MarketManager) (e : ErrorCode) : FailsClean m (some (m, e)) := by
  rintro m' e' ⟨⟩ -
  rfl

theorem addSymbol_failsClean (m : MarketManager) (symbol : Symbol) :
    FailsClean m (some (m.addSymbol symbol)) := by
  unfold addSymbol
  split
  · exact .same m _
  · exact .of_returnsOK (.ok _)

theorem addOrderBook_failsClean (m : MarketManager) (symbol : Symbol) :
    FailsClean m (some (m.addOrderBook symbol)) := by
  unfold addOrderBook
  split
  · exact .same m _
  · exact .of_returnsOK (.ok _)

theorem deleteOrder_failsClean (m : MarketManager) (id : UInt64) :
    FailsClean m (m.deleteOrder id) := by
  cases h : m.orders id with
  | none => rw [deleteOrder, h]; exact .same m _
  | some a => exact .of_returnsOK (deleteOrder_returnsOK h)

theorem deleteOrderBook_failsClean (m : MarketManager) (id : UInt32) (enum : List UInt64) :
    FailsClean m (m.deleteOrderBook id enum) := by
  unfold deleteOrderBook
  split
  · exact .same m _
  · exact .of_returnsOK (.bind fun _ => .ok _)

theorem deleteSymbol_failsClean (m : MarketManager) (id : UInt32) (enum : List UInt64) :
    FailsClean m (m.deleteSymbol id enum) := by
  unfold deleteSymbol
  split
  · exact .same m _
  · dsimp only
    exact .of_returnsOK (by split <;> exact .bind fun _ => .ok _)

theorem addOrder_failsClean (m : MarketManager) (order : Order) :
    FailsClean m (m.addOrder order) := by
  unfold addOrder
  split_ifs
  · exact .same m _
  · exact .same m _
  · exact .same m _
  · exact .of_returnsOK (.bind fun _ => .bind fun _ => matchIfEnabled_returnsOK _ _)

theorem reduceOrder_failsClean (m : MarketManager) (id quantity : UInt64) :
    FailsClean m (m.reduceOrder id quantity) := by
  cases h : m.orders id with
  | none => rw [reduceOrder, h]; exact .same m _
  | some a =>
    rw [reduceOrder, h]
    dsimp only
    split_ifs
    · exact .same m _
    · exact .of_returnsOK (deleteOrder_returnsOK h)
    · exact .of_returnsOK (.bind fun _ => .bind fun _ => .ok _)

theorem modifyOrder_failsClean (m : MarketManager) (id newPrice newQuantity : UInt64) :
    FailsClean m (m.modifyOrder id newPrice newQuantity) := by
  unfold modifyOrder
  split
  · exact .same m _
  · split_ifs
    · exact .same m _
    · exact .of_returnsOK
        (.bind fun _ => .bind fun _ => .bind fun _ => .bind fun _ => matchIfEnabled_returnsOK _ _)

theorem mitigateOrder_failsClean (m : MarketManager) (id newPrice newQuantity : UInt64) :
    FailsClean m (m.mitigateOrder id newPrice newQuantity) := by
  cases h : m.orders id with
  | none => rw [mitigateOrder, h]; exact .same m _
  | some a =>
    rw [mitigateOrder, h]
    dsimp only
    split_ifs
    · exact .of_returnsOK (deleteOrder_returnsOK h)
    · exact .of_returnsOK
        (.bind fun _ => .bind fun _ => .bind fun _ => .bind fun _ => matchIfEnabled_returnsOK _ _)

theorem replaceOrder_failsClean (m : MarketManager) (id newID newPrice newQuantity : UInt64) :
    FailsClean m (m.replaceOrder id newID newPrice newQuantity) := by
  unfold replaceOrder
  split
  · exact .same m _
  · split_ifs
    · exact .same m _
    · exact .same m _
    · exact .of_returnsOK
        (.bind fun _ => .bind fun _ => .bind fun _ => .bind fun _ => matchIfEnabled_returnsOK _ _)

theorem executeOrder_failsClean (m : MarketManager) (id quantity : UInt64) :
    FailsClean m (m.executeOrder id quantity) := by
  unfold executeOrder
  split
  · exact .same m _
  · dsimp only
    split_ifs
    · exact .same m _
    · exact .of_returnsOK (executeOrderNode_returnsOK _ _ _ _)

theorem executeOrderWithPrice_failsClean (m : MarketManager) (id price quantity : UInt64) :
    FailsClean m (m.executeOrderWithPrice id price quantity) := by
  unfold executeOrderWithPrice
  split
  · exact .same m _
  · dsimp only
    split_ifs
    · exact .same m _
    · exact .of_returnsOK (executeOrderNode_returnsOK _ _ _ _)

theorem matchSymbol_failsClean (m : MarketManager) (symbolID : UInt32) :
    FailsClean m (m.matchSymbol symbolID) := by
  unfold matchSymbol
  split
  · exact .same m _
  · exact .of_returnsOK (.map_ok _)

/-- Every public call fails cleanly, from every state. Source: none. Kind: L -/
theorem step_failsClean (m : MarketManager) : ∀ op : Op, FailsClean m (m.step op)
  | .addSymbol symbol => addSymbol_failsClean m symbol
  | .deleteSymbol id enum => deleteSymbol_failsClean m id enum
  | .addOrderBook symbol => addOrderBook_failsClean m symbol
  | .deleteOrderBook id enum => deleteOrderBook_failsClean m id enum
  | .addOrder order => addOrder_failsClean m order
  | .reduceOrder id quantity => reduceOrder_failsClean m id quantity
  | .modifyOrder id newPrice newQuantity => modifyOrder_failsClean m id newPrice newQuantity
  | .mitigateOrder id newPrice newQuantity => mitigateOrder_failsClean m id newPrice newQuantity
  | .replaceOrder id newID newPrice newQuantity =>
    replaceOrder_failsClean m id newID newPrice newQuantity
  | .deleteOrder id => deleteOrder_failsClean m id
  | .executeOrder id quantity => executeOrder_failsClean m id quantity
  | .executeOrderWithPrice id price quantity => executeOrderWithPrice_failsClean m id price quantity
  | .matchSymbol symbolID => matchSymbol_failsClean m symbolID
  | .enableMatching => .of_returnsOK (.ok _)
  | .disableMatching => .of_returnsOK (.ok _)

/-- A public call that returns a code other than `ErrorOK` returns the state it was given: the
symbol, book and order registries, every book and order node, and the handler log are those of
before the call. Source: none. Kind: P -/
theorem step_error_atomic {m m' : MarketManager} {op : Op} {e : ErrorCode}
    (h : m.step op = some (m', e)) (he : e ≠ .errorOK) : m' = m :=
  step_failsClean m op m' e h he

/-- `AddOrder` of an order with ID 0 on a fresh engine returns `ErrorOrderIDInvalid` and the
engine as it was. -/
theorem addOrder_id_zero_atomic :
    newMarketManager.step (.addOrder (newLimitOrder 0 1 orderSideBuy 10 5)) =
        some (newMarketManager, .errorOrderIDInvalid) ∧
      ErrorCode.errorOrderIDInvalid ≠ .errorOK ∧ newMarketManager = newMarketManager := by
  have h : newMarketManager.step (.addOrder (newLimitOrder 0 1 orderSideBuy 10 5)) =
      some (newMarketManager, .errorOrderIDInvalid) := rfl
  exact ⟨h, by decide, step_error_atomic h (by decide)⟩

end MarketManager

end GoTrader.Matching
