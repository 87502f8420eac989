import GoTrader.Matching.MarketManager

/-!
# Runs of the market manager

* `Op` — one call of a public `MarketManager` method, with its arguments; `deleteSymbol` and
  `deleteOrderBook` also carry the order in which Go happens to iterate `m.orders`.
* `MarketManager.step` — the call, as the source runs it.
* `Op.Admissible` — the iteration order is a genuine enumeration of the registry's keys.
* `Reachable` — the states of every finite run from `NewMarketManager()`; `Reachable.run`
  extends one by a list of calls (`MarketManager.run`).
-/

namespace GoTrader.Matching

/-- The public operations of `MarketManager`.
Source: `market_manager.go` (exported methods)
Kind: D -/
inductive Op where
  | addSymbol (symbol : Symbol)
  | deleteSymbol (id : UInt32) (enum : List UInt64)
  | addOrderBook (symbol : Symbol)
  | deleteOrderBook (id : UInt32) (enum : List UInt64)
  | addOrder (order : Order)
  | reduceOrder (id quantity : UInt64)
  | modifyOrder (id newPrice newQuantity : UInt64)
  | mitigateOrder (id newPrice newQuantity : UInt64)
  | replaceOrder (id newID newPrice newQuantity : UInt64)
  | deleteOrder (id : UInt64)
  | executeOrder (id quantity : UInt64)
  | executeOrderWithPrice (id price quantity : UInt64)
  | matchSymbol (symbolID : UInt32)
  | enableMatching
  | disableMatching

namespace MarketManager

/-- One public call. Source: `market_manager.go`. Kind: D. Fidelity: exact -/
def step (m : MarketManager) : Op → Option (MarketManager × ErrorCode)
  | .addSymbol symbol => some (m.addSymbol symbol)
  | .deleteSymbol id enum => m.deleteSymbol id enum
  | .addOrderBook symbol => some (m.addOrderBook symbol)
  | .deleteOrderBook id enum => m.deleteOrderBook id enum
  | .addOrder order => m.addOrder order
  | .reduceOrder id quantity => m.reduceOrder id quantity
  | .modifyOrder id newPrice newQuantity => m.modifyOrder id newPrice newQuantity
  | .mitigateOrder id newPrice newQuantity => m.mitigateOrder id newPrice newQuantity
  | .replaceOrder id newID newPrice newQuantity => m.replaceOrder id newID newPrice newQuantity
  | .deleteOrder id => m.deleteOrder id
  | .executeOrder id quantity => m.executeOrder id quantity
  | .executeOrderWithPrice id price quantity => m.executeOrderWithPrice id price quantity
  | .matchSymbol symbolID => m.matchSymbol symbolID
  | .enableMatching => some (m.enableMatching, .errorOK)
  | .disableMatching => some (m.disableMatching, .errorOK)

/-- Make the calls `ops` one after the other, dropping their error codes; `none` if one of them
panics.
Source: none: a caller's sequence of calls
Kind: D -/
def run : MarketManager → List Op → Option MarketManager
  | m, [] => some m
  | m, op :: ops => (m.step op).bind fun r => run r.1 ops

end MarketManager

/-- `enum` lists each key of the map exactly once, as Go's `range` over a map does.
Source: Go `for ... range` over a map
Kind: D -/
def IsEnum {κ α : Type} (enum : List κ) (map : κ → Option α) : Prop :=
  enum.Nodup ∧ ∀ k, k ∈ enum ↔ (map k).isSome

/-- The iteration orders an operation carries are genuine. Source: none. Kind: D -/
def Op.Admissible (m : MarketManager) : Op → Prop
  | .deleteSymbol _ enum => IsEnum enum m.orders
  | .deleteOrderBook _ enum => IsEnum enum m.orders
  | _ => True

/-- The states of the finite runs from `NewMarketManager()`.
Source: none: the run semantics
Kind: D -/
inductive Reachable : MarketManager → Prop where
  | init : Reachable MarketManager.newMarketManager
  | step {m m' : MarketManager} {op : Op} {e : ErrorCode} :
      Reachable m → op.Admissible m → m.step op = some (m', e) → Reachable m'

/-- A run of calls that need no iteration order, from a reachable state, ends in one.
Source: none: the run semantics
Kind: L -/
theorem Reachable.run {m m' : MarketManager} {ops : List Op} (hm : Reachable m)
    (h : m.run ops = some m') (hops : ∀ op ∈ ops, ∀ m, op.Admissible m) : Reachable m' := by
  induction ops generalizing m with
  | nil => exact Option.some.inj h ▸ hm
  | cons op ops ih =>
    obtain ⟨⟨m₁, e⟩, h₁, h⟩ := Option.bind_eq_some.1 h
    exact ih (hm.step (hops op (List.mem_cons_self _ _) m) h₁) h
      fun o ho => hops o (List.mem_cons_of_mem _ ho)

/-- `ops` runs from `m` to `m'`, each call admissible in the state it is made in.
Source: none: the run semantics
Kind: D -/
inductive Runs : MarketManager → List Op → MarketManager → Prop where
  | nil (m : MarketManager) : Runs m [] m
  | cons {m m₁ m' : MarketManager} {op : Op} {ops : List Op} {e : ErrorCode} :
      op.Admissible m → m.step op = some (m₁, e) → Runs m₁ ops m' → Runs m (op :: ops) m'

/-- A run of calls that need no iteration order is a `Runs`.
Source: none: the run semantics
Kind: L -/
theorem Runs.of_run {m m' : MarketManager} {ops : List Op} (h : m.run ops = some m')
    (hops : ∀ op ∈ ops, ∀ m, op.Admissible m) : Runs m ops m' := by
  induction ops generalizing m with
  | nil => exact Option.some.inj h ▸ .nil m
  | cons op ops ih =>
    obtain ⟨⟨m₁, e⟩, h₁, h⟩ := Option.bind_eq_some.1 h
    exact .cons (hops op (List.mem_cons_self _ _) m) h₁
      (ih h fun o ho => hops o (List.mem_cons_of_mem _ ho))

theorem Runs.reachable {m m' : MarketManager} {ops : List Op} (h : Runs m ops m')
    (hm : Reachable m) : Reachable m' := by
  induction h with
  | nil => exact hm
  | cons hop hs _ ih => exact ih (hm.step hop hs)

end GoTrader.Matching
