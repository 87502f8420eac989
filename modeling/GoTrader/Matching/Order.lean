import Mathlib.Logic.Function.Basic
import Mathlib.Data.UInt

/-!
# Orders, symbols and error codes

The value types of package `matching` (`order.go`, `symbol.go`, `errors.go`,
`update.go`'s `UpdateType`), as the engine reads them:

* `Order` — the public command value, with Go's field types: `uint64` as `UInt64`, `uint32` as
  `UInt32`, the `uint8` enums as `UInt8` (so out-of-range bytes are values, as in Go) and `int64`
  as `Int64 := BitVec 64`.
* `Order.hiddenQuantity` / `Order.visibleQuantity` — the iceberg split of `LeavesQuantity`.
* `ErrorCode` — the result codes of every `MarketManager` operation.

The `String` methods, `NewSymbol`'s truncation and the `Error()` texts are not read by any
modelled function and are left out.
-/

namespace GoTrader

/-- Go's `int64`, as its two's-complement bit pattern.
Source: Go builtin `int64`
Kind: D
Fidelity: exact -/
abbrev Int64 := BitVec 64

/-! ## `uint64` arithmetic through `toNat` -/

/-- `<` on `UInt64` is `<` on the values. Source: none: infrastructure. Kind: L -/
theorem UInt64.lt_iff_toNat_lt {a b : UInt64} : a < b ↔ a.toNat < b.toNat := Iff.rfl

/-- `≤` on `UInt64` is `≤` on the values. Source: none: infrastructure. Kind: L -/
theorem UInt64.le_iff_toNat_le {a b : UInt64} : a ≤ b ↔ a.toNat ≤ b.toNat := Iff.rfl

/-- Equality on `UInt64` is equality of the values. Source: none: infrastructure. Kind: L -/
theorem UInt64.eq_iff_toNat_eq {a b : UInt64} : a = b ↔ a.toNat = b.toNat :=
  ⟨congrArg _, UInt64.toNat.inj⟩

/-- Addition wraps modulo `2^64`. Source: none: infrastructure. Kind: L -/
theorem UInt64.toNat_add_eq (a b : UInt64) : (a + b).toNat = (a.toNat + b.toNat) % 2 ^ 64 := rfl

/-- `uint64` addition without wrap-around. Source: none: infrastructure. Kind: L -/
theorem UInt64.toNat_add_of_lt {a b : UInt64} (h : a.toNat + b.toNat < 2 ^ 64) :
    (a + b).toNat = a.toNat + b.toNat := by
  rw [UInt64.toNat_add_eq]; exact Nat.mod_eq_of_lt h

/-- `UInt64.ofNat` reduces modulo `2^64`. Source: none: infrastructure. Kind: L -/
theorem UInt64.toNat_ofNat_eq (n : Nat) : (UInt64.ofNat n).toNat = n % 2 ^ 64 := by
  simp [UInt64.ofNat, UInt64.toNat]

/-- Counting one more in `uint64`. Source: none: infrastructure. Kind: L -/
theorem UInt64.ofNat_succ (n : Nat) : UInt64.ofNat (n + 1) = UInt64.ofNat n + 1 := by
  rw [UInt64.eq_iff_toNat_eq, UInt64.toNat_add_eq, UInt64.toNat_ofNat_eq, UInt64.toNat_ofNat_eq]
  exact Nat.add_mod _ _ _

/-- Without wrap-around, a `uint64` difference is zero exactly when the two sides are equal.
Source: none: infrastructure. Kind: L -/
theorem UInt64.sub_eq_zero_iff_of_le {a b : UInt64} (h : b ≤ a) : a - b = 0 ↔ b = a := by
  rw [UInt64.eq_iff_toNat_eq, UInt64.eq_iff_toNat_eq, UInt64.toNat_sub_of_le _ _ h,
    show (0 : UInt64).toNat = 0 from rfl]
  have := UInt64.le_iff_toNat_le.1 h
  omega

namespace Matching

/-! ## Enumerations -/

/-- `OrderSide` is a `uint8`. Source: `order.go` `OrderSide`. Kind: D -/
abbrev OrderSide := UInt8

/-- Source: `order.go` `OrderSideBuy`. Kind: D -/
def orderSideBuy : OrderSide := 0
/-- Source: `order.go` `OrderSideSell`. Kind: D -/
def orderSideSell : OrderSide := 1

/-- `OrderType` is a `uint8`. Source: `order.go` `OrderType`. Kind: D -/
abbrev OrderType := UInt8

/-- Source: `order.go` `OrderTypeMarket`. Kind: D -/
def orderTypeMarket : OrderType := 0
/-- Source: `order.go` `OrderTypeLimit`. Kind: D -/
def orderTypeLimit : OrderType := 1
/-- Source: `order.go` `OrderTypeStop`. Kind: D -/
def orderTypeStop : OrderType := 2
/-- Source: `order.go` `OrderTypeStopLimit`. Kind: D -/
def orderTypeStopLimit : OrderType := 3
/-- Source: `order.go` `OrderTypeTrailingStop`. Kind: D -/
def orderTypeTrailingStop : OrderType := 4
/-- Source: `order.go` `OrderTypeTrailingStopLimit`. Kind: D -/
def orderTypeTrailingStopLimit : OrderType := 5

/-- `OrderTimeInForce` is a `uint8`; the engine never reads it. Source: `order.go`. Kind: D -/
abbrev OrderTimeInForce := UInt8

/-- Source: `order.go` `OrderTimeInForceGTC`. Kind: D -/
def orderTimeInForceGTC : OrderTimeInForce := 0

/-- Source: `order.go` `MaxVisibleQuantity = math.MaxUint64`. Kind: D -/
def maxVisibleQuantity : UInt64 := 18446744073709551615
/-- Source: `order.go` `MaxSlippage = math.MaxUint64`. Kind: D -/
def maxSlippage : UInt64 := 18446744073709551615

/-! ## Orders -/

/-- A trading order, field for field.
Source: `order.go` `Order`
Kind: D
Fidelity: exact -/
structure Order where
  id : UInt64
  symbolID : UInt32
  type : OrderType
  side : OrderSide
  price : UInt64
  stopPrice : UInt64
  quantity : UInt64
  executedQuantity : UInt64
  leavesQuantity : UInt64
  timeInForce : OrderTimeInForce
  maxVisibleQuantity : UInt64
  slippage : UInt64
  trailingDistance : Int64
  trailingStep : Int64
deriving DecidableEq, Repr, Inhabited

/-- An order with the default execution state.
Source: `order.go` `NewOrder`
Kind: D
Fidelity: exact -/
def newOrder (id : UInt64) (symbolID : UInt32) (orderType : OrderType) (side : OrderSide)
    (price stopPrice quantity : UInt64) : Order where
  id := id
  symbolID := symbolID
  type := orderType
  side := side
  price := price
  stopPrice := stopPrice
  quantity := quantity
  executedQuantity := 0
  leavesQuantity := quantity
  timeInForce := orderTimeInForceGTC
  maxVisibleQuantity := maxVisibleQuantity
  slippage := maxSlippage
  trailingDistance := 0
  trailingStep := 0

/-- Source: `order.go` `NewLimitOrder`. Kind: D. Fidelity: exact -/
def newLimitOrder (id : UInt64) (symbolID : UInt32) (side : OrderSide) (price quantity : UInt64) :
    Order :=
  newOrder id symbolID orderTypeLimit side price 0 quantity

namespace Order

/-- Source: `order.go` `(*Order).IsStop`. Kind: D -/
def isStop (o : Order) : Bool := o.type == orderTypeStop
/-- Source: `order.go` `(*Order).IsStopLimit`. Kind: D -/
def isStopLimit (o : Order) : Bool := o.type == orderTypeStopLimit
/-- Source: `order.go` `(*Order).IsTrailingStop`. Kind: D -/
def isTrailingStop (o : Order) : Bool := o.type == orderTypeTrailingStop
/-- Source: `order.go` `(*Order).IsTrailingStopLimit`. Kind: D -/
def isTrailingStopLimit (o : Order) : Bool := o.type == orderTypeTrailingStopLimit
/-- Source: `order.go` `(*Order).IsBuy`. Kind: D -/
def isBuy (o : Order) : Bool := o.side == orderSideBuy

/-- The hidden part of an iceberg order: `LeavesQuantity - MaxVisibleQuantity` when positive.
Source: `order.go` `(*Order).HiddenQuantity`
Kind: D
Fidelity: exact -/
def hiddenQuantity (o : Order) : UInt64 :=
  if o.leavesQuantity > o.maxVisibleQuantity then o.leavesQuantity - o.maxVisibleQuantity else 0

/-- The visible part: `min(LeavesQuantity, MaxVisibleQuantity)`.
Source: `order.go` `(*Order).VisibleQuantity`
Kind: D
Fidelity: exact -/
def visibleQuantity (o : Order) : UInt64 :=
  if o.leavesQuantity < o.maxVisibleQuantity then o.leavesQuantity else o.maxVisibleQuantity

/-- The hidden and visible parts add up to the leaves quantity, with no wrap-around.
Source: none: infrastructure
Kind: L -/
theorem hiddenQuantity_add_visibleQuantity (o : Order) :
    o.hiddenQuantity + o.visibleQuantity = o.leavesQuantity := by
  unfold hiddenQuantity visibleQuantity
  split_ifs with h₁ h₂
  · exact absurd h₂ (UInt64.lt_asymm h₁)
  · exact sub_add_cancel _ _
  · exact zero_add _
  · rw [zero_add]
    simp only [gt_iff_lt, UInt64.lt_iff_toNat_lt, UInt64.eq_iff_toNat_eq] at *
    omega

end Order

/-! ## Symbols, error codes, updates -/

/-- A trading symbol. `Name` is a Go `string`, a sequence of bytes that need not be UTF-8, so
the model keeps its bytes.
Source: `symbol.go` `Symbol`
Kind: D
Fidelity: exact -/
structure Symbol where
  id : UInt32
  name : List UInt8
deriving DecidableEq, Repr, Inhabited

/-- The result code of every engine operation.
Source: `errors.go` `ErrorCode`
Kind: D
Fidelity: exact -/
inductive ErrorCode where
  | errorOK
  | errorSymbolDuplicate
  | errorSymbolNotFound
  | errorOrderBookDuplicate
  | errorOrderBookNotFound
  | errorOrderDuplicate
  | errorOrderNotFound
  | errorOrderIDInvalid
  | errorOrderTypeInvalid
  | errorOrderParameterInvalid
  | errorOrderQuantityInvalid
deriving DecidableEq, Repr, Inhabited

/-- The kind of a level update passed to `updateLevel`.
Source: `update.go` `UpdateType`
Kind: D
Fidelity: exact -/
inductive UpdateType where
  | updateNone
  | updateAdd
  | updateUpdate
  | updateDelete
deriving DecidableEq, Repr

end Matching

end GoTrader
