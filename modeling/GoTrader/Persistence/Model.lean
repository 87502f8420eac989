import GoTrader.Matching.Atomicity

/-!
# The persistence layer

A model of package `persistence` around the engine: the journal's events, the `Manager`
facade that journals a command and then makes the engine call, snapshot capture, the
`RestoreOrder` that snapshots are restored with, and `Recover`, which applies the latest
snapshot and replays the journal's events stamped after it.

The journal is the list of the events appended to it, all flushed. The byte codecs of journal
records and snapshot files are a layer of their own, so `Recover` reads the events and the
snapshot as values. Clock readings (`time.Now().UnixNano()`) and the iteration orders of Go
maps are inputs.

* `Manager.addOrder_rejected_recover` — `Manager.AddOrder` journals its event before the
  engine answers, so an order the engine rejects (with any code but `ErrorOrderDuplicate`)
  makes `Recover` from that journal fail at the event;
* `recover_rejects_journal` — an order with ID 0 is such an order;
* `Manager.rejected_command_journalled` — a `Manager.AddOrder` or `Manager.CancelOrder` that
  returns an error leaves the engine as it was and the journal one event longer, as the
  manager journals every submission and cancellation before the engine sees it;
  `cancel_unknown_journalled` — a cancel of an unknown order is one, and `Recover` tolerates
  its event.
-/

namespace GoTrader.Matching

/-- Modelled from the spec: `MarketManager.RestoreOrder`, which `applySnapshot` calls and the
source does not contain. The spec (§4.9) describes it as re-inserting the order "without running
the matching loop and without clearing executed_quantity", tolerating `OrderDuplicate`: here
`AddOrder` without `validateOrder` and without the matching loop, the book looked up as
`AddOrder` does.
Kind: D -/
def MarketManager.restoreOrder (m : MarketManager) (order : Order) :
    Option (MarketManager × ErrorCode) :=
  if (m.orders order.id).isSome then some (m, .errorOrderDuplicate)
  else if (m.orderBooks order.symbolID).isNone then some (m, .errorOrderBookNotFound)
  else do
    let a := m.heap.next
    let m := { m with heap := m.heap.allocOrder order,
                      orders := Function.update m.orders order.id (some a) }
    let m ← m.bookAddOrder order.symbolID a
    let m := m.call (.onAddOrder order)
    let m ← m.updateLevel (m.orderBooks order.symbolID) a .updateAdd
    some (m, .errorOK)

end GoTrader.Matching

namespace GoTrader.Persistence

open GoTrader.Matching MarketManager

/-! ## Events, snapshots and the manager -/

/-- `EventType` is a `uint8`. Source: `persistence.go` `EventType`. Kind: D -/
abbrev EventType := UInt8

/-- Source: `persistence.go` `EventNewOrder`. Kind: D -/
def eventNewOrder : EventType := 1

/-- Source: `persistence.go` `EventCancelOrder`. Kind: D -/
def eventCancelOrder : EventType := 2

/-- A journal record.
Source: `persistence.go` `MatchingEvent`
Kind: D
Fidelity: exact -/
structure MatchingEvent where
  type : EventType
  timestamp : Int64
  order : Order
  orderID : UInt64
deriving DecidableEq, Repr

/-- Source: `snapshot.go` `Snapshot`. Kind: D. Fidelity: exact -/
structure Snapshot where
  timestamp : Int64
  symbols : List Symbol
  orders : List Order
deriving DecidableEq, Repr

/-- The engine and its journal.
Source: `manager.go` `Manager`
Kind: D
Fidelity: the journal is the list of appended events, all flushed; IO is not modelled -/
structure Manager where
  mm : MarketManager
  journal : List MatchingEvent

/-- The engine errors `Manager.AddOrder` and `Manager.CancelOrder` return.
Source: `manager.go` (`fmt.Errorf("persistence: AddOrder: %w", ...)`, `CancelOrder`)
Kind: D -/
inductive ManagerError where
  | addOrder (code : ErrorCode)
  | cancelOrder (code : ErrorCode)
deriving DecidableEq, Repr

/-- Under the manager's lock: append `event` to the journal, then make the engine call, and
report its code as `err code` unless it is `ErrorOK`.
Source: `manager.go` `AddOrder`, `CancelOrder` (after `m.mu.Lock()`)
Kind: D
Fidelity: exact; `Journal.Append` cannot fail for these two event types but on IO -/
def Manager.journalThen (m : Manager) (event : MatchingEvent)
    (call : MarketManager → Option (MarketManager × ErrorCode)) (err : ErrorCode → ManagerError) :
    Option (Manager × Option ManagerError) := do
  let journal := m.journal ++ [event]
  let (mm, code) ← call m.mm
  some (⟨mm, journal⟩, if code = .errorOK then none else some (err code))

/-- `AddOrder` with the clock reading `timestamp`.
Source: `manager.go` `AddOrder`
Kind: D
Fidelity: exact -/
def Manager.addOrder (m : Manager) (timestamp : Int64) (order : Order) :
    Option (Manager × Option ManagerError) :=
  m.journalThen ⟨eventNewOrder, timestamp, order, 0⟩ (·.addOrder order) .addOrder

/-- `CancelOrder` with the clock reading `timestamp`.
Source: `manager.go` `CancelOrder`
Kind: D
Fidelity: exact -/
def Manager.cancelOrder (m : Manager) (timestamp : Int64) (orderID : UInt64) :
    Option (Manager × Option ManagerError) :=
  m.journalThen ⟨eventCancelOrder, timestamp, default, orderID⟩ (·.deleteOrder orderID) .cancelOrder

/-- The symbols (in the map order `symbolEnum`) and the registered orders' values (in the map
order `orderEnum`), stamped with the clock reading `timestamp`.
Source: `snapshot.go` `captureSnapshot`
Kind: D
Fidelity: exact, for the clock reading and the map iteration orders -/
def captureSnapshot (mm : MarketManager) (timestamp : Int64) (symbolEnum : List UInt32)
    (orderEnum : List UInt64) : Snapshot :=
  ⟨timestamp, symbolEnum.filterMap mm.symbols,
    (orderEnum.filterMap mm.orders).map fun a => (mm.heap.orderNodes a).order⟩

/-- The snapshot with the greatest timestamp among those saved, in the order saved: a later
save under the same timestamp replaces the file.
Source: `snapshot.go` `LoadLatest`, `Save` (`snapshot-<ts>.snap`)
Kind: D
Fidelity: exact, without IO errors -/
def loadLatest (saved : List Snapshot) : Option Snapshot :=
  saved.foldl (fun best s => match best with
    | none => some s
    | some b => if s.timestamp.slt b.timestamp then some b else some s) none

/-! ## Recovery -/

/-- The errors of `applySnapshot` and `applyEvent`.
Source: `recover.go` (`fmt.Errorf("AddSymbol(%d): %s", ...)` and the rest)
Kind: D -/
inductive ApplyError where
  | addSymbol (id : UInt32) (code : ErrorCode)
  | addOrderBook (id : UInt32) (code : ErrorCode)
  | restoreOrder (id : UInt64) (code : ErrorCode)
  | addOrder (id : UInt64) (code : ErrorCode)
  | deleteOrder (id : UInt64) (code : ErrorCode)
  | unknownEventType (type : EventType)
deriving DecidableEq, Repr

/-- Accept `ErrorOK` and `tolerated`, fail with `err code` on any other code.
Source: `recover.go` (`if code != matching.ErrorOK && code != ... { return fmt.Errorf(...) }`)
Kind: D
Fidelity: exact -/
def tolerate (tolerated : ErrorCode) (err : ErrorCode → ApplyError)
    (r : MarketManager × ErrorCode) : Except ApplyError MarketManager :=
  if r.2 ≠ .errorOK ∧ r.2 ≠ tolerated then .error (err r.2) else .ok r.1

/-- The symbol loop of `applySnapshot`: `AddSymbol` then `AddOrderBook` for each symbol.
Source: `recover.go` `applySnapshot`
Kind: D
Fidelity: exact -/
def addSymbols : MarketManager → List Symbol → Except ApplyError MarketManager
  | mm, [] => .ok mm
  | mm, sym :: syms => do
    let mm ← tolerate .errorSymbolDuplicate (.addSymbol sym.id) (mm.addSymbol sym)
    let mm ← tolerate .errorOrderBookDuplicate (.addOrderBook sym.id) (mm.addOrderBook sym)
    addSymbols mm syms

/-- The order loop of `applySnapshot`: `RestoreOrder` for each order, in the snapshot's order.
Source: `recover.go` `applySnapshot`
Kind: D
Fidelity: exact -/
def restoreOrders : MarketManager → List Order → Option (Except ApplyError MarketManager)
  | mm, [] => some (.ok mm)
  | mm, o :: os => do
    match tolerate .errorOrderDuplicate (.restoreOrder o.id) (← mm.restoreOrder o) with
    | .error err => some (.error err)
    | .ok mm => restoreOrders mm os

/-- Source: `recover.go` `applySnapshot`. Kind: D. Fidelity: exact -/
def applySnapshot (mm : MarketManager) (snap : Snapshot) : Option (Except ApplyError MarketManager) :=
  match addSymbols mm snap.symbols with
  | .error err => some (.error err)
  | .ok mm => restoreOrders mm snap.orders

/-- Source: `recover.go` `applyEvent`. Kind: D. Fidelity: exact -/
def applyEvent (mm : MarketManager) (e : MatchingEvent) : Option (Except ApplyError MarketManager) :=
  if e.type = eventNewOrder then
    (mm.addOrder e.order).map (tolerate .errorOrderDuplicate (.addOrder e.order.id))
  else if e.type = eventCancelOrder then
    (mm.deleteOrder e.orderID).map (tolerate .errorOrderNotFound (.deleteOrder e.orderID))
  else some (.error (.unknownEventType e.type))

/-- The errors `Recover` returns from the snapshot and the replay.
Source: `recover.go` `Recover`
Kind: D -/
inductive RecoverError where
  | applyingSnapshot (err : ApplyError)
  | replayingEvent (timestamp : Int64) (err : ApplyError)
deriving DecidableEq, Repr

/-- The replay loop of `Recover`: skip the events stamped at or before `snapshotTS` (signed
comparison), apply the others, stop at the first error.
Source: `recover.go` `Recover` (`for _, e := range events`)
Kind: D
Fidelity: exact -/
def replay (snapshotTS : Int64) :
    MarketManager → List MatchingEvent → Option (Except RecoverError MarketManager)
  | mm, [] => some (.ok mm)
  | mm, e :: es =>
    if e.timestamp.sle snapshotTS then replay snapshotTS mm es
    else match applyEvent mm e with
      | none => none
      | some (.error err) => some (.error (.replayingEvent e.timestamp err))
      | some (.ok mm) => replay snapshotTS mm es

/-- `Recover` on the engine `mm`, from the latest snapshot `snap` (if any) and the journal's
events.
Source: `recover.go` `Recover`
Kind: D
Fidelity: exact, for `LoadLatest` and `ReadAll` returning `snap` and `events` -/
def recover (mm : MarketManager) (snap : Option Snapshot) (events : List MatchingEvent) :
    Option (Except RecoverError MarketManager) :=
  match snap with
  | none => replay 0 mm events
  | some snap =>
    match applySnapshot mm snap with
    | none => none
    | some (.error err) => some (.error (.applyingSnapshot err))
    | some (.ok mm) => replay snap.timestamp mm events

/-! ## A journal that `Recover` rejects -/

/-- A fresh manager's first `AddOrder` journals its event whatever the engine answers. When the
engine rejected the order with a code other than `ErrorOrderDuplicate`, `Recover` with that
journal and no snapshot, into the engine the manager started with, fails at the event.
Source: `manager.go` `AddOrder`; `recover.go` `Recover`, `applyEvent`
Kind: L -/
theorem Manager.addOrder_rejected_recover {m m' : Manager} {timestamp : Int64} {o : Order}
    {code : ErrorCode} (hj : m.journal = []) (hts : ¬ timestamp.sle 0)
    (h : m.addOrder timestamp o = some (m', some (.addOrder code)))
    (hdup : code ≠ .errorOrderDuplicate) :
    m'.journal = [⟨eventNewOrder, timestamp, o, 0⟩] ∧
      recover m.mm none m'.journal =
        some (.error (.replayingEvent timestamp (.addOrder o.id code))) := by
  obtain ⟨⟨mm, c⟩, hc, h⟩ := Option.bind_eq_some.1 h
  obtain ⟨rfl, hr⟩ := Prod.mk.inj (Option.some.inj h)
  obtain ⟨hok, rfl⟩ : c ≠ .errorOK ∧ c = code := by
    split_ifs at hr with e
    exact ⟨e, ManagerError.addOrder.inj (Option.some.inj hr)⟩
  refine ⟨by rw [hj]; rfl, ?_⟩
  have htol : tolerate .errorOrderDuplicate (.addOrder o.id) (mm, c) = .error (.addOrder o.id c) :=
    if_pos ⟨hok, hdup⟩
  simpa [hj, recover, replay, applyEvent, hc, htol] using hts

/-- An engine with symbol and book 1, matching off.
Source: none: the configuration of the failing input
Kind: D -/
def bookOne : MarketManager :=
  ((newMarketManager.addSymbol ⟨1, [65]⟩).1.addOrderBook ⟨1, [65]⟩).1

/-- `Manager.AddOrder` of an order with ID 0 at clock 1 journals it and returns the engine's
`ErrorOrderIDInvalid`; `Recover` into a fresh engine with the same book then fails replaying
that event. -/
theorem recover_rejects_journal :
    (Manager.mk bookOne []).addOrder 1 (newLimitOrder 0 1 orderSideBuy 10 5) =
      some (⟨bookOne, [⟨eventNewOrder, 1, newLimitOrder 0 1 orderSideBuy 10 5, 0⟩]⟩,
        some (.addOrder .errorOrderIDInvalid)) ∧
    recover bookOne none [⟨eventNewOrder, 1, newLimitOrder 0 1 orderSideBuy 10 5, 0⟩] =
      some (.error (.replayingEvent 1 (.addOrder 0 .errorOrderIDInvalid))) :=
  have h : (Manager.mk bookOne []).addOrder 1 (newLimitOrder 0 1 orderSideBuy 10 5) =
      some (⟨bookOne, [⟨eventNewOrder, 1, newLimitOrder 0 1 orderSideBuy 10 5, 0⟩]⟩,
        some (.addOrder .errorOrderIDInvalid)) := rfl
  ⟨h, (Manager.addOrder_rejected_recover rfl (by decide) h (by decide)).2⟩

/-! ## Rejected calls are journalled -/

/-- A journalled call that the engine rejects leaves the engine as it was, and the journal with the
event appended: the append comes first. Source: `manager.go` `AddOrder`, `CancelOrder`. Kind: L -/
theorem Manager.journalThen_rejected {m m' : Manager} {event : MatchingEvent}
    {call : MarketManager → Option (MarketManager × ErrorCode)} {err : ErrorCode → ManagerError}
    {e : ManagerError} (hcall : FailsClean m.mm (call m.mm))
    (h : m.journalThen event call err = some (m', some e)) :
    m'.mm = m.mm ∧ m'.journal = m.journal ++ [event] := by
  obtain ⟨⟨mm, c⟩, hc, h⟩ := Option.bind_eq_some.1 h
  obtain ⟨rfl, hr⟩ := Prod.mk.inj (Option.some.inj h)
  have hok : c ≠ .errorOK := fun hok => by simp [hok] at hr
  exact ⟨hcall mm c hc hok, rfl⟩

/-- `Manager.AddOrder` and `Manager.CancelOrder` that return an error leave the engine as it was
and the journal one event longer, stamped with the call's clock reading: the manager journals
every submission and cancellation before the engine sees it, and the engine undoes nothing it
rejects.
Source: `manager.go` `Manager`, `AddOrder`, `CancelOrder`; `market_manager.go` (every call that
returns an error)
Kind: P -/
theorem Manager.rejected_command_journalled :
    (∀ (m m' : Manager) (timestamp : Int64) (o : Order) (e : ManagerError),
      m.addOrder timestamp o = some (m', some e) →
      m'.mm = m.mm ∧ m'.journal = m.journal ++ [⟨eventNewOrder, timestamp, o, 0⟩]) ∧
    (∀ (m m' : Manager) (timestamp : Int64) (id : UInt64) (e : ManagerError),
      m.cancelOrder timestamp id = some (m', some e) →
      m'.mm = m.mm ∧ m'.journal = m.journal ++ [⟨eventCancelOrder, timestamp, default, id⟩]) :=
  ⟨fun m _ _ o _ h => Manager.journalThen_rejected (addOrder_failsClean m.mm o) h,
    fun m _ _ id _ h => Manager.journalThen_rejected (deleteOrder_failsClean m.mm id) h⟩

/-- The rejected `AddOrder` of an order with ID 0 leaves the engine as it was and the journal
with its event. -/
theorem addOrder_idZero_journalled :
    ∃ m' e, (Manager.mk bookOne []).addOrder 1 (newLimitOrder 0 1 orderSideBuy 10 5) =
        some (m', some e) ∧
      m'.mm = bookOne ∧
      m'.journal = [] ++ [⟨eventNewOrder, 1, newLimitOrder 0 1 orderSideBuy 10 5, 0⟩] :=
  ⟨_, _, rfl, Manager.rejected_command_journalled.1 ⟨bookOne, []⟩ _ 1
    (newLimitOrder 0 1 orderSideBuy 10 5) _ rfl⟩

/-- `Manager.CancelOrder` of an order the engine does not hold returns `ErrorOrderNotFound` and
leaves its event in the journal; `Recover` from that journal tolerates the event and gives the
engine back. -/
theorem cancel_unknown_journalled :
    (Manager.mk bookOne []).cancelOrder 1 7 =
      some (⟨bookOne, [⟨eventCancelOrder, 1, default, 7⟩]⟩, some (.cancelOrder .errorOrderNotFound)) ∧
    recover bookOne none [⟨eventCancelOrder, 1, default, 7⟩] = some (.ok bookOne) :=
  ⟨rfl, rfl⟩

end GoTrader.Persistence
