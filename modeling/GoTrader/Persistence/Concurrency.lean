import GoTrader.Persistence.Model

/-!
# Concurrent clients of the manager

`Manager.AddOrder` and `Manager.CancelOrder` read the clock for the event's `Timestamp` before
they take `m.mu`; `TakeSnapshot` reads the clock and captures the engine while it holds `m.mu`.
A `World` holds the manager, the clock, the calls that have read the clock and wait for the
lock, and the saved snapshots; `World.Step` interleaves a clock tick, a client's clock reading,
a client's turn under the lock, and a snapshot.

* `World.Reach.journal_replays` — in every interleaving the engine is the journal's commands
  applied in journal order to the engine the run started from.
* `race_drops_order` — a call reads the clock at 5, a snapshot is taken at 6 before the call
  gets the lock, and the call then journals its order stamped 5 and applies it. `Recover`
  skips the event (`5 ≤ 6`) although the snapshot does not contain the order, so the recovered
  registry misses an order the live engine holds.
-/

namespace GoTrader.Persistence

open GoTrader.Matching MarketManager

/-- A client call. Source: `manager.go` `AddOrder`, `CancelOrder`. Kind: D -/
inductive Command where
  | addOrder (order : Order)
  | cancelOrder (orderID : UInt64)

/-- The call's turn under the lock, with the clock reading `timestamp` it made before.
Source: `manager.go` `AddOrder`, `CancelOrder`
Kind: D -/
def Command.apply : Command → Manager → Int64 → Option (Manager × Option ManagerError)
  | .addOrder order, m, timestamp => m.addOrder timestamp order
  | .cancelOrder orderID, m, timestamp => m.cancelOrder timestamp orderID

/-- The engine call a journal event stands for.
Source: `manager.go` `AddOrder`, `CancelOrder` (the engine calls)
Kind: D -/
def engineCall (mm : MarketManager) (e : MatchingEvent) : Option MarketManager :=
  if e.type = eventNewOrder then (mm.addOrder e.order).map Prod.fst
  else (mm.deleteOrder e.orderID).map Prod.fst

/-- The journal's events as engine calls, in journal order.
Source: none: the serialisation the manager's lock gives
Kind: D -/
def engineRun : MarketManager → List MatchingEvent → Option MarketManager
  | mm, [] => some mm
  | mm, e :: es => (engineCall mm e).bind fun mm => engineRun mm es

theorem engineRun_append (mm : MarketManager) (es : List MatchingEvent) (e : MatchingEvent) :
    engineRun mm (es ++ [e]) = (engineRun mm es).bind fun mm => engineCall mm e := by
  induction es generalizing mm with
  | nil => simp [engineRun]
  | cons e' es ih => simp [engineRun, ih, Option.bind_assoc]

/-- The manager, the clock, the calls waiting for the lock with their clock readings, and the
saved snapshots.
Source: `manager.go` `Manager`; `snapshot.go` `Snapshotter`
Kind: D -/
structure World where
  mgr : Manager
  clock : Int64
  pending : List (Command × Int64)
  saved : List Snapshot

/-- One step of any interleaving: the clock moves forward, a client reads it, a waiting client
gets the lock, or `TakeSnapshot` captures the engine (in the map orders `se`, `oe`).
Source: `manager.go` `AddOrder`, `CancelOrder`, `TakeSnapshot`
Kind: D
Fidelity: `TakeSnapshot`'s background `Save` is taken to finish in the same step -/
inductive World.Step : World → World → Prop where
  | tick {w : World} {t : Int64} : w.clock.sle t → Step w { w with clock := t }
  | call {w : World} (c : Command) : Step w { w with pending := w.pending ++ [(c, w.clock)] }
  | commit {w : World} {pre post : List (Command × Int64)} {c : Command} {t : Int64}
      {mgr : Manager} {r : Option ManagerError} :
      w.pending = pre ++ (c, t) :: post → c.apply w.mgr t = some (mgr, r) →
      Step w { w with mgr := mgr, pending := pre ++ post }
  | snapshot {w : World} {se : List UInt32} {oe : List UInt64} :
      IsEnum se w.mgr.mm.symbols → IsEnum oe w.mgr.mm.orders →
      Step w { w with saved := w.saved ++ [captureSnapshot w.mgr.mm w.clock se oe] }

/-- The interleavings. Source: none. Kind: D -/
inductive World.Reach : World → World → Prop where
  | refl (w : World) : Reach w w
  | tail {w₁ w₂ w₃ : World} : Reach w₁ w₂ → Step w₂ w₃ → Reach w₁ w₃

theorem Command.apply_journal {c : Command} {m m' : Manager} {t : Int64}
    {r : Option ManagerError} (h : c.apply m t = some (m', r)) :
    ∃ e, m'.journal = m.journal ++ [e] ∧ engineCall m.mm e = some m'.mm := by
  cases c with
  | addOrder o =>
    obtain ⟨⟨mm, code⟩, h₁, h⟩ := Option.bind_eq_some.1 h
    cases h
    exact ⟨⟨eventNewOrder, t, o, 0⟩, rfl, by simp [engineCall, h₁]⟩
  | cancelOrder id =>
    obtain ⟨⟨mm, code⟩, h₁, h⟩ := Option.bind_eq_some.1 h
    cases h
    exact ⟨⟨eventCancelOrder, t, default, id⟩, rfl, by simp [engineCall, eventCancelOrder,
      eventNewOrder, h₁]⟩

/-- In every interleaving of clock ticks, clock readings, turns under the lock and snapshots,
the journal grows only by the events of the turns under the lock, and the engine is those events
applied as engine calls, in journal order, to the engine the run started from: journal order is
engine order, whatever order the clients read the clock in.
Source: `manager.go` `AddOrder`, `CancelOrder` (`m.mu` around `Append` and the engine call),
`TakeSnapshot`
Kind: P -/
theorem World.Reach.journal_replays {w₀ w : World} (h : World.Reach w₀ w) :
    ∃ es, w.mgr.journal = w₀.mgr.journal ++ es ∧ engineRun w₀.mgr.mm es = some w.mgr.mm := by
  induction h with
  | refl => exact ⟨[], by simp, rfl⟩
  | tail _ hs ih =>
    obtain ⟨es, hj, hr⟩ := ih
    cases hs with
    | tick => exact ⟨es, hj, hr⟩
    | call => exact ⟨es, hj, hr⟩
    | snapshot => exact ⟨es, hj, hr⟩
    | commit _ hc =>
      obtain ⟨e, he, hm⟩ := Command.apply_journal hc
      exact ⟨es ++ [e], by rw [he, hj, List.append_assoc],
        by rw [engineRun_append, hr]; exact hm⟩

/-! ## A snapshot between a clock reading and the lock -/

/-- The order the racing client adds. Source: none. Kind: D -/
def raceOrder : Order := newLimitOrder 1 1 orderSideBuy 10 5

/-- The start: book 1, an empty journal, the clock at 5. Source: none. Kind: D -/
def raceStart : World := ⟨⟨bookOne, []⟩, 5, [], []⟩

/-- The client has read the clock. Source: none. Kind: D -/
def raceRead : World := { raceStart with pending := [(.addOrder raceOrder, 5)] }

/-- The clock has moved to 6 and a snapshot was taken. Source: none. Kind: D -/
def raceSnap : World :=
  { raceRead with clock := 6,
                  saved := [captureSnapshot raceRead.mgr.mm 6 [1] []] }

/-- The manager after the client's turn under the lock. Source: none. Kind: D -/
def raceCommitted : Manager :=
  ((Command.addOrder raceOrder).apply raceSnap.mgr 5).elim raceSnap.mgr Prod.fst

/-- The client's turn under the lock. Source: none. Kind: D -/
def raceEnd : World := { raceSnap with mgr := raceCommitted, pending := [] }

/-- The race is an interleaving: the clock read, a tick, the snapshot, the turn under the lock.
Source: none: the run of the witnesses
Kind: L -/
theorem reach_raceEnd : World.Reach raceStart raceEnd := by
  have hsym : raceRead.mgr.mm.symbols = Function.update (fun _ => none) 1 (some ⟨1, [65]⟩) := rfl
  have hord : raceRead.mgr.mm.orders = fun _ => none := rfl
  have h₁ : World.Step raceStart raceRead := .call (.addOrder raceOrder)
  have h₂ : World.Step raceRead { raceRead with clock := 6 } := .tick (by decide)
  have h₃ : World.Step { raceRead with clock := 6 } raceSnap :=
    @World.Step.snapshot _ [1] [] ⟨by decide, fun k => by
      rw [hsym, Function.update_apply]; split_ifs <;> simp_all⟩
      ⟨List.nodup_nil, fun k => by rw [hord]; simp⟩
  have h₄ : World.Step raceSnap raceEnd :=
    @World.Step.commit _ [] [] _ _ _ none rfl (show _ = some (raceCommitted, none) from rfl)
  exact (((World.Reach.refl _).tail h₁).tail h₂ |>.tail h₃).tail h₄

/-- In the race the engine is the journalled order applied to the starting engine, although the
order was stamped before the snapshot. -/
theorem raceEnd_journal_replays :
    World.Reach raceStart raceEnd ∧
    ∃ es, raceEnd.mgr.journal = raceStart.mgr.journal ++ es ∧
      engineRun raceStart.mgr.mm es = some raceEnd.mgr.mm :=
  ⟨reach_raceEnd, World.Reach.journal_replays reach_raceEnd⟩

theorem race_drops_order :
    World.Reach raceStart raceEnd ∧ (raceEnd.mgr.mm.orders 1).isSome ∧
    ∃ mm₂, recover newMarketManager (loadLatest raceEnd.saved) raceEnd.mgr.journal =
      some (.ok mm₂) ∧ mm₂.orders 1 = none :=
  ⟨reach_raceEnd, by decide, _, rfl, by decide⟩

end GoTrader.Persistence
