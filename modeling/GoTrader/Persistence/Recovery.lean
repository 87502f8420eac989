import GoTrader.Persistence.Concurrency
import GoTrader.Persistence.Rebuild
import GoTrader.Matching.Priority

/-!
# Recovery is exact when no snapshot races a call

`Recover` rebuilds a fresh engine from the latest snapshot and replays the journal's events
stamped after it. It gives back the live engine's symbols, book keys and registry when three
things hold. The snapshot was taken while no call waited between its clock reading and the lock,
so every event journalled before it is stamped at or before its timestamp and every later one
after it. Every journalled call was accepted, so no event is one that `applyEvent` rejects. And
matching is off in the live engine, as it is in the engine `Recover` builds: with matching on,
the rebuilt levels list their orders in Go's map order and the replayed orders may meet other
partners. Without the first two conditions recovery diverges (see `Concurrency.lean` and
`Model.lean`).

* `AcceptedRun` — a run of manager calls, each with its clock reading, each answered without
  an error; `Manager.journalThen_accepted` — such a call journalled its event and the engine
  returned `ErrorOK`;
* `SameRegistry` — two engines with the same symbols, book keys and registry, both keeping the
  invariant and AVL trees, both with matching off;
* `SameRegistry.addOrder`, `SameRegistry.deleteOrder` — a call the live engine accepts is
  accepted by the other engine too, and the two stay related;
* `replay_append_of_sle`, `replay_acceptedRun` — the replay skips the events stamped before the
  snapshot and keeps the relation along the events of an accepted run;
* `applySnapshot_capture` — rebuilding from a snapshot of the live engine relates the two;
  `recover_capture_append` — so does `Recover` from it, on a journal whose later events keep
  the relation;
* `recover_acceptedRun` — `Recover` from that snapshot and the whole journal returns an engine
  with the live engine's symbols, book keys and registry.
-/

namespace GoTrader.Matching.MarketManager

variable {m m' : MarketManager}

/-- `AddOrder` returns `ErrorOK` only past its three checks.
Source: `market_manager.go` `AddOrder`
Kind: L -/
theorem addOrder_checks {order : Order} (h : m.addOrder order = some (m', .errorOK)) :
    validateOrder order = .errorOK ∧ m.orders order.id = none ∧
      (m.orderBooks order.symbolID).isSome := by
  unfold MarketManager.addOrder at h
  split_ifs at h with hv hdup hnone
  · exact absurd (Prod.mk.inj (Option.some.inj h)).2 hv
  · cases (Prod.mk.inj (Option.some.inj h)).2
  · cases (Prod.mk.inj (Option.some.inj h)).2
  · exact ⟨not_not.1 hv, Option.not_isSome_iff_eq_none.1 hdup,
      Option.isSome_iff_ne_none.2 fun hn => hnone (by rw [hn]; rfl)⟩

/-- `DeleteOrder` returns `ErrorOK` only for a registered order.
Source: `market_manager.go` `DeleteOrder`
Kind: L -/
theorem deleteOrder_registered {id : UInt64} (h : m.deleteOrder id = some (m', .errorOK)) :
    (m.orders id).isSome := by
  unfold MarketManager.deleteOrder at h
  split at h
  · cases (Prod.mk.inj (Option.some.inj h)).2
  · simp [*]

/-- `DeleteOrder` removes no book and adds none. Source: none. Kind: L -/
theorem deleteOrder_books {id : UInt64} {e : ErrorCode} (h : m.deleteOrder id = some (m', e))
    (k : UInt32) : (m'.orderBooks k).isSome = (m.orderBooks k).isSome := by
  unfold MarketManager.deleteOrder at h
  split at h
  · cases h; rfl
  · obtain ⟨m₁, h₁, h⟩ := Option.bind_eq_some.1 h
    obtain ⟨m₂, h₂, h⟩ := Option.bind_eq_some.1 h
    cases h
    obtain ⟨cs, rfl⟩ := updateLevel_eq h₁
    exact bookDeleteOrder_books h₂ k

/-- `RestoreOrder` never switches matching. Source: `market_manager.go` `RestoreOrder`. Kind: L -/
theorem restoreOrder_matching {o : Order} {e : ErrorCode} (h : m.restoreOrder o = some (m', e)) :
    m'.matching = m.matching := by
  unfold MarketManager.restoreOrder at h
  split_ifs at h
  · cases h; rfl
  · cases h; rfl
  · obtain ⟨m₁, hb, h⟩ := Option.bind_eq_some.1 h
    obtain ⟨m₂, hu, h⟩ := Option.bind_eq_some.1 h
    cases h
    obtain ⟨cs, rfl⟩ := updateLevel_eq hu
    exact (bookAddOrder_frame hb).2.1

end GoTrader.Matching.MarketManager

namespace GoTrader.Persistence

open GoTrader.Matching MarketManager

/-! ## Calls answered without an error -/

/-- A run of the manager's calls, each with the clock reading it made, each answered without an
error.
Source: `manager.go` `AddOrder`, `CancelOrder`
Kind: D -/
inductive AcceptedRun : Manager → List (Command × Int64) → Manager → Prop
  | nil (m : Manager) : AcceptedRun m [] m
  | cons {m m₁ m' : Manager} {c : Command} {t : Int64} {cs : List (Command × Int64)} :
      c.apply m t = some (m₁, none) → AcceptedRun m₁ cs m' → AcceptedRun m ((c, t) :: cs) m'

/-- A call answered without an error journalled its event, and the engine returned `ErrorOK`.
Source: `manager.go` `AddOrder`, `CancelOrder`
Kind: L -/
theorem Manager.journalThen_accepted {m m' : Manager} {event : MatchingEvent}
    {call : MarketManager → Option (MarketManager × ErrorCode)} {err : ErrorCode → ManagerError}
    (h : m.journalThen event call err = some (m', none)) :
    m'.journal = m.journal ++ [event] ∧ call m.mm = some (m'.mm, .errorOK) := by
  obtain ⟨⟨mm, code⟩, h₁, h⟩ := Option.bind_eq_some.1 h
  simp only [Option.some.injEq, Prod.mk.injEq] at h
  obtain ⟨rfl, hc⟩ := h
  split_ifs at hc with hok
  exact ⟨rfl, hok ▸ h₁⟩


/-! ## Two engines with the same registry -/

/-- Two engines with the same symbols, the same book keys and the same registry, both keeping
the invariant and AVL trees, both with matching off.
Source: none: what recovery has to give back
Kind: D -/
structure SameRegistry (a b : MarketManager) : Prop where
  invA : Inv a none none
  invB : Inv b none none
  balancedA : a.Balanced
  balancedB : b.Balanced
  offA : a.matching = false
  offB : b.matching = false
  symbols : a.symbols = b.symbols
  books : ∀ k, (a.orderBooks k).isSome = (b.orderBooks k).isSome
  registry : a.registry = b.registry

namespace SameRegistry

variable {a b b' : MarketManager}

/-- An order the live engine `b` accepts, the engine `a` accepts too, and both register it in
the same way. Source: `market_manager.go` `AddOrder`. Kind: L -/
theorem addOrder (hR : SameRegistry a b) {order : Order}
    (h : b.addOrder order = some (b', .errorOK)) :
    ∃ a', a.addOrder order = some (a', .errorOK) ∧ SameRegistry a' b' := by
  obtain ⟨hv, hnew, hbook⟩ := MarketManager.addOrder_checks h
  have hnewA : a.orders order.id = none :=
    registry_eq_none.1 (hR.registry ▸ registry_eq_none.2 hnew)
  obtain ⟨⟨a', e⟩, hA⟩ := Option.isSome_iff_exists.1 (hR.invA.addOrder_isSome hR.balancedA order)
  obtain ⟨mc, hIa, hma, hka, -, hrega, -, -, hmcA⟩ :=
    hR.invA.addOrder_spec hv hnewA ((hR.books _).trans hbook) hA
  obtain ⟨rfl, rfl⟩ := MarketManager.matchIfEnabled_of_off (hma.trans hR.offA) hmcA
  obtain ⟨mb, hIb, hmb, hkb, -, hregb, -, -, hmcB⟩ := hR.invB.addOrder_spec hv hnew hbook h
  obtain ⟨rfl, -⟩ := MarketManager.matchIfEnabled_of_off (hmb.trans hR.offB) hmcB
  exact ⟨_, hA, hIa, hIb, hR.balancedA.addOrder hA, hR.balancedB.addOrder h, hma.trans hR.offA,
    hmb.trans hR.offB, by rw [addOrder_symbols hA, addOrder_symbols h, hR.symbols],
    fun k => by rw [hka, hkb, hR.books], by rw [hrega, hregb, hR.registry]⟩

/-- An order the live engine `b` deletes, the engine `a` deletes too, and both unregister it.
Source: `market_manager.go` `DeleteOrder`
Kind: L -/
theorem deleteOrder (hR : SameRegistry a b) {id : UInt64}
    (h : b.deleteOrder id = some (b', .errorOK)) :
    ∃ a', a.deleteOrder id = some (a', .errorOK) ∧ SameRegistry a' b' := by
  obtain ⟨x, hx⟩ := Option.isSome_iff_exists.1 (MarketManager.deleteOrder_registered h)
  have hr := congrFun hR.registry id
  obtain ⟨y, hy⟩ : ∃ y, a.orders id = some y := by
    rcases ha : a.orders id with _ | y
    · simp [MarketManager.registry, ha, hx] at hr
    · exact ⟨y, rfl⟩
  obtain ⟨⟨a', e⟩, hA⟩ := Option.isSome_iff_exists.1 (hR.invA.deleteOrder_isSome hR.balancedA hy)
  obtain rfl : e = .errorOK := deleteOrder_returnsOK hy (a', e) hA
  obtain ⟨hIa, hoa, hva⟩ := hR.invA.deleteOrder hA
  obtain ⟨hIb, hob, hvb⟩ := hR.invB.deleteOrder h
  exact ⟨a', hA, hIa, hIb, hR.balancedA.deleteOrder hA, hR.balancedB.deleteOrder h,
    (hR.invA.deleteOrder_shrinks hA).matching.trans hR.offA,
    (hR.invB.deleteOrder_shrinks h).matching.trans hR.offB,
    by rw [deleteOrder_symbols hA, deleteOrder_symbols h, hR.symbols],
    fun k => by rw [deleteOrder_books hA, deleteOrder_books h, hR.books],
    by rw [hR.invA.registry_unregister hy hoa fun c _ => hva c,
      hR.invB.registry_unregister hx hob fun c _ => hvb c, hR.registry]⟩

end SameRegistry

/-! ## The replay -/

/-- The replay skips the events stamped at or before the snapshot.
Source: `recover.go` `Recover` (`if e.Timestamp <= snapshotTS { continue }`)
Kind: L -/
theorem replay_append_of_sle {T : Int64} {mm : MarketManager} :
    ∀ {pre : List MatchingEvent}, (∀ e ∈ pre, e.timestamp.sle T) →
      ∀ es, replay T mm (pre ++ es) = replay T mm es
  | [], _, _ => rfl
  | e :: pre, h, es => by
    rw [List.cons_append, replay, if_pos (h e (List.mem_cons_self _ _))]
    exact replay_append_of_sle (fun e' he' => h e' (List.mem_cons_of_mem _ he')) es

/-- Along an accepted run whose clock readings all follow the snapshot, the journal grows by the
run's events, and replaying them on an engine related to the live one ends related to the live
engine after the run.
Source: `manager.go` `AddOrder`, `CancelOrder`; `recover.go` `Recover`, `applyEvent`
Kind: L -/
theorem replay_acceptedRun {T : Int64} {m m' : Manager} {cs : List (Command × Int64)}
    (hrun : AcceptedRun m cs m') (hpost : ∀ p ∈ cs, ¬ p.2.sle T) :
    ∃ es, m'.journal = m.journal ++ es ∧ ∀ a, SameRegistry a m.mm →
      ∃ a', replay T a es = some (.ok a') ∧ SameRegistry a' m'.mm := by
  induction hrun with
  | nil m => exact ⟨[], by simp, fun a hR => ⟨a, rfl, hR⟩⟩
  | @cons m m₁ m' c t cs hc _ ih =>
    obtain ⟨es, hj, hrep⟩ := ih fun p hp => hpost p (List.mem_cons_of_mem _ hp)
    have ht : ¬ t.sle T := hpost (c, t) (List.mem_cons_self _ _)
    cases c with
    | addOrder o =>
      rw [Command.apply, Manager.addOrder] at hc
      obtain ⟨hj₁, hcall⟩ := Manager.journalThen_accepted hc
      refine ⟨_ :: es, by rw [hj, hj₁, List.append_assoc, List.singleton_append], fun a hR => ?_⟩
      obtain ⟨a₁, ha₁, hR₁⟩ := hR.addOrder hcall
      obtain ⟨a', hrep', hR'⟩ := hrep a₁ hR₁
      have happ : applyEvent a ⟨eventNewOrder, t, o, 0⟩ = some (.ok a₁) := by
        simp [applyEvent, ha₁, tolerate]
      exact ⟨a', by rw [replay, if_neg ht, happ]; exact hrep', hR'⟩
    | cancelOrder id =>
      rw [Command.apply, Manager.cancelOrder] at hc
      obtain ⟨hj₁, hcall⟩ := Manager.journalThen_accepted hc
      refine ⟨_ :: es, by rw [hj, hj₁, List.append_assoc, List.singleton_append], fun a hR => ?_⟩
      obtain ⟨a₁, ha₁, hR₁⟩ := hR.deleteOrder hcall
      obtain ⟨a', hrep', hR'⟩ := hrep a₁ hR₁
      have hne : eventCancelOrder ≠ eventNewOrder := by decide
      have happ : applyEvent a ⟨eventCancelOrder, t, default, id⟩ = some (.ok a₁) := by
        simp [applyEvent, hne, ha₁, tolerate]
      exact ⟨a', by rw [replay, if_neg ht, happ]; exact hrep', hR'⟩

/-! ## The snapshot -/

/-- A tolerated answer keeps the engine the call returned. Source: `recover.go` `applyEvent`.
Kind: L -/
theorem tolerate_eq_ok {tolerated : ErrorCode} {err : ErrorCode → ApplyError}
    {r : MarketManager × ErrorCode} {mm : MarketManager}
    (h : tolerate tolerated err r = .ok mm) : mm = r.1 := by
  unfold tolerate at h
  split_ifs at h
  cases h
  rfl

/-- Inversion of a successful bind in `Except`. Source: none: infrastructure. Kind: L -/
theorem except_bind_eq_ok {ε α β : Type} {x : Except ε α} {f : α → Except ε β} {b : β}
    (h : (x >>= f) = .ok b) : ∃ a, x = .ok a ∧ f a = .ok b := by
  cases x with
  | error e => cases h
  | ok a => exact ⟨a, rfl, h⟩

/-- Restoring the snapshot's symbols never switches matching.
Source: `recover.go` `applySnapshot`
Kind: L -/
theorem addSymbols_matching :
    ∀ (ss : List Symbol) {m m' : MarketManager}, addSymbols m ss = .ok m' →
      m'.matching = m.matching
  | [], _, _, h => by cases h; rfl
  | s :: ss, m, m', h => by
    obtain ⟨m₁, h₁, h⟩ := except_bind_eq_ok h
    obtain ⟨m₂, h₂, h⟩ := except_bind_eq_ok h
    rw [addSymbols_matching ss h, tolerate_eq_ok h₂, tolerate_eq_ok h₁]
    unfold MarketManager.addOrderBook MarketManager.addSymbol
    split_ifs <;> rfl

/-- Restoring the snapshot's orders never switches matching.
Source: `recover.go` `applySnapshot`
Kind: L -/
theorem restoreOrders_matching :
    ∀ (os : List Order) {m m' : MarketManager}, restoreOrders m os = some (.ok m') →
      m'.matching = m.matching
  | [], _, _, h => by cases h; rfl
  | o :: os, m, m', h => by
    obtain ⟨r, hr, h⟩ := Option.bind_eq_some.1 h
    split at h
    · cases h
    · rename_i m₁ ht
      rw [restoreOrders_matching os h, tolerate_eq_ok ht]
      exact MarketManager.restoreOrder_matching hr

/-- Rebuilding a fresh engine from a snapshot of an engine that keeps the invariant, stores each
symbol under its own id and has exactly the books of its symbols: `applySnapshot` succeeds with
the same symbols, book keys and registry, the invariant, AVL trees and matching off.
Source: `snapshot.go` `captureSnapshot`; `recover.go` `applySnapshot`
Kind: L -/
theorem applySnapshot_capture {mm : MarketManager} (hI : Inv mm none none)
    (hsk : ∀ k s, mm.symbols k = some s → s.id = k)
    (hbooks : ∀ k, (mm.orderBooks k).isSome = (mm.symbols k).isSome) {se : List UInt32}
    {oe : List UInt64} (hse : IsEnum se mm.symbols) (hoe : IsEnum oe mm.orders) (T : Int64) :
    ∃ mm₂, applySnapshot newMarketManager (captureSnapshot mm T se oe) = some (.ok mm₂) ∧
      Inv mm₂ none none ∧ mm₂.Balanced ∧ mm₂.matching = false ∧ mm₂.symbols = mm.symbols ∧
      (∀ k, (mm₂.orderBooks k).isSome = (mm.orderBooks k).isSome) ∧ mm₂.registry = mm.registry := by
  have hok : ∀ id o, mm.registry id = some o → o.id = id := fun id o h => by
    obtain ⟨a, ha, rfl⟩ := Option.map_eq_some'.1 h
    exact (hI.registered ha).id
  have hre : IsEnum oe mm.registry := ⟨hoe.1, fun k => by simp [hoe.2 k, registry]⟩
  obtain ⟨m₁, h₁, hI₁, hB₁, hreg₁, hsym₁, hbook₁⟩ := addSymbols_spec (se.filterMap mm.symbols)
    Inv.init balanced_newMarketManager (by rw [keys_filterMap hsk]; exact hse.1.filter _)
    fun _ _ => ⟨rfl, rfl⟩
  have hbook : ∀ k, (m₁.orderBooks k).isSome = (mm.orderBooks k).isSome := fun k => by
    rw [hbook₁, find?_filterMap hsk hse, hbooks]
    simp [newMarketManager]
  obtain ⟨m₂, h₂, hI₂, hB₂, hsym₂, hbook₂, hreg₂⟩ := restoreOrders_spec (oe.filterMap mm.registry)
    hI₁ hB₁ (by rw [keys_filterMap hok]; exact hoe.1.filter _) fun o ho => by
      obtain ⟨id, -, hid⟩ := List.mem_filterMap.1 ho
      obtain ⟨a, ha, rfl⟩ := Option.map_eq_some'.1 hid
      obtain ⟨L, hL, -⟩ := (hI.registered ha).placed nofun
      refine ⟨registry_eq_none.1 (by rw [hreg₁]; rfl), ?_⟩
      rw [hbook]
      exact Inv.isSome_of_mem_levelIds hL
  have hos : (oe.filterMap mm.orders).map (fun a => (mm.heap.orderNodes a).order) =
      oe.filterMap mm.registry := List.map_filterMap _ _ _
  have hs : applySnapshot newMarketManager (captureSnapshot mm T se oe) = some (.ok m₂) := by
    simp [applySnapshot, captureSnapshot, h₁, hos, h₂]
  refine ⟨m₂, hs, hI₂, hB₂, ?_, hsym₂.trans (funext fun k => ?_), fun k => (hbook₂ k).trans (hbook k),
    funext fun id => ?_⟩
  · rw [restoreOrders_matching _ h₂, addSymbols_matching _ h₁]
    rfl
  · rw [hsym₁, find?_filterMap hsk hse]
    cases mm.symbols k <;> rfl
  · rw [hreg₂, find?_filterMap hok hre, hreg₁]
    cases mm.registry id <;> rfl

/-! ## Recovery -/

/-- `Recover` from a snapshot of a reachable engine with matching off and exactly the books of its
symbols, on a journal whose events up to the snapshot are stamped at or before it and whose
later events keep an engine related to the live one related to `mm'`: it succeeds with an engine
related to `mm'`.
Source: `recover.go` `Recover`, `applySnapshot`; `snapshot.go` `captureSnapshot`
Kind: L -/
theorem recover_capture_append {mm mm' : MarketManager} (hm : Reachable mm)
    (hoff : mm.matching = false) (hbooks : ∀ k, (mm.orderBooks k).isSome = (mm.symbols k).isSome)
    {se : List UInt32} {oe : List UInt64} (hse : IsEnum se mm.symbols) (hoe : IsEnum oe mm.orders)
    {T : Int64} {pre es : List MatchingEvent} (hpre : ∀ e ∈ pre, e.timestamp.sle T)
    (hrep : ∀ a, SameRegistry a mm → ∃ a', replay T a es = some (.ok a') ∧ SameRegistry a' mm') :
    ∃ a', recover newMarketManager (some (captureSnapshot mm T se oe)) (pre ++ es) =
      some (.ok a') ∧ SameRegistry a' mm' := by
  obtain ⟨mm₁, h₁, hI₁, hB₁, hoff₁, hsym₁, hbook₁, hreg₁⟩ :=
    applySnapshot_capture hm.inv hm.symbol_id hbooks hse hoe T
  obtain ⟨a', hrep', hR⟩ :=
    hrep mm₁ ⟨hI₁, hm.inv, hB₁, hm.balanced, hoff₁, hoff, hsym₁, hbook₁, hreg₁⟩
  refine ⟨a', ?_, hR⟩
  simp only [recover, h₁]
  change replay T _ _ = _
  rw [replay_append_of_sle hpre, hrep']

/-- Recovery is exact when no snapshot races a call. Take a manager whose engine is reachable,
has matching off and has exactly the books of its symbols. Take a snapshot of that engine at
time `T`, with every event already in the journal stamped at or before `T`. Then run any
sequence of `AddOrder` and `CancelOrder` calls stamped after `T`, each answered without an
error. `Recover` into a fresh engine, from that snapshot and the whole journal, succeeds, and the
engine it returns has the live engine's symbols, book keys and registry.
Source: `recover.go` `Recover`, `applySnapshot`, `applyEvent`; `manager.go` `AddOrder`,
`CancelOrder`; `snapshot.go` `captureSnapshot`
Kind: P -/
theorem recover_acceptedRun {m m' : Manager} {cs : List (Command × Int64)} (hm : Reachable m.mm)
    (hoff : m.mm.matching = false)
    (hbooks : ∀ k, (m.mm.orderBooks k).isSome = (m.mm.symbols k).isSome) {se : List UInt32}
    {oe : List UInt64} (hse : IsEnum se m.mm.symbols) (hoe : IsEnum oe m.mm.orders) {T : Int64}
    (hpre : ∀ e ∈ m.journal, e.timestamp.sle T) (hpost : ∀ p ∈ cs, ¬ p.2.sle T)
    (hrun : AcceptedRun m cs m') :
    ∃ mm, recover newMarketManager (some (captureSnapshot m.mm T se oe)) m'.journal =
        some (.ok mm) ∧ mm.symbols = m'.mm.symbols ∧
      (∀ k, (mm.orderBooks k).isSome = (m'.mm.orderBooks k).isSome) ∧
      mm.registry = m'.mm.registry := by
  obtain ⟨es, hj, hrep⟩ := replay_acceptedRun hrun hpost
  obtain ⟨mm, h, hR⟩ := recover_capture_append hm hoff hbooks hse hoe hpre hrep
  exact ⟨mm, hj ▸ h, hR.symbols, hR.books, hR.registry⟩

/-- `paired` (symbol and book 1, two bids at 10) with an empty journal. Source: none. Kind: D -/
def recoverStart : Manager := ⟨paired, []⟩

/-- After the snapshot at 5: a sell at 12 stamped 6, then the cancel of order 1 stamped 7.
Source: none: a run for the witnesses
Kind: D -/
def recoverCalls : List (Command × Int64) :=
  [(.addOrder (newLimitOrder 3 1 orderSideSell 12 4), 6), (.cancelOrder 1, 7)]

/-- The manager after the sell. Source: none. Kind: D -/
def recoverMid : Manager :=
  ((Command.addOrder (newLimitOrder 3 1 orderSideSell 12 4)).apply recoverStart 6).elim
    recoverStart Prod.fst

/-- The manager after the cancel. Source: none. Kind: D -/
def recoverEnd : Manager :=
  ((Command.cancelOrder 1).apply recoverMid 7).elim recoverMid Prod.fst

/-- Recovery from the snapshot of `paired` at 5 and the journal of the sell and the cancel.
Source: none: witness
Kind: L -/
theorem recoverEnd_recover :
    Reachable paired ∧ paired.matching = false ∧
    (∀ k, (paired.orderBooks k).isSome = (paired.symbols k).isSome) ∧
    IsEnum [1] paired.symbols ∧ IsEnum [1, 2] paired.orders ∧
    (∀ e ∈ recoverStart.journal, e.timestamp.sle 5) ∧ (∀ p ∈ recoverCalls, ¬ p.2.sle 5) ∧
    AcceptedRun recoverStart recoverCalls recoverEnd ∧
    ∃ mm, recover newMarketManager (some (captureSnapshot paired 5 [1] [1, 2])) recoverEnd.journal =
        some (.ok mm) ∧ mm.symbols = recoverEnd.mm.symbols ∧
      (∀ k, (mm.orderBooks k).isSome = (recoverEnd.mm.orderBooks k).isSome) ∧
      mm.registry = recoverEnd.mm.registry :=
  have hrun : AcceptedRun recoverStart recoverCalls recoverEnd :=
    .cons (show _ = some (recoverMid, none) from rfl)
      (.cons (show _ = some (recoverEnd, none) from rfl) (.nil _))
  have hoe := paired_orders_enum _ (.inl rfl)
  ⟨paired_reachable, rfl, paired_books, paired_symbols_enum, hoe, nofun, by decide, hrun,
    recover_acceptedRun (m := recoverStart) paired_reachable rfl paired_books paired_symbols_enum hoe
      nofun (by decide) hrun⟩

end GoTrader.Persistence
