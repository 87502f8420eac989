import Mathlib.Tactic.Abel
import GoTrader.Itch.MessageLevel

/-!
# `StatsHandler`: counting the messages of a stream

`MessageStats` and the twenty-one methods of `StatsHandler` in `handler.go`, and what the
counters hold after `ParseReader` (the path `ParseFile` takes).

* `MessageStats` — the twenty-two `int` counters, in 64-bit two's complement; `Counter` — the
  twenty-one besides `TotalMessages`, one per method;
* `MessageStats.record` — the body the methods share, `X++` then `TotalMessages++`; each method
  is `record` at its own counter, and `statsHandler` dispatches a call to its method;
* `Counter.ofType` — the counter of a type byte; `counter_callFor` — the call `Parse` makes for
  bytes led by a type byte reaches the method of that byte's counter;
* `Consistent` — `TotalMessages` is the sum of the other counters; `consistent_run` — every run of
  calls keeps it;
* `parseReader_stats` — after `ParseReader` over well-formed frames each counter has grown by the
  number of non-empty frames of its type, and `TotalMessages` by the number of non-empty frames.
-/

namespace GoTrader.Itch

/-! ## The counters -/

/-- `MessageStats`: Go `int` is 64 bits wide here, and `++` wraps.
Source: `handler.go` `MessageStats`
Kind: D
Fidelity: exact -/
structure MessageStats where
  totalMessages : Int64
  systemEvents : Int64
  stockDirectories : Int64
  stockTradingActions : Int64
  regSHO : Int64
  marketParticipantPos : Int64
  mwcbDecline : Int64
  mwcbStatus : Int64
  ipoQuoting : Int64
  addOrders : Int64
  addOrderMPID : Int64
  orderExecuted : Int64
  orderExecutedPrice : Int64
  orderCancels : Int64
  orderDeletes : Int64
  orderReplaces : Int64
  trades : Int64
  crossTrades : Int64
  brokenTrades : Int64
  noii : Int64
  rpii : Int64
  unknownMessages : Int64
deriving DecidableEq, Repr

/-- The zero value of `MessageStats`, as `&StatsHandler{}` starts.
Source: `handler.go` `StatsHandler`
Kind: D -/
def MessageStats.zero : MessageStats :=
  ⟨0, 0, 0, 0, 0, 0, 0, 0, 0, 0, 0, 0, 0, 0, 0, 0, 0, 0, 0, 0, 0, 0⟩

/-- The counters of `MessageStats` besides `TotalMessages`.
Source: `handler.go` `MessageStats`
Kind: D -/
inductive Counter where
  | systemEvents | stockDirectories | stockTradingActions | regSHO | marketParticipantPos
  | mwcbDecline | mwcbStatus | ipoQuoting | addOrders | addOrderMPID | orderExecuted
  | orderExecutedPrice | orderCancels | orderDeletes | orderReplaces | trades | crossTrades
  | brokenTrades | noii | rpii | unknownMessages
deriving DecidableEq, Repr

/-- Every counter once. Source: `handler.go` `MessageStats`. Kind: D -/
def Counter.all : List Counter :=
  [.systemEvents, .stockDirectories, .stockTradingActions, .regSHO, .marketParticipantPos,
   .mwcbDecline, .mwcbStatus, .ipoQuoting, .addOrders, .addOrderMPID, .orderExecuted,
   .orderExecutedPrice, .orderCancels, .orderDeletes, .orderReplaces, .trades, .crossTrades,
   .brokenTrades, .noii, .rpii, .unknownMessages]

/-- The value of a counter. Source: `handler.go` `MessageStats`. Kind: D -/
def MessageStats.get (s : MessageStats) : Counter → Int64
  | .systemEvents => s.systemEvents
  | .stockDirectories => s.stockDirectories
  | .stockTradingActions => s.stockTradingActions
  | .regSHO => s.regSHO
  | .marketParticipantPos => s.marketParticipantPos
  | .mwcbDecline => s.mwcbDecline
  | .mwcbStatus => s.mwcbStatus
  | .ipoQuoting => s.ipoQuoting
  | .addOrders => s.addOrders
  | .addOrderMPID => s.addOrderMPID
  | .orderExecuted => s.orderExecuted
  | .orderExecutedPrice => s.orderExecutedPrice
  | .orderCancels => s.orderCancels
  | .orderDeletes => s.orderDeletes
  | .orderReplaces => s.orderReplaces
  | .trades => s.trades
  | .crossTrades => s.crossTrades
  | .brokenTrades => s.brokenTrades
  | .noii => s.noii
  | .rpii => s.rpii
  | .unknownMessages => s.unknownMessages

/-- `h.Stats.X++` for the counter `X`. Source: `handler.go` `StatsHandler` methods. Kind: D -/
def MessageStats.incr (s : MessageStats) : Counter → MessageStats
  | .systemEvents => { s with systemEvents := s.systemEvents + 1 }
  | .stockDirectories => { s with stockDirectories := s.stockDirectories + 1 }
  | .stockTradingActions => { s with stockTradingActions := s.stockTradingActions + 1 }
  | .regSHO => { s with regSHO := s.regSHO + 1 }
  | .marketParticipantPos => { s with marketParticipantPos := s.marketParticipantPos + 1 }
  | .mwcbDecline => { s with mwcbDecline := s.mwcbDecline + 1 }
  | .mwcbStatus => { s with mwcbStatus := s.mwcbStatus + 1 }
  | .ipoQuoting => { s with ipoQuoting := s.ipoQuoting + 1 }
  | .addOrders => { s with addOrders := s.addOrders + 1 }
  | .addOrderMPID => { s with addOrderMPID := s.addOrderMPID + 1 }
  | .orderExecuted => { s with orderExecuted := s.orderExecuted + 1 }
  | .orderExecutedPrice => { s with orderExecutedPrice := s.orderExecutedPrice + 1 }
  | .orderCancels => { s with orderCancels := s.orderCancels + 1 }
  | .orderDeletes => { s with orderDeletes := s.orderDeletes + 1 }
  | .orderReplaces => { s with orderReplaces := s.orderReplaces + 1 }
  | .trades => { s with trades := s.trades + 1 }
  | .crossTrades => { s with crossTrades := s.crossTrades + 1 }
  | .brokenTrades => { s with brokenTrades := s.brokenTrades + 1 }
  | .noii => { s with noii := s.noii + 1 }
  | .rpii => { s with rpii := s.rpii + 1 }
  | .unknownMessages => { s with unknownMessages := s.unknownMessages + 1 }

/-- The body every `StatsHandler` method has: its own counter, then `TotalMessages`, each
incremented once.
Source: `handler.go` `(*StatsHandler).OnSystemEvent` … `(*StatsHandler).OnUnknownMessage`
Kind: D
Fidelity: exact (the methods return `nil`; `statsHandler` says so) -/
def MessageStats.record (s : MessageStats) (k : Counter) : MessageStats :=
  { s.incr k with totalMessages := s.totalMessages + 1 }

@[simp]
theorem MessageStats.get_incr (s : MessageStats) (k j : Counter) :
    (s.incr k).get j = s.get j + if j = k then 1 else 0 := by
  cases k <;> cases j <;> simp [incr, get]

@[simp]
theorem MessageStats.get_record (s : MessageStats) (k j : Counter) :
    (s.record k).get j = s.get j + if j = k then 1 else 0 := by
  rw [← get_incr]
  cases j <;> rfl

@[simp]
theorem MessageStats.totalMessages_record (s : MessageStats) (k : Counter) :
    (s.record k).totalMessages = s.totalMessages + 1 := rfl

/-! ## The methods -/

namespace StatsHandler

/-- Source: `handler.go` `(*StatsHandler).OnSystemEvent`. Kind: D. Fidelity: exact -/
def onSystemEvent (s : MessageStats) : MessageStats := s.record .systemEvents
/-- Source: `handler.go` `(*StatsHandler).OnStockDirectory`. Kind: D. Fidelity: exact -/
def onStockDirectory (s : MessageStats) : MessageStats := s.record .stockDirectories
/-- Source: `handler.go` `(*StatsHandler).OnStockTradingAction`. Kind: D. Fidelity: exact -/
def onStockTradingAction (s : MessageStats) : MessageStats := s.record .stockTradingActions
/-- Source: `handler.go` `(*StatsHandler).OnRegSHO`. Kind: D. Fidelity: exact -/
def onRegSHO (s : MessageStats) : MessageStats := s.record .regSHO
/-- Source: `handler.go` `(*StatsHandler).OnMarketParticipantPosition`. Kind: D.
Fidelity: exact -/
def onMarketParticipantPosition (s : MessageStats) : MessageStats :=
  s.record .marketParticipantPos
/-- Source: `handler.go` `(*StatsHandler).OnMWCBDecline`. Kind: D. Fidelity: exact -/
def onMWCBDecline (s : MessageStats) : MessageStats := s.record .mwcbDecline
/-- Source: `handler.go` `(*StatsHandler).OnMWCBStatus`. Kind: D. Fidelity: exact -/
def onMWCBStatus (s : MessageStats) : MessageStats := s.record .mwcbStatus
/-- Source: `handler.go` `(*StatsHandler).OnIPOQuoting`. Kind: D. Fidelity: exact -/
def onIPOQuoting (s : MessageStats) : MessageStats := s.record .ipoQuoting
/-- Source: `handler.go` `(*StatsHandler).OnAddOrder`. Kind: D. Fidelity: exact -/
def onAddOrder (s : MessageStats) : MessageStats := s.record .addOrders
/-- Source: `handler.go` `(*StatsHandler).OnAddOrderMPID`. Kind: D. Fidelity: exact -/
def onAddOrderMPID (s : MessageStats) : MessageStats := s.record .addOrderMPID
/-- Source: `handler.go` `(*StatsHandler).OnOrderExecuted`. Kind: D. Fidelity: exact -/
def onOrderExecuted (s : MessageStats) : MessageStats := s.record .orderExecuted
/-- Source: `handler.go` `(*StatsHandler).OnOrderExecutedWithPrice`. Kind: D. Fidelity: exact -/
def onOrderExecutedWithPrice (s : MessageStats) : MessageStats := s.record .orderExecutedPrice
/-- Source: `handler.go` `(*StatsHandler).OnOrderCancel`. Kind: D. Fidelity: exact -/
def onOrderCancel (s : MessageStats) : MessageStats := s.record .orderCancels
/-- Source: `handler.go` `(*StatsHandler).OnOrderDelete`. Kind: D. Fidelity: exact -/
def onOrderDelete (s : MessageStats) : MessageStats := s.record .orderDeletes
/-- Source: `handler.go` `(*StatsHandler).OnOrderReplace`. Kind: D. Fidelity: exact -/
def onOrderReplace (s : MessageStats) : MessageStats := s.record .orderReplaces
/-- Source: `handler.go` `(*StatsHandler).OnTrade`. Kind: D. Fidelity: exact -/
def onTrade (s : MessageStats) : MessageStats := s.record .trades
/-- Source: `handler.go` `(*StatsHandler).OnCrossTrade`. Kind: D. Fidelity: exact -/
def onCrossTrade (s : MessageStats) : MessageStats := s.record .crossTrades
/-- Source: `handler.go` `(*StatsHandler).OnBrokenTrade`. Kind: D. Fidelity: exact -/
def onBrokenTrade (s : MessageStats) : MessageStats := s.record .brokenTrades
/-- Source: `handler.go` `(*StatsHandler).OnNOII`. Kind: D. Fidelity: exact -/
def onNOII (s : MessageStats) : MessageStats := s.record .noii
/-- Source: `handler.go` `(*StatsHandler).OnRPII`. Kind: D. Fidelity: exact -/
def onRPII (s : MessageStats) : MessageStats := s.record .rpii
/-- Source: `handler.go` `(*StatsHandler).OnUnknownMessage`. Kind: D. Fidelity: exact -/
def onUnknownMessage (s : MessageStats) : MessageStats := s.record .unknownMessages

end StatsHandler

/-- The method a call reaches on a `*StatsHandler`; every one returns `nil`.
Source: `handler.go` `StatsHandler` (its method set)
Kind: D
Fidelity: exact -/
def statsHandler : Handler MessageStats :=
  ⟨fun s c => (match c with
    | .onSystemEvent _ => StatsHandler.onSystemEvent s
    | .onStockDirectory _ => StatsHandler.onStockDirectory s
    | .onStockTradingAction _ => StatsHandler.onStockTradingAction s
    | .onRegSHO _ => StatsHandler.onRegSHO s
    | .onMarketParticipantPosition _ => StatsHandler.onMarketParticipantPosition s
    | .onMWCBDecline _ => StatsHandler.onMWCBDecline s
    | .onMWCBStatus _ => StatsHandler.onMWCBStatus s
    | .onIPOQuoting _ => StatsHandler.onIPOQuoting s
    | .onAddOrder _ => StatsHandler.onAddOrder s
    | .onAddOrderMPID _ => StatsHandler.onAddOrderMPID s
    | .onOrderExecuted _ => StatsHandler.onOrderExecuted s
    | .onOrderExecutedWithPrice _ => StatsHandler.onOrderExecutedWithPrice s
    | .onOrderCancel _ => StatsHandler.onOrderCancel s
    | .onOrderDelete _ => StatsHandler.onOrderDelete s
    | .onOrderReplace _ => StatsHandler.onOrderReplace s
    | .onTrade _ => StatsHandler.onTrade s
    | .onCrossTrade _ => StatsHandler.onCrossTrade s
    | .onBrokenTrade _ => StatsHandler.onBrokenTrade s
    | .onNOII _ => StatsHandler.onNOII s
    | .onRPII _ => StatsHandler.onRPII s
    | .onUnknownMessage _ _ => StatsHandler.onUnknownMessage s, none)⟩

/-- The counter of the method a call reaches.
Source: `handler.go` `StatsHandler` (its method set)
Kind: D -/
def Call.counter : Call → Counter
  | .onSystemEvent _ => .systemEvents
  | .onStockDirectory _ => .stockDirectories
  | .onStockTradingAction _ => .stockTradingActions
  | .onRegSHO _ => .regSHO
  | .onMarketParticipantPosition _ => .marketParticipantPos
  | .onMWCBDecline _ => .mwcbDecline
  | .onMWCBStatus _ => .mwcbStatus
  | .onIPOQuoting _ => .ipoQuoting
  | .onAddOrder _ => .addOrders
  | .onAddOrderMPID _ => .addOrderMPID
  | .onOrderExecuted _ => .orderExecuted
  | .onOrderExecutedWithPrice _ => .orderExecutedPrice
  | .onOrderCancel _ => .orderCancels
  | .onOrderDelete _ => .orderDeletes
  | .onOrderReplace _ => .orderReplaces
  | .onTrade _ => .trades
  | .onCrossTrade _ => .crossTrades
  | .onBrokenTrade _ => .brokenTrades
  | .onNOII _ => .noii
  | .onRPII _ => .rpii
  | .onUnknownMessage _ _ => .unknownMessages

/-- Each method is `record` at its own counter, and returns `nil`. Source: `handler.go`
`StatsHandler`. Kind: L -/
@[simp]
theorem statsHandler_call (s : MessageStats) (c : Call) :
    statsHandler.call s c = (s.record c.counter, none) := by
  cases c <;> rfl

/-! ## From type bytes to counters -/

/-- The counter each type byte's method increments, in the order of `Parse`'s `switch`.
Source: `handler.go` `(*Parser).Parse`, `StatsHandler`
Kind: D -/
def typeCounters : List (UInt8 × Counter) :=
  [(messageTypeSystemEvent, .systemEvents), (messageTypeStockDirectory, .stockDirectories),
   (messageTypeStockTradingAction, .stockTradingActions), (messageTypeRegSHO, .regSHO),
   (messageTypeMarketParticipantPos, .marketParticipantPos),
   (messageTypeMWCBDecline, .mwcbDecline), (messageTypeMWCBStatus, .mwcbStatus),
   (messageTypeIPOQuoting, .ipoQuoting), (messageTypeAddOrder, .addOrders),
   (messageTypeAddOrderMPID, .addOrderMPID), (messageTypeOrderExecuted, .orderExecuted),
   (messageTypeOrderExecutedWithPrice, .orderExecutedPrice),
   (messageTypeOrderCancel, .orderCancels), (messageTypeOrderDelete, .orderDeletes),
   (messageTypeOrderReplace, .orderReplaces), (messageTypeTrade, .trades),
   (messageTypeCrossTrade, .crossTrades), (messageTypeBrokenTrade, .brokenTrades),
   (messageTypeNOII, .noii), (messageTypeRPII, .rpii)]

/-- The counter of a type byte: `UnknownMessages` for a byte that is no type.
Source: `handler.go` `(*Parser).Parse`, `StatsHandler`
Kind: D -/
def Counter.ofType (t : UInt8) : Counter := (typeCounters.lookup t).getD .unknownMessages

theorem typeCounters_keys : typeCounters.map Prod.fst = parsers.map Prod.fst := rfl

theorem lookup_eq_none_of_keys {α β γ : Type} [BEq α] {l : List (α × β)} {l' : List (α × γ)}
    (hk : l.map Prod.fst = l'.map Prod.fst) {a : α} (h : l.lookup a = none) :
    l'.lookup a = none := by
  induction l generalizing l' with
  | nil => cases l' with
    | nil => rfl
    | cons _ _ => cases hk
  | cons p l ih =>
    obtain _ | ⟨p', l'⟩ := l'
    · cases hk
    · simp only [List.map_cons, List.cons.injEq] at hk
      rw [List.lookup_cons] at h ⊢
      rw [← hk.1]
      split at h
      · cases h
      · exact ih hk.2 h

/-- The call `Parse` makes for bytes led by `t` reaches the method of `t`'s counter. Source:
`handler.go` `(*Parser).Parse`, `(*Parser).parse*`. Kind: L -/
theorem counter_callFor (t : UInt8) (rest : List UInt8) :
    (callFor (t :: rest)).counter = Counter.ofType t := by
  rw [callFor]
  cases hd : decoderFor t with
  | none =>
    rw [Counter.ofType, lookup_eq_none_of_keys typeCounters_keys.symm hd]
    rfl
  | some d =>
    have hmem := mem_of_lookup_eq_some hd
    simp only [parsers, List.mem_cons, Prod.mk.injEq, List.mem_nil_iff, or_false] at hmem
    rcases hmem with ⟨rfl, rfl⟩ | ⟨rfl, rfl⟩ | ⟨rfl, rfl⟩ | ⟨rfl, rfl⟩ | ⟨rfl, rfl⟩ |
      ⟨rfl, rfl⟩ | ⟨rfl, rfl⟩ | ⟨rfl, rfl⟩ | ⟨rfl, rfl⟩ | ⟨rfl, rfl⟩ | ⟨rfl, rfl⟩ |
      ⟨rfl, rfl⟩ | ⟨rfl, rfl⟩ | ⟨rfl, rfl⟩ | ⟨rfl, rfl⟩ | ⟨rfl, rfl⟩ | ⟨rfl, rfl⟩ |
      ⟨rfl, rfl⟩ | ⟨rfl, rfl⟩ | ⟨rfl, rfl⟩ <;> rfl

/-! ## Runs -/

/-- `TotalMessages` is the sum of the other twenty-one counters.
Source: `handler.go` `StatsHandler`
Kind: D -/
def MessageStats.Consistent (s : MessageStats) : Prop :=
  s.totalMessages = (Counter.all.map s.get).sum

instance (s : MessageStats) : Decidable s.Consistent := inferInstanceAs (Decidable (_ = _))

theorem sum_map_add_ite {l : List Counter} (f : Counter → Int64) (k : Counter) :
    (l.map fun j => f j + if j = k then 1 else 0).sum = (l.map f).sum + (l.count k : Int64) := by
  induction l with
  | nil => simp
  | cons j l ih =>
    simp only [List.map_cons, List.sum_cons, ih, List.count_cons, beq_iff_eq, Nat.cast_add]
    split_ifs <;> simp only [Nat.cast_one, Nat.cast_zero] <;> abel

theorem count_all (k : Counter) : Counter.all.count k = 1 := by
  cases k <;> rfl

/-- One method call keeps the counters consistent. Source: `handler.go` `StatsHandler`.
Kind: L -/
theorem MessageStats.Consistent.record {s : MessageStats} (hs : s.Consistent) (k : Counter) :
    (s.record k).Consistent := by
  rw [Consistent, totalMessages_record, hs,
    show (s.record k).get = fun j => s.get j + if j = k then 1 else 0 from funext (get_record s k),
    sum_map_add_ite, count_all, Nat.cast_one]

/-- Whatever calls a `StatsHandler` is given, in whatever order, `TotalMessages` stays the sum of
the other twenty-one counters, in 64-bit wrapping arithmetic: each method increments its own
counter and `TotalMessages` once.
Source: `handler.go` `StatsHandler`, `(*StatsHandler).OnSystemEvent` …
`(*StatsHandler).OnUnknownMessage`
Kind: P -/
theorem consistent_run {s : MessageStats} (hs : s.Consistent) :
    ∀ cs : List Call, (cs.foldl (fun s c => (statsHandler.call s c).1) s).Consistent := by
  intro cs
  induction cs generalizing s with
  | nil => exact hs
  | cons c cs ih => exact ih (by simpa using hs.record c.counter)

theorem zero_consistent : MessageStats.zero.Consistent := by decide

/-- The zero stats, then any run of calls: `TotalMessages` is the sum of the rest. -/
theorem consistent_run_zero :
    MessageStats.zero.Consistent ∧ ∀ cs : List Call,
      (cs.foldl (fun s c => (statsHandler.call s c).1) MessageStats.zero).Consistent :=
  ⟨zero_consistent, consistent_run zero_consistent⟩

/-! ## After `ParseReader` -/

/-- A run of `record` at the counters `ks`: each counter grows by its number of occurrences.
Source: `handler.go` `StatsHandler`. Kind: L -/
theorem get_foldl_record (ks : List Counter) (s : MessageStats) (j : Counter) :
    (ks.foldl MessageStats.record s).get j = s.get j + (ks.count j : Int64) ∧
    (ks.foldl MessageStats.record s).totalMessages = s.totalMessages + (ks.length : Int64) := by
  induction ks generalizing s with
  | nil => simp
  | cons k ks ih =>
    obtain ⟨h1, h2⟩ := ih (s.record k)
    simp only [List.foldl_cons, h1, h2, MessageStats.get_record, MessageStats.totalMessages_record,
      List.count_cons, beq_iff_eq, List.length_cons, Nat.cast_add]
    constructor
    · by_cases hjk : j = k
      · subst hjk
        simp only [if_true, Nat.cast_one]
        abel
      · simp only [if_neg hjk, if_neg (Ne.symm hjk), Nat.cast_zero, add_zero]
    · simp only [Nat.cast_one]
      abel

/-- `handleFrames` with a handler whose calls return `nil`, over frames the stream format
admits: every non-empty frame is counted and handed to the handler. Source: `handler.go`
`ParseReader`. Kind: L -/
theorem handleFrames_of_nil {σ : Type} (h : Handler σ) (hnil : ∀ s c, (h.call s c).2 = none)
    (e : Option Error) :
    ∀ {fs : List (List UInt8)}, (∀ f ∈ fs, FrameOK f) → ∀ (s : σ) (total : Int64),
      handleFrames h e s fs total =
        ((total + BitVec.ofNat 64
            ((fs.filter fun f => f ≠ []).map fun f => (2 + f.length) % 2 ^ 16).sum, e),
          (fs.filter fun f => f ≠ []).foldl (fun s f => (h.call s (callFor f)).1) s)
  | [], _, s, total => by simp [handleFrames]
  | f :: fs, hfs, s, total => by
    have ih := handleFrames_of_nil h hnil e (fun f hf => hfs f (.tail _ hf))
    rw [handleFrames]
    by_cases hf0 : f = []
    · simp [hf0, ih]
    · obtain ⟨n, hdec⟩ := decode_of_frame hf0 (hfs f (.head _)).2
      simp only [if_neg hf0, parse, hdec, hnil, ih, List.filter_cons, ne_eq, hf0,
        not_false_eq_true, decide_True, if_true, if_false, List.map_cons, List.sum_cons,
        List.foldl_cons, BitVec.add_assoc, BitVec.ofNat_add_ofNat]

/-- After `ParseReader` with a `StatsHandler`, over frames of fewer than `2 ^ 16` bytes each,
none shorter than its type's size, and then the end of the stream (clean or cut): every non-empty
frame is one message, `TotalMessages` has grown by their number, and each other counter by the
number of those whose first byte is its counter's type byte (`UnknownMessages` by those whose
first byte is no type), in 64-bit wrapping arithmetic; the error returned is the end's.
Source: `handler.go` `ParseReader`, `(*Parser).Parse`, `StatsHandler`
Kind: P -/
theorem parseReader_stats {fs : List (List UInt8)} (hfs : ∀ f ∈ fs, FrameOK f) {r : List UInt8}
    {e : Option Error} (hr : StreamEnd r e) (s : MessageStats) :
    let ms := fs.filter fun f => f ≠ []
    (parseReader statsHandler s (fs.flatMap frame ++ r)).1.2 = e ∧
    (parseReader statsHandler s (fs.flatMap frame ++ r)).2.totalMessages =
      s.totalMessages + (ms.length : Int64) ∧
    ∀ k, (parseReader statsHandler s (fs.flatMap frame ++ r)).2.get k =
      s.get k + ((ms.map fun f => Counter.ofType (f.headD 0)).count k : Int64) := by
  intro ms
  have hlen : ∀ f ∈ fs, f.length < 2 ^ 16 := fun f hf => (hfs f hf).1
  rw [parseReader_eq_handleFrames statsHandler hlen hr,
    handleFrames_of_nil statsHandler (fun _ _ => rfl) e hfs]
  have hks : ms.foldl (fun s f => (statsHandler.call s (callFor f)).1) s =
      (ms.map fun f => Counter.ofType (f.headD 0)).foldl MessageStats.record s := by
    rw [List.foldl_map]
    refine List.foldl_ext _ _ _ fun s f hf => ?_
    obtain _ | ⟨t, rest⟩ := f
    · simp [ms] at hf
    · rw [statsHandler_call, counter_callFor]
      rfl
  refine ⟨rfl, ?_, fun k => ?_⟩
  · rw [hks, (get_foldl_record _ s .systemEvents).2, List.length_map]
  · rw [hks, (get_foldl_record _ s k).1]

/-- One system event frame read from zero stats: one message, counted as a system event. -/
theorem parseReader_stats_systemEvent :
    (∀ f ∈ [systemEventO], FrameOK f) ∧
    let ms := [systemEventO].filter fun f => f ≠ []
    (parseReader statsHandler .zero ([systemEventO].flatMap frame ++ [])).1.2 = none ∧
    (parseReader statsHandler .zero ([systemEventO].flatMap frame ++ [])).2.totalMessages =
      MessageStats.zero.totalMessages + (ms.length : Int64) ∧
    ∀ k, (parseReader statsHandler .zero ([systemEventO].flatMap frame ++ [])).2.get k =
      MessageStats.zero.get k + ((ms.map fun f => Counter.ofType (f.headD 0)).count k : Int64) :=
  ⟨by decide, parseReader_stats (by decide) .eof _⟩

end GoTrader.Itch
