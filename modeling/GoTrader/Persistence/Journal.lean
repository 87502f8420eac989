import GoTrader.Persistence.Wire
import GoTrader.Persistence.Model

/-!
# The journal's records

`persistence.go`'s codec and `journal.go`'s `Append` and `ReadAll`, on the journal file's bytes:

* `marshalOrder` / `unmarshalOrder` — the 87-byte order layout; `unmarshalOrder_marshalOrder`
  and `marshalOrder_unmarshalOrder` are its two round trips, for every order (negative
  trailing fields and every enum byte included) and every 87-byte string;
* `encodeEvent` / `decodeEvent` — a length-prefixed record; `decodeEvent_encodeEvent` — decoding
  a record in front of any rest of the stream gives the event back, with the field its type
  does not use zeroed (`MatchingEvent.recorded`), and leaves the rest;
* `appendAll` — the file after `Append` of each event; `readAll` — `ReadAll`, which decodes
  records until `decodeEvent` fails and tolerates only `io.EOF` and `io.ErrUnexpectedEOF`;
* `decodeLoop_appendAll` — the records of a file decode back one per event and then `io.EOF`.
-/

namespace GoTrader.Persistence

open GoTrader.Matching

/-! ## Orders -/

/-- Source: `persistence.go` `orderWireSize`. Kind: D -/
def orderWireSize : Nat := 87

/-- The order's fields at their offsets (`buf[0:8]` to `buf[79:87]`).
Source: `persistence.go` `marshalOrder`
Kind: D
Fidelity: exact: the 87 bytes the call writes -/
def marshalOrder (o : Order) : List UInt8 :=
  putUint64 o.id ++ putUint32 o.symbolID ++ [o.type] ++ [o.side] ++ putUint64 o.price ++
    putUint64 o.stopPrice ++ putUint64 o.quantity ++ putUint64 o.executedQuantity ++
    putUint64 o.leavesQuantity ++ [o.timeInForce] ++ putUint64 o.maxVisibleQuantity ++
    putUint64 o.slippage ++ putUint64 (uint64OfInt64 o.trailingDistance) ++
    putUint64 (uint64OfInt64 o.trailingStep)

/-- The order read from its offsets.
Source: `persistence.go` `unmarshalOrder`
Kind: D
Fidelity: exact on buffers of at least `orderWireSize` bytes, the only ones it is given -/
def unmarshalOrder (buf : List UInt8) : Order where
  id := uint64 (slice buf 0 8)
  symbolID := uint32 (slice buf 8 12)
  type := buf.getD 12 0
  side := buf.getD 13 0
  price := uint64 (slice buf 14 22)
  stopPrice := uint64 (slice buf 22 30)
  quantity := uint64 (slice buf 30 38)
  executedQuantity := uint64 (slice buf 38 46)
  leavesQuantity := uint64 (slice buf 46 54)
  timeInForce := buf.getD 54 0
  maxVisibleQuantity := uint64 (slice buf 55 63)
  slippage := uint64 (slice buf 63 71)
  trailingDistance := int64OfUint64 (uint64 (slice buf 71 79))
  trailingStep := int64OfUint64 (uint64 (slice buf 79 87))

@[simp] theorem length_marshalOrder (o : Order) : (marshalOrder o).length = orderWireSize := by
  simp [marshalOrder, orderWireSize]

/-- Decoding an encoded order gives the order back: every field, the sign
bits of the `int64` fields and every enum byte included. Source: none. Kind: L -/
theorem unmarshalOrder_marshalOrder (o : Order) : unmarshalOrder (marshalOrder o) = o := by
  simp only [unmarshalOrder, marshalOrder, List.append_assoc, slice_append_of_le,
    getD_append_of_le, length_putUint64, length_putUint32, List.length_singleton, Nat.reduceLeDiff,
    Nat.reduceSub, Nat.le_refl, Nat.sub_self, slice_zero_append, slice_zero_of_length,
    getD_singleton_append,
    uint64_putUint64, uint32_putUint32, int64OfUint64_uint64OfInt64]

/-- Encoding the order decoded from 87 bytes gives the bytes back. Source: none. Kind: L -/
theorem marshalOrder_unmarshalOrder {b : List UInt8} (h : b.length = orderWireSize) :
    marshalOrder (unmarshalOrder b) = b := by
  simp only [orderWireSize] at h
  simp only [marshalOrder, unmarshalOrder, uint64OfInt64_int64OfUint64, h, putUint64_uint64_slice,
    putUint32_uint32_slice, singleton_getD_eq_slice, Nat.reduceAdd, Nat.reduceLeDiff, Nat.reduceLT,
    slice_append_slice]
  exact slice_zero_of_length h

/-! ## Records -/

/-- The error `encodeEvent` returns.
Source: `persistence.go` `encodeEvent` (`fmt.Errorf("persistence: unknown EventType %d", ...)`)
Kind: D -/
inductive EncodeError where
  | unknownEventType (type : EventType)
deriving DecidableEq, Repr

/-- The length-prefixed record of an event: the payload's length, the type byte, the timestamp's
bits, then the order (`EventNewOrder`) or the order ID (`EventCancelOrder`).
Source: `persistence.go` `encodeEvent`
Kind: D
Fidelity: exact; the second `switch` has no default because the first has returned on every
other type, and its two payloads fill the record `make` allocated -/
def encodeEvent (e : MatchingEvent) : Except EncodeError (List UInt8) := do
  let payloadSize ←
    if e.type = eventNewOrder then pure (1 + 8 + orderWireSize)
    else if e.type = eventCancelOrder then pure (1 + 8 + 8)
    else throw (.unknownEventType e.type)
  let payload := if e.type = eventNewOrder then marshalOrder e.order else putUint64 e.orderID
  pure (putUint32 (UInt32.ofNat payloadSize) ++ [e.type] ++ putUint64 (uint64OfInt64 e.timestamp) ++
    payload)

/-- The errors `decodeEvent` returns. `read` is `io.ReadFull`'s own error, returned as is;
`readingPayload` wraps it with `%w`, which makes a new error value.
Source: `persistence.go` `decodeEvent`
Kind: D -/
inductive DecodeError where
  | read (err : ReadError)
  | invalidRecordLength (len : UInt32)
  | readingPayload (err : ReadError)
  | shortNewOrder (len : Nat)
  | shortCancelOrder (len : Nat)
  | unknownEventType (type : EventType)
deriving DecidableEq, Repr

/-- One record read from the stream: the event and the rest of the stream.
Source: `persistence.go` `decodeEvent`
Kind: D
Fidelity: exact; `payload[0]` cannot panic, the payload having at least 9 bytes -/
def decodeEvent (r : List UInt8) : Except DecodeError (MatchingEvent × List UInt8) := do
  let (lenBuf, r) ← (readFull 4 r).mapError .read
  let payloadLen := uint32 lenBuf
  if payloadLen < 9 then throw (.invalidRecordLength payloadLen) else
  let (payload, r) ← (readFull payloadLen.toNat r).mapError .readingPayload
  let e : MatchingEvent :=
    ⟨payload.getD 0 0, int64OfUint64 (uint64 (slice payload 1 9)), default, 0⟩
  if e.type = eventNewOrder then
    if payload.length < 9 + orderWireSize then throw (.shortNewOrder payload.length)
    else pure ({ e with order := unmarshalOrder (payload.drop 9) }, r)
  else if e.type = eventCancelOrder then
    if payload.length < 17 then throw (.shortCancelOrder payload.length)
    else pure ({ e with orderID := uint64 (slice payload 9 17) }, r)
  else throw (.unknownEventType e.type)

/-- What a record keeps of an event: the field its type does not use is zeroed. Source: none.
Kind: D -/
def MatchingEvent.recorded (e : MatchingEvent) : MatchingEvent :=
  if e.type = eventNewOrder then { e with orderID := 0 } else { e with order := default }

/-- The event types `encodeEvent` accepts. Source: `persistence.go` `encodeEvent`. Kind: D -/
def MatchingEvent.Known (e : MatchingEvent) : Prop :=
  e.type = eventNewOrder ∨ e.type = eventCancelOrder

instance (e : MatchingEvent) : Decidable e.Known := inferInstanceAs (Decidable (_ ∨ _))

/-! ## Round trip of a record -/

theorem encodeEvent_of_newOrder {e : MatchingEvent} (h : e.type = eventNewOrder) :
    encodeEvent e = .ok (putUint32 96 ++
      ([e.type] ++ putUint64 (uint64OfInt64 e.timestamp) ++ marshalOrder e.order)) := by
  simp [encodeEvent, h, orderWireSize]
  rfl

theorem encodeEvent_of_cancelOrder {e : MatchingEvent} (h : e.type = eventCancelOrder) :
    encodeEvent e = .ok (putUint32 17 ++
      ([e.type] ++ putUint64 (uint64OfInt64 e.timestamp) ++ putUint64 e.orderID)) := by
  simp [encodeEvent, h, eventCancelOrder, eventNewOrder]
  rfl

theorem encodeEvent_of_not_known {e : MatchingEvent} (h : ¬ e.Known) :
    encodeEvent e = .error (.unknownEventType e.type) := by
  simp only [MatchingEvent.Known, not_or] at h
  simp [encodeEvent, h]
  rfl

/-- A new-order record in front of any rest decodes to its event and leaves the rest.
Source: none. Kind: L -/
theorem decodeEvent_newOrder (ts : Int64) (o : Order) (rest : List UInt8) :
    decodeEvent (putUint32 96 ++
        (([eventNewOrder] ++ putUint64 (uint64OfInt64 ts) ++ marshalOrder o) ++ rest)) =
      .ok (⟨eventNewOrder, ts, o, 0⟩, rest) := by
  have hp : ([eventNewOrder] ++ putUint64 (uint64OfInt64 ts) ++ marshalOrder o).length =
      (96 : UInt32).toNat :=
    show _ = 96 by simp [orderWireSize]
  have h96 : ¬ (96 : UInt32) < 9 := by decide
  simp only [decodeEvent, readFull_append (length_putUint32 _), except_mapError_ok, except_ok_bind,
    uint32_putUint32, h96, if_false, readFull_append hp]
  simp only [List.append_assoc, getD_singleton_append, if_true, List.length_append,
    List.length_singleton, length_putUint64, length_marshalOrder, orderWireSize, Nat.reduceAdd,
    Nat.lt_irrefl, if_false, slice_append_of_le, Nat.reduceLeDiff, Nat.reduceSub, slice_zero_append,
    uint64_putUint64, int64OfUint64_uint64OfInt64, drop_append_of_le, List.drop_zero,
    unmarshalOrder_marshalOrder]
  rfl

/-- A cancel record in front of any rest decodes to its event and leaves the rest.
Source: none. Kind: L -/
theorem decodeEvent_cancelOrder (ts : Int64) (id : UInt64) (rest : List UInt8) :
    decodeEvent (putUint32 17 ++
        (([eventCancelOrder] ++ putUint64 (uint64OfInt64 ts) ++ putUint64 id) ++ rest)) =
      .ok (⟨eventCancelOrder, ts, default, id⟩, rest) := by
  have hp : ([eventCancelOrder] ++ putUint64 (uint64OfInt64 ts) ++ putUint64 id).length =
      (17 : UInt32).toNat :=
    show _ = 17 by simp
  have h17 : ¬ (17 : UInt32) < 9 := by decide
  have hne : eventCancelOrder ≠ eventNewOrder := by decide
  simp only [decodeEvent, readFull_append (length_putUint32 _), except_mapError_ok, except_ok_bind,
    uint32_putUint32, h17, if_false, readFull_append hp]
  simp only [List.append_assoc, getD_singleton_append, hne, if_true, if_false, List.length_append,
    List.length_singleton, length_putUint64, Nat.reduceAdd, Nat.lt_irrefl, slice_append_of_le,
    Nat.reduceLeDiff, Nat.reduceSub, slice_zero_append, slice_zero_of_length, uint64_putUint64,
    int64OfUint64_uint64OfInt64]
  rfl

theorem MatchingEvent.encodeEvent_ok {e : MatchingEvent} (h : e.Known) :
    ∃ record, encodeEvent e = .ok record := by
  rcases h with hn | hc
  · exact ⟨_, encodeEvent_of_newOrder hn⟩
  · exact ⟨_, encodeEvent_of_cancelOrder hc⟩

theorem MatchingEvent.known_of_encodeEvent {e : MatchingEvent} {record : List UInt8}
    (h : encodeEvent e = .ok record) : e.Known := by
  by_contra hk
  rw [encodeEvent_of_not_known hk] at h
  cases h

/-- Decoding a record in front of any rest of the stream gives its event back, with the field
its type does not use zeroed, and leaves the rest. Source: none. Kind: L -/
theorem decodeEvent_encodeEvent {e : MatchingEvent} {record : List UInt8}
    (h : encodeEvent e = .ok record) (rest : List UInt8) :
    decodeEvent (record ++ rest) = .ok (e.recorded, rest) := by
  rcases e.known_of_encodeEvent h with hn | hc
  · rw [encodeEvent_of_newOrder hn] at h
    cases h
    rw [List.append_assoc (putUint32 96), hn, decodeEvent_newOrder, MatchingEvent.recorded, if_pos hn]
    cases e
    cases hn
    rfl
  · have hn : e.type ≠ eventNewOrder := by rw [hc]; decide
    rw [encodeEvent_of_cancelOrder hc] at h
    cases h
    rw [List.append_assoc (putUint32 17), hc, decodeEvent_cancelOrder, MatchingEvent.recorded,
      if_neg hn]
    cases e
    cases hc
    rfl

/-! ## Cut records -/

/-- Every record is a length word of at least 9 and a payload of that many bytes.
Source: none. Kind: L -/
theorem encodeEvent_frame {e : MatchingEvent} {record : List UInt8}
    (h : encodeEvent e = .ok record) :
    ∃ n payload, record = putUint32 n ++ payload ∧ payload.length = n.toNat ∧ ¬ n < 9 := by
  rcases e.known_of_encodeEvent h with hn | hc
  · rw [encodeEvent_of_newOrder hn] at h
    cases h
    exact ⟨96, _, rfl, show _ = 96 by simp [orderWireSize], by decide⟩
  · rw [encodeEvent_of_cancelOrder hc] at h
    cases h
    exact ⟨17, _, rfl, show _ = 17 by simp, by decide⟩

/-- The first `k` bytes of a record, `k` short of the whole: within the length word
`decodeEvent` returns `io.ReadFull`'s own error; past it, the payload read's error wrapped as
`readingPayload`. Source: none. Kind: L -/
theorem decodeEvent_take {n : UInt32} {payload : List UInt8} (hn : ¬ n < 9)
    (hl : payload.length = n.toNat) {k : Nat} (hk : k < 4 + payload.length) :
    decodeEvent ((putUint32 n ++ payload).take k) =
      .error (if k < 4 then .read (if k = 0 then .eof else .unexpectedEOF)
        else .readingPayload (if k = 4 then .eof else .unexpectedEOF)) := by
  by_cases h4 : k < 4
  · have hshort : ((putUint32 n ++ payload).take k).length < 4 := by simp; omega
    simp only [decodeEvent, readFull_of_length_lt hshort, except_mapError_error, except_error_bind,
      if_pos h4]
    simp
  · have hcut : (putUint32 n ++ payload).take k = putUint32 n ++ payload.take (k - 4) := by
      rw [List.take_append_eq_append_take, List.take_of_length_le (by simp; omega),
        length_putUint32]
    have hlen : (payload.take (k - 4)).length = k - 4 := by simp; omega
    have hshort : (payload.take (k - 4)).length < n.toNat := by omega
    have hzero : k - 4 = 0 ↔ k = 4 := by omega
    rw [hcut, ← List.append_nil (payload.take (k - 4))]
    simp only [decodeEvent, readFull_append (length_putUint32 n), except_mapError_ok, except_ok_bind,
      uint32_putUint32, hn, if_false, List.append_nil, readFull_of_length_lt hshort,
      except_mapError_error, except_error_bind, if_neg h4, hlen, hzero]

/-! ## The journal file -/

/-- The journal file after `Append` of each event in turn: `Append` writes the record, or
nothing when `encodeEvent` fails.
Source: `journal.go` `Append`
Kind: D
Fidelity: the file once flushed; the buffering of `bufio.Writer` and IO errors are not
modelled -/
def appendAll (es : List MatchingEvent) : List UInt8 :=
  es.flatMap fun e => match encodeEvent e with
    | .ok record => record
    | .error _ => []

/-- `err == io.EOF || err == io.ErrUnexpectedEOF`: `io.ReadFull`'s own errors, not one that
`decodeEvent` wrapped with `%w`.
Source: `journal.go` `ReadAll`
Kind: D -/
def DecodeError.isEOF : DecodeError → Bool
  | .read .eof | .read .unexpectedEOF => true
  | _ => false

/-- `ReadAll`'s loop: decode records until `decodeEvent` fails, then stop with no error if it
failed with `io.EOF` or `io.ErrUnexpectedEOF`, with the error otherwise. `fuel` bounds the
iterations.
Source: `journal.go` `ReadAll` (`for { e, err := decodeEvent(r) ... }`)
Kind: D
Fidelity: exact when `fuel` exceeds the number of records, as `readAll` gives it -/
def readRecords : Nat → List UInt8 → List MatchingEvent × Option DecodeError
  | 0, _ => ([], none)
  | fuel + 1, r =>
    match decodeEvent r with
    | .ok (e, r) => (readRecords fuel r).map (e :: ·) id
    | .error err => ([], if err.isEOF then none else some err)

/-- The events and the error `ReadAll` returns for a journal file's bytes. Each record takes at
least 13 bytes, so `length + 1` iterations are more than the loop makes.
Source: `journal.go` `ReadAll`
Kind: D
Fidelity: exact on the file's bytes (a missing file gives no events and no error) -/
def readAll (file : List UInt8) : List MatchingEvent × Option DecodeError :=
  readRecords (file.length + 1) file

theorem appendAll_cons {e : MatchingEvent} {record : List UInt8} (h : encodeEvent e = .ok record)
    (es : List MatchingEvent) : appendAll (e :: es) = record ++ appendAll es := by
  simp [appendAll, h]

theorem length_le_appendAll {es : List MatchingEvent} (hk : ∀ e ∈ es, e.Known) :
    es.length ≤ (appendAll es).length := by
  induction es with
  | nil => simp
  | cons e es ih =>
    obtain ⟨record, hr⟩ := e.encodeEvent_ok (hk e (List.mem_cons_self _ _))
    obtain ⟨n, payload, rfl, -, -⟩ := encodeEvent_frame hr
    have := ih fun e he => hk e (List.mem_cons_of_mem _ he)
    simp only [appendAll_cons hr, List.length_append, length_putUint32, List.length_cons]
    omega

theorem readRecords_of_decodeEvent_error {r : List UInt8} {err : DecodeError}
    (h : decodeEvent r = .error err) (fuel : Nat) :
    readRecords (fuel + 1) r = ([], if err.isEOF then none else some err) := by
  simp [readRecords, h]

/-- Over a file of records of known types, `ReadAll`'s loop returns each record's event in
turn and then goes on with what follows them. Source: none. Kind: L -/
theorem readRecords_appendAll {es : List MatchingEvent} (hk : ∀ e ∈ es, e.Known)
    (t : List UInt8) {fuel : Nat} (hf : es.length < fuel) :
    readRecords fuel (appendAll es ++ t) =
      (readRecords (fuel - es.length) t).map (es.map MatchingEvent.recorded ++ ·) id := by
  induction es generalizing fuel with
  | nil =>
    simp only [appendAll, List.flatMap_nil, List.nil_append, List.map_nil, List.length_nil,
      Nat.sub_zero]
    cases readRecords fuel t
    rfl
  | cons e es ih =>
    obtain ⟨fuel, rfl⟩ : ∃ f, fuel = f + 1 := ⟨fuel - 1, by simp at hf; omega⟩
    obtain ⟨record, hr⟩ := e.encodeEvent_ok (hk e (List.mem_cons_self _ _))
    have hstep := decodeEvent_encodeEvent hr (appendAll es ++ t)
    rw [appendAll_cons hr, List.append_assoc, readRecords, hstep]
    simp only [@ih (fun e he => hk e (List.mem_cons_of_mem _ he)) fuel (by simp at hf; omega),
      Prod.map_map, List.length_cons, Nat.add_sub_add_right]
    rfl

theorem readAll_appendAll_append {es : List MatchingEvent} (hk : ∀ e ∈ es, e.Known)
    (t : List UInt8) :
    ∃ fuel, readAll (appendAll es ++ t) =
      (readRecords (fuel + 1) t).map (es.map MatchingEvent.recorded ++ ·) id := by
  have := length_le_appendAll hk
  refine ⟨(appendAll es ++ t).length - es.length, ?_⟩
  rw [readAll, readRecords_appendAll hk t (by simp; omega)]
  congr 3
  simp
  omega

/-! ## The journal read back -/

/-- The journal codec's round trip: `ReadAll` of the records of events of known types returns
the events, each with the field its type does not use zeroed, and no error; each record
decodes in front of any rest and leaves the rest; an empty stream is `io.EOF`; and the order
layout is a bijection between orders and 87-byte strings.
Source: `persistence.go` `marshalOrder`, `unmarshalOrder`, `encodeEvent`, `decodeEvent`;
`journal.go` `ReadAll`
Kind: P -/
theorem journal_codec_round_trip :
    (∀ es : List MatchingEvent, (∀ e ∈ es, e.Known) →
      readAll (appendAll es) = (es.map MatchingEvent.recorded, none)) ∧
    (∀ (e : MatchingEvent) (record rest : List UInt8), encodeEvent e = .ok record →
      decodeEvent (record ++ rest) = .ok (e.recorded, rest)) ∧
    decodeEvent [] = .error (.read .eof) ∧
    (∀ o : Order, unmarshalOrder (marshalOrder o) = o) ∧
    (∀ b : List UInt8, b.length = orderWireSize → marshalOrder (unmarshalOrder b) = b) := by
  refine ⟨fun es hk => ?_, fun _ _ rest h => decodeEvent_encodeEvent h rest, rfl,
    unmarshalOrder_marshalOrder, fun _ => marshalOrder_unmarshalOrder⟩
  obtain ⟨fuel, h⟩ := readAll_appendAll_append hk []
  have heof : decodeEvent [] = .error (.read .eof) := rfl
  rw [← List.append_nil (appendAll es), h, readRecords_of_decodeEvent_error heof]
  simp [DecodeError.isEOF]

/-- An order whose signed fields are negative and whose side byte is out of range.
Source: none: an order for the witnesses
Kind: D -/
def edgeOrder : Order :=
  { newLimitOrder 9 2 orderSideSell 12 4 with side := 7, trailingDistance := -1,
                                               trailingStep := -(2 ^ 63) }

/-- A new order stamped before the epoch, then its cancel. Source: none. Kind: D -/
def edgeEvents : List MatchingEvent :=
  [⟨eventNewOrder, -5, edgeOrder, 0⟩, ⟨eventCancelOrder, 6, default, 9⟩]

/-- The round trip at the edges: the two events read back, the cancel's record decodes in front
of a stray byte, and 87 bytes of `0xFF` survive `unmarshalOrder` then `marshalOrder`. -/
theorem edgeEvents_round_trip :
    (∀ e ∈ edgeEvents, e.Known) ∧
    readAll (appendAll edgeEvents) = (edgeEvents.map MatchingEvent.recorded, none) ∧
    (∃ record, encodeEvent ⟨eventCancelOrder, 6, default, 9⟩ = .ok record ∧
      decodeEvent (record ++ [255]) =
        .ok ((⟨eventCancelOrder, 6, default, 9⟩ : MatchingEvent).recorded, [255])) ∧
    (List.replicate 87 (255 : UInt8)).length = orderWireSize ∧
    marshalOrder (unmarshalOrder (List.replicate 87 255)) = List.replicate 87 255 :=
  have hk : ∀ e ∈ edgeEvents, e.Known := by decide
  have hl : (List.replicate 87 (255 : UInt8)).length = orderWireSize := rfl
  ⟨hk, journal_codec_round_trip.1 _ hk, ⟨_, rfl, journal_codec_round_trip.2.1 _ _ _ rfl⟩, hl,
    journal_codec_round_trip.2.2.2.2 _ hl⟩

/-- `ReadAll` of records of known types followed by the first `k` bytes of one more record,
`k` short of the whole: the events of the whole records, and no error only when the cut is
inside the length word. A cut in the payload makes `decodeEvent` wrap `io.ReadFull`'s error
with `%w`, which `ReadAll`'s comparisons with `io.EOF` and `io.ErrUnexpectedEOF` do not match.
Source: `journal.go` `ReadAll`; `persistence.go` `decodeEvent`
Kind: P -/
theorem readAll_truncated_record {es : List MatchingEvent} (hk : ∀ e ∈ es, e.Known)
    {e : MatchingEvent} {record : List UInt8} (hr : encodeEvent e = .ok record) {k : Nat}
    (hkl : k < record.length) :
    readAll (appendAll es ++ record.take k) =
      (es.map MatchingEvent.recorded,
        if k < 4 then none else some (.readingPayload (if k = 4 then .eof else .unexpectedEOF))) := by
  obtain ⟨n, payload, rfl, hl, hn⟩ := encodeEvent_frame hr
  obtain ⟨fuel, h⟩ := readAll_appendAll_append hk ((putUint32 n ++ payload).take k)
  rw [h, readRecords_of_decodeEvent_error (decodeEvent_take hn hl (by simpa using hkl))]
  by_cases h4 : k < 4 <;> by_cases h0 : k = 0 <;> simp [h4, h0, DecodeError.isEOF]

/-- A cancel record cut after 10 of its 21 bytes: `ReadAll` fails with the wrapped
`io.ErrUnexpectedEOF`. -/
theorem readAll_cancel_record_cut :
    (∀ e ∈ ([] : List MatchingEvent), e.Known) ∧ 10 < 21 ∧
    readAll (appendAll [] ++ (putUint32 17 ++
        ([eventCancelOrder] ++ putUint64 (uint64OfInt64 1) ++ putUint64 7)).take 10) =
      ([], some (.readingPayload .unexpectedEOF)) :=
  ⟨by simp, by decide, by
    simpa using readAll_truncated_record (by simp)
      (encodeEvent_of_cancelOrder (e := ⟨eventCancelOrder, 1, default, 7⟩) rfl)
      (k := 10) (by simp)⟩

end GoTrader.Persistence
