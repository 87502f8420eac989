import GoTrader.Persistence.Journal

/-!
# The snapshot file

`snapshot.go`'s `writeSnapshot` and `readSnapshot`, on the bytes inside the zstd frame that
`Save` writes and `LoadLatest` opens:

* `writeSnapshot` — the magic, the timestamp's bits, the symbols (ID, a length byte, the name cut
  to 255 bytes) and the orders in the 87-byte layout of `marshalOrder`, each list after its
  `uint32` count;
* `readSnapshot` — the reader, with one error per `fmt.Errorf` of the source; its two loops are
  `readMany` of the loop bodies `readSymbol` and `readOrder`;
* `readMany_flatMap` — a counted run of items reads back when each item does;
* `snapshot_codec_round_trip` — reading back what was written gives the snapshot, when every
  name has at most 255 bytes and there are fewer than `2 ^ 32` symbols and orders; and every
  byte string that does not start with the magic is rejected.

Writes to the `io.Writer` and the zstd frame are not modelled: the file is the bytes written.
-/

namespace GoTrader.Persistence

open GoTrader.Matching

/-! ## Writing -/

/-- `'G', 'T', 'S', 'N', 'A', 'P', 0, 1`. Source: `snapshot.go` `snapshotMagic`. Kind: D -/
def snapshotMagic : List UInt8 := [71, 84, 83, 78, 65, 80, 0, 1]

/-- One symbol: its ID, the length of its name cut to 255 bytes, and those bytes.
Source: `snapshot.go` `writeSnapshot` (the `for _, sym := range snap.Symbols` body)
Kind: D
Fidelity: exact -/
def writeSymbol (sym : Symbol) : List UInt8 :=
  let name := if sym.name.length > 255 then sym.name.take 255 else sym.name
  putUint32 sym.id ++ [UInt8.ofNat name.length] ++ (if name.length > 0 then name else [])

/-- The bytes of a snapshot.
Source: `snapshot.go` `writeSnapshot`
Kind: D
Fidelity: exact, without the writer's IO errors; the counts are `uint32(len(...))` -/
def writeSnapshot (snap : Snapshot) : List UInt8 :=
  snapshotMagic ++ putUint64 (uint64OfInt64 snap.timestamp) ++
    putUint32 (UInt32.ofNat snap.symbols.length) ++ snap.symbols.flatMap writeSymbol ++
    putUint32 (UInt32.ofNat snap.orders.length) ++ snap.orders.flatMap marshalOrder

/-! ## Reading -/

/-- The errors `readSnapshot` returns; all but `invalidMagic` wrap `io.ReadFull`'s error.
Source: `snapshot.go` `readSnapshot` (`fmt.Errorf("persistence: reading snapshot magic: %w", ...)`
and the rest)
Kind: D -/
inductive SnapshotError where
  | readingMagic (err : ReadError)
  | invalidMagic
  | readingTimestamp (err : ReadError)
  | readingSymbolCount (err : ReadError)
  | readingSymbolID (err : ReadError)
  | readingSymbolNameLength (err : ReadError)
  | readingSymbolName (err : ReadError)
  | readingOrderCount (err : ReadError)
  | readingOrder (err : ReadError)
deriving DecidableEq, Repr

/-- `count` items read by `item` in turn, stopping at the first error.
Source: `snapshot.go` `readSnapshot` (`for i := uint32(0); i < symCount; i++`, and the same loop
over `orderCount`)
Kind: D
Fidelity: exact -/
def readMany {α : Type} (item : List UInt8 → Except SnapshotError (α × List UInt8)) :
    Nat → List UInt8 → Except SnapshotError (List α × List UInt8)
  | 0, r => .ok ([], r)
  | count + 1, r => do
    let (x, r) ← item r
    let (xs, r) ← readMany item count r
    pure (x :: xs, r)

/-- One symbol: its ID, its name's length byte and, when that is not 0, the name.
Source: `snapshot.go` `readSnapshot` (the body of the symbol loop)
Kind: D
Fidelity: exact -/
def readSymbol (r : List UInt8) : Except SnapshotError (Symbol × List UInt8) := do
  let (buf4, r) ← (readFull 4 r).mapError .readingSymbolID
  let id := uint32 buf4
  let (lenBuf, r) ← (readFull 1 r).mapError .readingSymbolNameLength
  let nameLen := (lenBuf.getD 0 0).toNat
  let (nameBuf, r) ←
    if nameLen > 0 then (readFull nameLen r).mapError .readingSymbolName else pure ([], r)
  pure (⟨id, nameBuf⟩, r)

/-- One order in the 87-byte layout.
Source: `snapshot.go` `readSnapshot` (the body of the order loop)
Kind: D
Fidelity: exact -/
def readOrder (r : List UInt8) : Except SnapshotError (Order × List UInt8) := do
  let (orderBuf, r) ← (readFull orderWireSize r).mapError .readingOrder
  pure (unmarshalOrder orderBuf, r)

/-- A snapshot read from the stream; what follows the last order is not read.
Source: `snapshot.go` `readSnapshot`
Kind: D
Fidelity: exact -/
def readSnapshot (r : List UInt8) : Except SnapshotError Snapshot := do
  let (magic, r) ← (readFull 8 r).mapError .readingMagic
  if magic ≠ snapshotMagic then throw .invalidMagic else
  let (buf8, r) ← (readFull 8 r).mapError .readingTimestamp
  let timestamp := int64OfUint64 (uint64 buf8)
  let (buf4, r) ← (readFull 4 r).mapError .readingSymbolCount
  let (symbols, r) ← readMany readSymbol (uint32 buf4).toNat r
  let (buf4, r) ← (readFull 4 r).mapError .readingOrderCount
  let (orders, _) ← readMany readOrder (uint32 buf4).toNat r
  pure ⟨timestamp, symbols, orders⟩

/-! ## Reading back -/

/-- A counted run of items reads back when each item does, in front of any rest.
Source: none. Kind: L -/
theorem readMany_flatMap {α : Type} {item : List UInt8 → Except SnapshotError (α × List UInt8)}
    {encode : α → List UInt8} {xs : List α}
    (h : ∀ x ∈ xs, ∀ rest, item (encode x ++ rest) = .ok (x, rest)) (rest : List UInt8) :
    readMany item xs.length (xs.flatMap encode ++ rest) = .ok (xs, rest) := by
  induction xs with
  | nil => rfl
  | cons x xs ih =>
    rw [List.length_cons, readMany, List.flatMap_cons, List.append_assoc,
      h x (List.mem_cons_self _ _), except_ok_bind]
    simp only [ih fun y hy => h y (List.mem_cons_of_mem _ hy), except_ok_bind]
    rfl

theorem readOrder_marshalOrder (o : Order) (rest : List UInt8) :
    readOrder (marshalOrder o ++ rest) = .ok (o, rest) := by
  simp only [readOrder, readFull_append (length_marshalOrder o), except_mapError_ok, except_ok_bind,
    unmarshalOrder_marshalOrder]
  rfl

/-- A symbol whose name fits the length byte reads back, the empty name included.
Source: none. Kind: L -/
theorem readSymbol_writeSymbol {sym : Symbol} (h : sym.name.length ≤ 255) (rest : List UInt8) :
    readSymbol (writeSymbol sym ++ rest) = .ok (sym, rest) := by
  have hlen : (UInt8.ofNat sym.name.length).toNat = sym.name.length :=
    UInt8.toNat_ofNat_of_lt (by simp [UInt8.size]; omega)
  have hw : writeSymbol sym ++ rest = putUint32 sym.id ++ ([UInt8.ofNat sym.name.length] ++
      ((if sym.name.length > 0 then sym.name else []) ++ rest)) := by
    simp only [writeSymbol, if_neg (Nat.not_lt_of_le h), List.append_assoc]
  rw [hw]
  simp only [readSymbol, readFull_append (length_putUint32 _), except_mapError_ok, except_ok_bind,
    uint32_putUint32, readFull_append (List.length_singleton _), List.getD_cons_zero, hlen]
  by_cases hpos : sym.name.length > 0
  · simp only [if_pos hpos, readFull_append rfl, except_mapError_ok, except_ok_bind]
    rfl
  · have hnil : sym.name = [] := List.eq_nil_of_length_eq_zero (by omega)
    simp only [if_neg hpos, List.nil_append]
    cases sym
    cases hnil
    rfl

theorem toNat_uint32_putUint32_ofNat {n : Nat} (h : n < 2 ^ 32) :
    (uint32 (putUint32 (UInt32.ofNat n))).toNat = n := by
  rw [uint32_putUint32, UInt32.toNat_ofNat_of_lt h]

/-- The bytes written for a snapshot read back as the snapshot, whatever follows them, when its
names fit their length byte and its counts fit 32 bits. Source: none. Kind: L -/
theorem readSnapshot_writeSnapshot {s : Snapshot} (hn : ∀ sym ∈ s.symbols, sym.name.length ≤ 255)
    (hs : s.symbols.length < 2 ^ 32) (ho : s.orders.length < 2 ^ 32) (rest : List UInt8) :
    readSnapshot (writeSnapshot s ++ rest) = .ok s := by
  have hsym := readMany_flatMap (fun sym hsym rest => readSymbol_writeSymbol (hn sym hsym) rest)
    (putUint32 (UInt32.ofNat s.orders.length) ++ (s.orders.flatMap marshalOrder ++ rest))
  have hord : readMany readOrder s.orders.length (s.orders.flatMap marshalOrder ++ rest) =
      .ok (s.orders, rest) :=
    readMany_flatMap (fun o _ rest => readOrder_marshalOrder o rest) rest
  have hmagic : snapshotMagic.length = 8 := rfl
  simp only [writeSnapshot, List.append_assoc, readSnapshot, readFull_append hmagic,
    except_mapError_ok, except_ok_bind, ne_eq, not_true_eq_false, if_false,
    readFull_append (length_putUint64 _), readFull_append (length_putUint32 _),
    toNat_uint32_putUint32_ofNat hs, toNat_uint32_putUint32_ofNat ho, hsym, hord, uint64_putUint64,
    int64OfUint64_uint64OfInt64]
  rfl

/-- A byte string that does not start with the magic is rejected: with the wrapped `io.EOF` or
`io.ErrUnexpectedEOF` when it is shorter than the magic, with `invalidMagic` otherwise.
Source: none. Kind: L -/
theorem readSnapshot_of_take_ne {b : List UInt8} (h : b.take 8 ≠ snapshotMagic) :
    readSnapshot b = .error (if b.length < 8 then
      .readingMagic (if b.length = 0 then .eof else .unexpectedEOF) else .invalidMagic) := by
  by_cases h8 : b.length < 8
  · simp only [readSnapshot, readFull_of_length_lt h8, except_mapError_error, except_error_bind,
      if_pos h8]
  · have hb : (b.take 8).length = 8 := by simp; omega
    rw [if_neg h8, ← List.take_append_drop 8 b]
    simp only [readSnapshot, readFull_append hb, except_mapError_ok, except_ok_bind, ne_eq, h,
      not_false_eq_true, if_true]
    rfl

/-- The snapshot codec: `readSnapshot` of what `writeSnapshot` wrote is the snapshot, when every
name has at most 255 bytes and there are fewer than `2 ^ 32` symbols and orders; and every byte
string whose first 8 bytes are not the magic is rejected.
Source: `snapshot.go` `writeSnapshot`, `readSnapshot`, `snapshotMagic`
Kind: P -/
theorem snapshot_codec_round_trip :
    (∀ s : Snapshot, (∀ sym ∈ s.symbols, sym.name.length ≤ 255) → s.symbols.length < 2 ^ 32 →
      s.orders.length < 2 ^ 32 → readSnapshot (writeSnapshot s) = .ok s) ∧
    (∀ b : List UInt8, b.take 8 ≠ snapshotMagic →
      readSnapshot b = .error (if b.length < 8 then
        .readingMagic (if b.length = 0 then .eof else .unexpectedEOF) else .invalidMagic)) :=
  ⟨fun s hn hs ho => by simpa using readSnapshot_writeSnapshot hn hs ho [],
    fun _ => readSnapshot_of_take_ne⟩

/-- A snapshot stamped before the epoch with an empty name and a name of 255 bytes, and the
edge order. Source: none: a snapshot for the witness. Kind: D -/
def edgeSnapshot : Snapshot := ⟨-1, [⟨1, []⟩, ⟨2, List.replicate 255 0xC3⟩], [edgeOrder]⟩

/-- The edge snapshot reads back; nine bytes that do not start with the magic are rejected. -/
theorem edgeSnapshot_round_trip :
    (∀ sym ∈ edgeSnapshot.symbols, sym.name.length ≤ 255) ∧ edgeSnapshot.symbols.length < 2 ^ 32 ∧
      edgeSnapshot.orders.length < 2 ^ 32 ∧
      readSnapshot (writeSnapshot edgeSnapshot) = .ok edgeSnapshot ∧
    [71, 84, 83, 78, 65, 80, 0, 2, 9].take 8 ≠ snapshotMagic ∧
      readSnapshot [71, 84, 83, 78, 65, 80, 0, 2, 9] = .error .invalidMagic :=
  have hn : ∀ sym ∈ edgeSnapshot.symbols, sym.name.length ≤ 255 := by
    simp only [edgeSnapshot, List.mem_cons, List.mem_singleton, List.not_mem_nil, or_false]
    rintro _ (rfl | rfl)
    · exact Nat.zero_le _
    · exact (List.length_replicate _ _).le
  have hm : [71, 84, 83, 78, 65, 80, 0, 2, 9].take 8 ≠ snapshotMagic := by decide
  ⟨hn, by decide, by decide, snapshot_codec_round_trip.1 _ hn (by decide) (by decide), hm,
    snapshot_codec_round_trip.2 _ hm⟩

end GoTrader.Persistence
