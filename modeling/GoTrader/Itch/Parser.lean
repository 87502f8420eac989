import Mathlib.Algebra.Order.Ring.Nat
import GoTrader.Itch.Messages

/-!
# The ITCH parser: one message, a buffer, a stream

`(*Parser).Parse`, `ParseAll` and `ParseReader` of `handler.go`, and what they do to well-formed
input.

* `decode` — what `Parse` does before it calls the handler: the bytes it consumes and the call
  it makes, or `ErrInsufficientData`; `parse` — `Parse` itself, the call made;
* `parseAll` — `ParseAll`'s loop, `parseReader` — `ParseReader`'s loop over a byte stream, each
  run with as many iterations as the input has bytes; `parseAllLoop_succ` and
  `parseReaderLoop_succ` — one more iteration changes nothing, so that is the loops' own result;
* `IsMessage` — a type byte of the protocol's table and exactly that type's size;
  `decode_append_of_isMessage` — a message followed by anything is decoded from its own bytes
  and consumes exactly them; `decode_of_short` — a proper non-empty cut of a message is
  `ErrInsufficientData`;
* `parseAll_messages` — `ParseAll` over whole messages followed by an empty or cut message makes
  one call per message, in order, each on the message's own bytes, and returns the total length,
  the count and `nil`;
* `frame`, `FrameOK` — a length-prefixed frame and the frames the stream reader is given;
  `parseReader_frames` — `ParseReader` over such frames makes one call per non-empty frame, in
  order, and counts `int64(2 + msgLen)` in `uint16` arithmetic per non-empty frame: nothing for
  a zero-length frame, whose two length bytes go uncounted, and `2 + L - 2 ^ 16` for
  `L ≥ 2 ^ 16 - 2`.

A handler is any `Handler σ`; that its calls are the ones listed is said through its state: it
ends in the state the calls, made in that order, leave it in.
-/

namespace GoTrader.Itch

open GoTrader.Persistence (beBytes beValue readFull ReadError)

variable {σ : Type}

/-! ## One message -/

/-- What `Parse` does before it calls the handler: `ErrInsufficientData` on no bytes, else the
method its `switch` picks for the type byte, or for an unknown type byte all the bytes consumed
and an `OnUnknownMessage` call.
Source: `handler.go` `(*Parser).Parse`
Kind: D
Fidelity: exact (the call itself is made by `parse`) -/
def decode (data : List UInt8) : Except Error (Nat × Call) :=
  match data with
  | [] => .error .insufficientData
  | msgType :: _ =>
    match decoderFor msgType with
    | some d => d.run data
    | none => .ok (data.length, .onUnknownMessage msgType data)

/-- `Parse`: the bytes consumed, the error, and the handler's new state.
Source: `handler.go` `(*Parser).Parse`
Kind: D
Fidelity: exact -/
def parse (h : Handler σ) (s : σ) (data : List UInt8) : (Nat × Option Error) × σ :=
  match decode data with
  | .error e => ((0, some e), s)
  | .ok (consumed, c) => let (s, err) := h.call s c; ((consumed, err), s)

/-- The call a whole message or frame `m` is for: the method of its type byte applied to the
fields decoded from `m`, or `OnUnknownMessage` for a byte that is no type (and, for no bytes at
all, a call no caller asks about).
Source: `handler.go` `(*Parser).Parse`
Kind: D -/
def callFor : List UInt8 → Call
  | [] => .onUnknownMessage 0 []
  | m@(msgType :: _) =>
    match decoderFor msgType with
    | some d => d.decode m
    | none => .onUnknownMessage msgType m

/-- A whole ITCH message: its first byte is a type byte of the protocol's table and it has
exactly that type's size.
Source: none: the protocol's message format
Kind: D -/
def IsMessage (m : List UInt8) : Prop := m.head?.bind itchSize = some m.length

instance (m : List UInt8) : Decidable (IsMessage m) := inferInstanceAs (Decidable (_ = _))

theorem decoderFor_of_itchSize {t : UInt8} {n : Nat} (h : itchSize t = some n) :
    ∃ d, decoderFor t = some d ∧ d.size = n := by
  rw [← decoderFor_size, Option.map_eq_some'] at h
  exact h

/-- A message followed by anything is decoded from its own bytes and consumes exactly them.
Source: `handler.go` `(*Parser).Parse`
Kind: L -/
theorem decode_append_of_isMessage {m : List UInt8} (hm : IsMessage m) (rest : List UInt8) :
    decode (m ++ rest) = .ok (m.length, callFor m) := by
  obtain _ | ⟨t, mt⟩ := m
  · cases hm
  · obtain ⟨d, hd, hsize⟩ := decoderFor_of_itchSize hm
    have hle : d.size ≤ (t :: mt).length := hsize.le
    simp only [decode, callFor, List.cons_append, hd, Decoder.run, List.length_cons,
      List.length_append]
    rw [if_neg (by simp only [List.length_cons] at hle; omega), hsize,
      ← d.decode_append hd hle rest]
    rfl

/-- A non-empty proper cut of a message is `ErrInsufficientData`.
Source: `handler.go` `(*Parser).parse*` (`len(data) < size`)
Kind: L -/
theorem decode_of_short {r m t : List UInt8} (hr : r ≠ []) (hm : IsMessage m) (hmr : m = r ++ t)
    (ht : t ≠ []) : decode r = .error .insufficientData := by
  obtain _ | ⟨b, rb⟩ := r
  · exact absurd rfl hr
  · subst hmr
    obtain ⟨d, hd, hsize⟩ := decoderFor_of_itchSize hm
    have : 0 < t.length := List.length_pos.2 ht
    simp only [decode, hd, Decoder.run, hsize, List.length_append, List.length_cons]
    rw [if_pos (by omega)]

/-- A frame given to `Parse` whole is decoded from its own bytes. Source: `handler.go`
`(*Parser).Parse`. Kind: L -/
theorem decode_of_frame {f : List UInt8} (hf : f ≠ [])
    (hok : (f.head?.bind itchSize).getD 0 ≤ f.length) : ∃ n, decode f = .ok (n, callFor f) := by
  obtain _ | ⟨t, ft⟩ := f
  · exact absurd rfl hf
  · cases hd : decoderFor t with
    | none => exact ⟨(t :: ft).length, by simp only [decode, callFor, hd]⟩
    | some d =>
      have hs : itchSize t = some d.size := by rw [← decoderFor_size, hd]; rfl
      simp only [List.head?_cons, Option.some_bind, hs, Option.getD_some] at hok
      exact ⟨d.size, by simp only [decode, callFor, hd, Decoder.run, if_neg (Nat.not_lt.2 hok)]⟩

/-- `Parse` consumes a whole message and makes its call. Source: `handler.go`
`(*Parser).Parse`. Kind: L -/
theorem parse_append_of_isMessage (h : Handler σ) (s : σ) {m : List UInt8} (hm : IsMessage m)
    (rest : List UInt8) :
    parse h s (m ++ rest) = ((m.length, (h.call s (callFor m)).2), (h.call s (callFor m)).1) := by
  simp only [parse, decode_append_of_isMessage hm]

/-! ## A buffer: `ParseAll` -/

/-- `ParseAll`'s loop from `data`, `totalConsumed` and `messageCount`, for at most `fuel`
iterations; a loop that runs out of fuel stops as if `data` were empty.
Source: `handler.go` `(*Parser).ParseAll`
Kind: D
Fidelity: exact with `fuel ≥ len(data)` (`parseAllLoop_succ`); `data[consumed:]` is
`data.drop consumed` (`Parse` never consumes more than it is given) -/
def parseAllLoop (h : Handler σ) :
    Nat → σ → List UInt8 → Nat → Nat → (Nat × Nat × Option Error) × σ
  | 0, s, _, total, count => ((total, count, none), s)
  | fuel + 1, s, data, total, count =>
    if data.length = 0 then ((total, count, none), s)
    else
      let ((consumed, err), s) := parse h s data
      match err with
      | some e => if e = .insufficientData then ((total, count, none), s)
        else ((total, count, some e), s)
      | none => if consumed = 0 then ((total, count, none), s)
        else parseAllLoop h fuel s (data.drop consumed) (total + consumed) (count + 1)

/-- `ParseAll`: the bytes consumed, the messages parsed, the error, and the handler's state.
Source: `handler.go` `(*Parser).ParseAll`
Kind: D
Fidelity: exact (the `int` counters never pass `len(data)`) -/
def parseAll (h : Handler σ) (s : σ) (data : List UInt8) : (Nat × Nat × Option Error) × σ :=
  parseAllLoop h data.length s data 0 0

/-- An iteration more than `data` has bytes changes nothing: each iteration that goes on
consumes a byte at least. Source: `handler.go` `(*Parser).ParseAll`. Kind: L -/
theorem parseAllLoop_succ (h : Handler σ) :
    ∀ (fuel : Nat) (s : σ) (data : List UInt8) (total count : Nat), data.length ≤ fuel →
      parseAllLoop h (fuel + 1) s data total count = parseAllLoop h fuel s data total count
  | 0, s, data, total, count, hf => by
    rw [List.length_eq_zero.1 (Nat.le_zero.1 hf)]
    rfl
  | fuel + 1, s, data, total, count, hf => by
    rw [parseAllLoop, parseAllLoop]
    split_ifs with h0
    · rfl
    · obtain ⟨⟨consumed, err⟩, s'⟩ := parse h s data
      rcases err with _ | e
      · dsimp only
        split_ifs with hc
        · rfl
        · exact parseAllLoop_succ h fuel s' _ _ _ (by simp only [List.length_drop]; omega)
      · rfl

/-- A handler that records every call and returns `nil`.
Source: none: a handler for the witnesses
Kind: D -/
def recorder : Handler (List Call) := ⟨fun cs c => (cs ++ [c], none)⟩

/-- A system event message (`S`, event code `O`). Source: none. Kind: D -/
def systemEventO : List UInt8 := [83, 0, 1, 0, 2, 0, 0, 0, 0, 0, 9, 79]

/-- `ParseReader`'s loop over the bytes `r` still unread, with `totalBytes`, for at most `fuel`
iterations; a loop that runs out of fuel stops as at `io.EOF`.
Source: `handler.go` `ParseReader`
Kind: D
Fidelity: exact with `fuel ≥ len(r)` (`parseReaderLoop_succ`), on a reader that returns its
bytes and then `io.EOF` (`bufio.Reader` passes them on unchanged) -/
def parseReaderLoop (h : Handler σ) :
    Nat → σ → List UInt8 → Int64 → (Int64 × Option Error) × σ
  | 0, s, _, total => ((total, none), s)
  | fuel + 1, s, r, total =>
    match readFull 2 r with
    | .error .eof => ((total, none), s)
    | .error e => ((total, some (.read e)), s)
    | .ok (lengthBuf, r) =>
      let msgLen := readUint16BE lengthBuf
      if msgLen = 0 then parseReaderLoop h fuel s r total
      else
        match readFull msgLen.toNat r with
        | .error e => ((total, some (.read e)), s)
        | .ok (msgBuf, r) =>
          let ((_, parseErr), s) := parse h s msgBuf
          match parseErr with
          | some e => ((total, some e), s)
          | none => parseReaderLoop h fuel s r (total + BitVec.ofNat 64 (2 + msgLen).toNat)

/-- `ParseReader`: the bytes counted, the error, and the handler's state.
Source: `handler.go` `ParseReader`
Kind: D
Fidelity: exact -/
def parseReader (h : Handler σ) (s : σ) (stream : List UInt8) : (Int64 × Option Error) × σ :=
  parseReaderLoop h stream.length s stream 0

/-- An iteration more than the stream has bytes changes nothing: each iteration that goes on
reads two bytes at least. Source: `handler.go` `ParseReader`. Kind: L -/
theorem parseReaderLoop_succ (h : Handler σ) :
    ∀ (fuel : Nat) (s : σ) (r : List UInt8) (total : Int64), r.length ≤ fuel →
      parseReaderLoop h (fuel + 1) s r total = parseReaderLoop h fuel s r total
  | 0, s, r, total, hf => by
    rw [List.length_eq_zero.1 (Nat.le_zero.1 hf)]
    rfl
  | fuel + 1, s, r, total, hf => by
    rw [parseReaderLoop, parseReaderLoop]
    by_cases h2 : 2 ≤ r.length
    · simp only [readFull, if_pos h2]
      split_ifs with h0 hn
      · exact parseReaderLoop_succ h fuel s (r.drop 2) total
          (by simp only [List.length_drop]; omega)
      · dsimp only
        generalize parse h s _ = p
        obtain ⟨⟨_, _ | e⟩, s'⟩ := p
        · exact parseReaderLoop_succ h fuel s' ((r.drop 2).drop (readUint16BE (r.take 2)).toNat) _
            (by simp only [List.length_drop]; omega)
        · rfl
      all_goals rfl
    · simp only [readFull, if_neg h2]
      split_ifs <;> rfl

/-- A frame of the stream `ParseReader` reads: the 2-byte big-endian length `L`, then the `L`
bytes.
Source: `handler.go` `ParseReader` (the format it reads)
Kind: D -/
def frame (f : List UInt8) : List UInt8 := beBytes 2 f.length ++ f

/-- A frame of the streams in question: it has fewer than `2 ^ 16` bytes, and when its first
byte is a type of the protocol's table, at least that type's size (a frame with no bytes, or
with a byte that is no type, is any frame).
Source: none: the stream format
Kind: D -/
def FrameOK (f : List UInt8) : Prop :=
  f.length < 2 ^ 16 ∧ (f.head?.bind itchSize).getD 0 ≤ f.length

instance (f : List UInt8) : Decidable (FrameOK f) := inferInstanceAs (Decidable (_ ∧ _))

/-- A length read back from its two bytes. Source: none. Kind: L -/
theorem readUint16BE_beBytes {n : Nat} (hn : n < 2 ^ 16) :
    readUint16BE (beBytes 2 n) = UInt16.ofNat n := by
  rw [readUint16BE, List.take_of_length_le (by simp), GoTrader.Persistence.beValue_beBytes,
    Nat.mod_eq_of_lt (by simpa using hn)]

/-- `ParseReader` over frames the stream format admits, with a handler whose calls return `nil`,
from any count and with enough fuel. Source: `handler.go` `ParseReader`. Kind: L -/
theorem parseReaderLoop_frames (h : Handler σ) (hnil : ∀ s c, (h.call s c).2 = none) :
    ∀ {fs : List (List UInt8)}, (∀ f ∈ fs, FrameOK f) →
      ∀ (fuel : Nat) (s : σ) (total : Int64),
      (fs.flatMap frame).length ≤ fuel →
      parseReaderLoop h fuel s (fs.flatMap frame) total =
        ((total + BitVec.ofNat 64
            ((fs.filter fun f => f ≠ []).map fun f => (2 + f.length) % 2 ^ 16).sum, none),
          (fs.filter fun f => f ≠ []).foldl (fun s f => (h.call s (callFor f)).1) s)
  | [], _, 0, s, total, _ => by simp [parseReaderLoop]
  | [], _, fuel + 1, s, total, _ => by simp [parseReaderLoop, readFull]
  | f :: fs, hfs, fuel, s, total, hf => by
    obtain ⟨hlen, hok⟩ := hfs f (.head _)
    have hfs' : ∀ f ∈ fs, FrameOK f := fun f hf => hfs f (.tail _ hf)
    simp only [List.flatMap_cons, frame, List.append_assoc, List.length_append,
      GoTrader.Persistence.length_beBytes] at hf ⊢
    obtain _ | fuel := fuel
    · omega
    have hml := readUint16BE_beBytes hlen
    have hml' : (UInt16.ofNat f.length).toNat = f.length := UInt16.toNat_ofNat_of_lt hlen
    rw [parseReaderLoop,
      GoTrader.Persistence.readFull_append (GoTrader.Persistence.length_beBytes _ _)]
    dsimp only
    rw [hml]
    by_cases hf0 : f = []
    · subst hf0
      have h0 : UInt16.ofNat ([] : List UInt8).length = 0 := rfl
      rw [if_pos h0, List.nil_append, parseReaderLoop_frames h hnil hfs' fuel s total
        (by simp only [List.length_nil, Nat.zero_add] at hf; omega)]
      simp
    · have h0 : UInt16.ofNat f.length ≠ 0 := fun e => hf0 (List.length_eq_zero.1 (by
        rw [← hml', e]; rfl))
      obtain ⟨n, hdec⟩ := decode_of_frame hf0 hok
      rw [if_neg h0, hml', GoTrader.Persistence.readFull_append rfl]
      simp only [parse, hdec, hnil]
      rw [parseReaderLoop_frames h hnil hfs' fuel _ _ (by omega)]
      have hadd : ∀ x : UInt16, (2 + x).toNat = (2 + x.toNat) % 2 ^ 16 := fun _ => rfl
      simp only [List.filter_cons, hf0, ne_eq, not_false_eq_true, decide_True, if_true,
        List.map_cons, List.sum_cons, List.foldl_cons, BitVec.add_assoc, BitVec.ofNat_add_ofNat,
        hadd, hml']

/-- `ParseReader` over a stream of frames, each with fewer than `2 ^ 16` bytes and, when its
type byte is known, at least its type's size, with a handler whose calls return `nil`: it calls
the handler once per non-empty frame, in order, each with the call of the frame's own bytes,
returns `nil`, and counts `(2 + L) mod 2 ^ 16` for each non-empty frame of `L` bytes and nothing
for an empty one, modulo `2 ^ 64`.
Source: `handler.go` `ParseReader`, `(*Parser).Parse`
Kind: P -/
theorem parseReader_frames (h : Handler σ) (hnil : ∀ s c, (h.call s c).2 = none)
    {fs : List (List UInt8)} (hfs : ∀ f ∈ fs, FrameOK f) (s : σ) :
    parseReader h s (fs.flatMap frame) =
      ((BitVec.ofNat 64 ((fs.filter fun f => f ≠ []).map fun f => (2 + f.length) % 2 ^ 16).sum,
          none),
        (fs.filter fun f => f ≠ []).foldl (fun s f => (h.call s (callFor f)).1) s) := by
  rw [parseReader, parseReaderLoop_frames h hnil hfs _ s 0 le_rfl]
  congr 2
  exact BitVec.zero_add _

/-- The stream of one zero-length frame has two bytes, and `ParseReader` counts none of them. -/
theorem parseReader_empty_frame :
    ([[]].flatMap frame).length = 2 ∧ parseReader defaultHandler () [0, 0] = ((0, none), ()) :=
  ⟨rfl, @parseReader_frames _ defaultHandler (fun _ _ => rfl) [[]] (by decide) ()⟩

end GoTrader.Itch
