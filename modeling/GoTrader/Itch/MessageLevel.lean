import GoTrader.Itch.Parser

/-!
# The message-level loops `ParseAll` and `ParseReader` refine

`parseAll_messages` and `parseReader_frames` are about handlers that return `nil`. Here the
handler is any `Handler σ`, and the input ends in any of the ways a buffer or a stream can end;
each loop over bytes is shown equal to a loop over the messages or frames the bytes hold.

* `handleAll` — the handler given the messages one at a time until a call returns an error,
  `ErrInsufficientData` from the handler counting as `nil`;
* `Tail` — what may follow the whole messages of a buffer (nothing, a cut message, or a chunk led
  by a byte that is no type) with the chunk it hands the handler;
  `parseAll_eq_handleAll` — `ParseAll` over whole messages and a tail is `handleAll`;
* `handleFrames` — the handler given the frames one at a time: an empty frame is skipped, any
  error of `Parse`, `ErrInsufficientData` included, ends the run; then the stream's end;
* `StreamEnd` — the ways a stream of frames can end (`io.EOF`, a cut length, a cut frame) and the
  error `ParseReader` returns for each; `parseReader_eq_handleFrames` — `ParseReader` over frames
  of fewer than `2 ^ 16` bytes and an end is `handleFrames`.
-/

namespace GoTrader.Itch

open GoTrader.Persistence (beBytes readFull readFull_append ReadError)

variable {σ : Type}

/-! ## A buffer -/

/-- A handler given whole messages one at a time, with `ParseAll`'s two counters: a call that
returns an error ends the run with that error, or with `nil` for `ErrInsufficientData`, and the
message it was made for is not counted.
Source: none: the message-level reading of `(*Parser).ParseAll`
Kind: D -/
def handleAll (h : Handler σ) : σ → List (List UInt8) → Nat → Nat → (Nat × Nat × Option Error) × σ
  | s, [], total, count => ((total, count, none), s)
  | s, m :: ms, total, count =>
    match h.call s (callFor m) with
    | (s, some e) => ((total, count, if e = .insufficientData then none else some e), s)
    | (s, none) => handleAll h s ms (total + m.length) (count + 1)

/-- What may follow the whole messages of a buffer, and the chunks `ParseAll` hands the handler
from it: nothing; a non-empty proper cut of a message, handed to nobody; or a chunk whose first
byte is no type, handed whole to `OnUnknownMessage`.
Source: `handler.go` `(*Parser).Parse` (the `default` case), `(*Parser).parse*`
Kind: D -/
inductive Tail : List UInt8 → List (List UInt8) → Prop
  | empty : Tail [] []
  | cut {r m t : List UInt8} (hr : r ≠ []) (hm : IsMessage m) (hmr : m = r ++ t) (ht : t ≠ []) :
      Tail r []
  | unknown {u : UInt8} {t : List UInt8} (hu : decoderFor u = none) : Tail (u :: t) [u :: t]

/-- `ParseAll`'s loop on no bytes stops with its counters. Source: `handler.go`
`(*Parser).ParseAll`. Kind: L -/
@[simp]
theorem parseAllLoop_nil (h : Handler σ) (fuel : Nat) (s : σ) (total count : Nat) :
    parseAllLoop h fuel s [] total count = ((total, count, none), s) := by
  cases fuel <;> rfl

/-- A chunk led by a byte that is no type is consumed whole, in one `OnUnknownMessage` call.
Source: `handler.go` `(*Parser).Parse`. Kind: L -/
theorem parse_unknown (h : Handler σ) (s : σ) {u : UInt8} (hu : decoderFor u = none)
    (t : List UInt8) :
    parse h s (u :: t) =
      (((u :: t).length, (h.call s (callFor (u :: t))).2), (h.call s (callFor (u :: t))).1) := by
  simp only [parse, decode, callFor, hu]

/-- `ParseAll`'s loop over a tail, from any counters and with enough fuel. Source: `handler.go`
`(*Parser).ParseAll`. Kind: L -/
theorem parseAllLoop_tail (h : Handler σ) {r : List UInt8} {us : List (List UInt8)}
    (hr : Tail r us) (fuel : Nat) (s : σ) (total count : Nat) (hf : r.length ≤ fuel) :
    parseAllLoop h fuel s r total count = handleAll h s us total count := by
  cases hr with
  | empty => exact parseAllLoop_nil h fuel s total count
  | cut hr0 hm hmr ht =>
    obtain _ | fuel := fuel
    · exact absurd (List.length_eq_zero.1 (Nat.le_zero.1 hf)) hr0
    · simp only [parseAllLoop, List.length_eq_zero, hr0, if_false, parse,
        decode_of_short hr0 hm hmr ht]
      rfl
  | @unknown u t hu =>
    obtain _ | fuel := fuel
    · simp at hf
    · rw [parseAllLoop, if_neg (List.cons_ne_nil u t ∘ List.length_eq_zero.1),
        parse_unknown h s hu, handleAll]
      obtain ⟨s', _ | e⟩ := h.call s (callFor (u :: t))
      · dsimp only
        rw [if_neg (List.cons_ne_nil u t ∘ List.length_eq_zero.1), List.drop_length,
          parseAllLoop_nil, handleAll]
      · dsimp only
        split_ifs <;> rfl

/-- `ParseAll`'s loop over whole messages and a tail, with any handler, from any counters and
with enough fuel. Source: `handler.go` `(*Parser).ParseAll`. Kind: L -/
theorem parseAllLoop_handleAll (h : Handler σ) {r : List UInt8} {us : List (List UInt8)}
    (hr : Tail r us) :
    ∀ {ms : List (List UInt8)}, (∀ m ∈ ms, IsMessage m) →
      ∀ (fuel : Nat) (s : σ) (total count : Nat), (ms.flatten ++ r).length ≤ fuel →
      parseAllLoop h fuel s (ms.flatten ++ r) total count = handleAll h s (ms ++ us) total count
  | [], _, fuel, s, total, count, hf => parseAllLoop_tail h hr fuel s total count hf
  | m :: ms, hms, fuel, s, total, count, hf => by
    have hm := hms m (.head _)
    have hm0 : m.length ≠ 0 := fun e => by
      rw [List.length_eq_zero.1 e] at hm
      cases hm
    simp only [List.flatten_cons, List.append_assoc, List.length_append] at hf ⊢
    obtain _ | fuel := fuel
    · omega
    rw [parseAllLoop, List.length_append, List.length_append,
      if_neg (by omega : m.length + (ms.flatten.length + r.length) ≠ 0),
      parse_append_of_isMessage h s hm, List.cons_append, handleAll]
    obtain ⟨s', _ | e⟩ := h.call s (callFor m)
    · dsimp only
      rw [if_neg hm0, List.drop_left, parseAllLoop_handleAll h hr
        (fun m hm => hms m (.tail _ hm)) fuel s' _ _ (by simp only [List.length_append]; omega)]
    · dsimp only
      split_ifs <;> rfl

/-- `ParseAll` over whole ITCH messages followed by nothing, by a non-empty proper cut of a
message, or by a chunk whose first byte is no type, with any handler, is the message-level loop
`handleAll` over the messages and the chunk: the handler gets one call per message, in order,
each on the message's own bytes, then one `OnUnknownMessage` call on the whole chunk; the first
call that returns an error ends the run and is not counted, its error returned unless it is
`ErrInsufficientData`, which is returned as `nil`.
Source: `handler.go` `(*Parser).ParseAll`, `(*Parser).Parse`, `(*Parser).parse*`
Kind: P -/
theorem parseAll_eq_handleAll (h : Handler σ) {ms : List (List UInt8)}
    (hms : ∀ m ∈ ms, IsMessage m) {r : List UInt8} {us : List (List UInt8)} (hr : Tail r us)
    (s : σ) : parseAll h s (ms.flatten ++ r) = handleAll h s (ms ++ us) 0 0 :=
  parseAllLoop_handleAll h hr hms _ s 0 0 le_rfl

/-- A handler that records every call, and fails with a handler error of its own on every
`OnUnknownMessage`.
Source: none: a handler for the witnesses
Kind: D -/
def strictRecorder : Handler (List Call) :=
  ⟨fun cs c => (cs ++ [c], match c with | .onUnknownMessage _ _ => some (.other 1) | _ => none)⟩

/-- A system event message followed by a chunk led by the byte `0`: `ParseAll` hands the chunk
to `OnUnknownMessage`, whose error it returns after counting the one message. -/
theorem parseAll_systemEvent_unknown :
    parseAll strictRecorder [] (systemEventO ++ [0, 65]) =
      handleAll strictRecorder [] ([systemEventO] ++ [[0, 65]]) 0 0 ∧
    handleAll strictRecorder [] ([systemEventO] ++ [[0, 65]]) 0 0 =
      ((12, 1, some (.other 1)), [callFor systemEventO, .onUnknownMessage 0 [0, 65]]) :=
  ⟨parseAll_eq_handleAll strictRecorder (show ∀ m ∈ [systemEventO], IsMessage m by decide)
    (Tail.unknown (show decoderFor 0 = none from rfl)) [], rfl⟩

/-! ## A stream -/

/-- A handler given the frames of a stream one at a time, with `ParseReader`'s count: an empty
frame is skipped; a non-empty one goes to `Parse`, whose error, whatever it is, ends the run,
and otherwise it counts `int64(2 + msgLen)` in `uint16` arithmetic; after the last frame the run
ends with `last`, the error of the stream's end.
Source: none: the frame-level reading of `ParseReader`
Kind: D -/
def handleFrames (h : Handler σ) (last : Option Error) :
    σ → List (List UInt8) → Int64 → (Int64 × Option Error) × σ
  | s, [], total => ((total, last), s)
  | s, f :: fs, total =>
    if f = [] then handleFrames h last s fs total
    else
      match parse h s f with
      | ((_, some e), s) => ((total, some e), s)
      | ((_, none), s) => handleFrames h last s fs (total + BitVec.ofNat 64 ((2 + f.length) % 2 ^ 16))

/-- How a stream of frames can end, and the error `ParseReader` returns there: at a frame
boundary, `io.EOF` and so `nil`; one byte into a length, `io.ErrUnexpectedEOF`; after the length
`L > 0` of a frame with fewer than `L` bytes, `io.EOF` if none is there and
`io.ErrUnexpectedEOF` otherwise.
Source: `handler.go` `ParseReader` (the two `io.ReadFull` calls)
Kind: D -/
inductive StreamEnd : List UInt8 → Option Error → Prop
  | eof : StreamEnd [] none
  | cutLength (b : UInt8) : StreamEnd [b] (some (.read .unexpectedEOF))
  | cutFrame {n : Nat} {t : List UInt8} (h0 : 0 < n) (hn : n < 2 ^ 16) (ht : t.length < n) :
      StreamEnd (beBytes 2 n ++ t) (some (.read (if t = [] then .eof else .unexpectedEOF)))

/-- `ParseReader`'s loop over the end of a stream, from any count and with enough fuel.
Source: `handler.go` `ParseReader`. Kind: L -/
theorem parseReaderLoop_end (h : Handler σ) {r : List UInt8} {e : Option Error}
    (hr : StreamEnd r e) (fuel : Nat) (s : σ) (total : Int64) (hf : r.length ≤ fuel) :
    parseReaderLoop h fuel s r total = ((total, e), s) := by
  cases hr with
  | eof => cases fuel <;> rfl
  | cutLength b =>
    obtain _ | fuel := fuel
    · simp at hf
    · rfl
  | @cutFrame n t h0 hn ht =>
    obtain _ | fuel := fuel
    · simp at hf
    have hml := readUint16BE_beBytes hn
    have h0' : UInt16.ofNat n ≠ 0 := fun e => by
      have := congrArg UInt16.toNat e
      rw [UInt16.toNat_ofNat_of_lt hn] at this
      exact absurd this (Nat.pos_iff_ne_zero.1 h0)
    rw [parseReaderLoop, readFull_append (GoTrader.Persistence.length_beBytes _ _)]
    simp only [hml, if_neg h0', UInt16.toNat_ofNat_of_lt hn,
      GoTrader.Persistence.readFull_of_length_lt ht, List.length_eq_zero]

/-- `ParseReader`'s loop over frames of fewer than `2 ^ 16` bytes and an end, with any handler,
from any count and with enough fuel. Source: `handler.go` `ParseReader`. Kind: L -/
theorem parseReaderLoop_handleFrames (h : Handler σ) {r : List UInt8} {e : Option Error}
    (hr : StreamEnd r e) :
    ∀ {fs : List (List UInt8)}, (∀ f ∈ fs, f.length < 2 ^ 16) →
      ∀ (fuel : Nat) (s : σ) (total : Int64), (fs.flatMap frame ++ r).length ≤ fuel →
      parseReaderLoop h fuel s (fs.flatMap frame ++ r) total = handleFrames h e s fs total
  | [], _, fuel, s, total, hf => parseReaderLoop_end h hr fuel s total hf
  | f :: fs, hfs, fuel, s, total, hf => by
    have hlen := hfs f (.head _)
    have hfs' : ∀ f ∈ fs, f.length < 2 ^ 16 := fun f hf => hfs f (.tail _ hf)
    simp only [List.flatMap_cons, frame, List.append_assoc, List.length_append,
      GoTrader.Persistence.length_beBytes] at hf ⊢
    obtain _ | fuel := fuel
    · omega
    have hml' : (UInt16.ofNat f.length).toNat = f.length := UInt16.toNat_ofNat_of_lt hlen
    rw [parseReaderLoop, readFull_append (GoTrader.Persistence.length_beBytes _ _)]
    dsimp only
    rw [readUint16BE_beBytes hlen, handleFrames]
    by_cases hf0 : f = []
    · subst hf0
      have h0 : UInt16.ofNat ([] : List UInt8).length = 0 := rfl
      rw [if_pos h0, if_pos rfl, List.nil_append,
        parseReaderLoop_handleFrames h hr hfs' fuel s total
        (by simp only [List.length_nil, List.length_append] at hf ⊢; omega)]
    · have h0 : UInt16.ofNat f.length ≠ 0 := fun e => hf0 (List.length_eq_zero.1 (by
        rw [← hml', e]; rfl))
      rw [if_neg h0, if_neg hf0, hml', readFull_append rfl]
      dsimp only
      obtain ⟨⟨_, _ | err⟩, s'⟩ := parse h s f
      · have hadd : (2 + UInt16.ofNat f.length).toNat = (2 + f.length) % 2 ^ 16 := by
          show (2 + (UInt16.ofNat f.length).toNat) % 2 ^ 16 = _
          rw [hml']
        rw [hadd, parseReaderLoop_handleFrames h hr hfs' fuel s' _
          (by simp only [List.length_append]; omega)]
      · rfl

/-- `ParseReader` over frames of fewer than `2 ^ 16` bytes each, followed by an end of stream,
with any handler, is the frame-level loop `handleFrames`: every non-empty frame goes to `Parse`
whole, in order; the first error of `Parse`, `ErrInsufficientData` for a frame shorter than its
type included, is returned as it is and ends the run; and a run through all frames returns the
error of the stream's end: `nil` at a frame boundary, `io.ErrUnexpectedEOF` one byte into a
length, and `io.EOF` or `io.ErrUnexpectedEOF` after the length of a cut frame.
Source: `handler.go` `ParseReader`, `(*Parser).Parse`; Go `io` `ReadFull`
Kind: P -/
theorem parseReader_eq_handleFrames (h : Handler σ) {fs : List (List UInt8)}
    (hfs : ∀ f ∈ fs, f.length < 2 ^ 16) {r : List UInt8} {e : Option Error} (hr : StreamEnd r e)
    (s : σ) : parseReader h s (fs.flatMap frame ++ r) = handleFrames h e s fs 0 :=
  parseReaderLoop_handleFrames h hr hfs _ s 0 le_rfl

/-- A frame holding only the type byte of an add order, then a stream cut right after a length:
`ParseReader` returns `ErrInsufficientData` from the first frame. -/
theorem parseReader_short_frame :
    parseReader recorder [] ([[65]].flatMap frame ++ beBytes 2 3) =
      handleFrames recorder (some (.read .eof)) [] [[65]] 0 ∧
    handleFrames recorder (some (.read .eof)) [] [[65]] 0 =
      ((0, some .insufficientData), []) :=
  ⟨parseReader_eq_handleFrames recorder (show ∀ f ∈ [[65]], f.length < 2 ^ 16 by decide)
    (show StreamEnd (beBytes 2 3 ++ []) (some (.read (if ([] : List UInt8) = [] then .eof
      else .unexpectedEOF))) from StreamEnd.cutFrame (by decide) (by decide) (by decide)) [],
    rfl⟩

end GoTrader.Itch
