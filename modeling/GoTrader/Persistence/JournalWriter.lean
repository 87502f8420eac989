import GoTrader.Persistence.Journal

/-!
# The journal's writer: buffering, flushing, and what a crash leaves

`Journal` in `journal.go` writes its records through a 64 KiB `bufio.Writer`, and a
background goroutine flushes and syncs the file every 10 ms. Every method takes `j.mu`, so any
interleaving of `Append` calls from many goroutines, `Flush` calls and `flushLoop` ticks is one
sequence of whole operations; a run is such a sequence.

* `BufWriter` — the file's bytes and the buffer's; `BufWriter.write` — `(*bufio.Writer).Write`
  with its loop (at most three iterations: `writeLoop_eq_write`), `BufWriter.flush`;
  `write_spec` — a write adds its bytes after the old ones, only lengthens the file, and leaves
  at most `size` bytes buffered;
* `Journal` — the synced bytes and the writer; `Journal.append`, `Journal.flush`, and
  `JournalOp` / `Journal.run` for a run;
* `Journal.Inv` — the file followed by the buffer is the bytes the file had at
  `OpenJournal` followed by the records of the events appended, in order, with at most
  `defaultBufSize` bytes buffered and the synced bytes between the two;
  `journal_run_inv` — every run keeps it;
* `Journal.Inv.flush_readAll`, `flushed_readAll` — after a run and a `Flush`, the file is
  synced and `ReadAll` returns the earlier events and then exactly the events whose `Append`
  succeeded.

File writes and `Sync` are taken to succeed; `Close` is a last `flush`.
-/

namespace GoTrader.Persistence

/-! ## `bufio.Writer` -/

/-- A `bufio.Writer` on the journal file: the bytes written to the file so far and the
buffered bytes, `b.buf[:b.n]`.
Source: Go `bufio` `Writer`
Kind: D
Fidelity: the writes of the file succeed, so `b.err` stays `nil` -/
structure BufWriter where
  file : List UInt8
  buf : List UInt8
deriving DecidableEq, Repr

/-- Source: `journal.go` `defaultBufSize`. Kind: D. Fidelity: exact -/
def defaultBufSize : Nat := 64 * 1024

/-- `(*bufio.Writer).Flush`: the buffered bytes go to the file.
Source: Go `bufio` `(*Writer).Flush`
Kind: D
Fidelity: exact for writes that succeed (with no bytes buffered it writes nothing) -/
def BufWriter.flush (w : BufWriter) : BufWriter := ⟨w.file ++ w.buf, []⟩

/-- The loop of `(*bufio.Writer).Write` for a buffer of `size` bytes, for at most `fuel`
iterations: while `p` does not fit in what is left, an empty buffer lets `p` go straight to the
file, and a non-empty one is filled from `p` and flushed; then the rest of `p` is buffered.
Source: Go `bufio` `(*Writer).Write`
Kind: D
Fidelity: exact with `fuel ≥ 3` (`writeLoop_eq_write`) -/
def BufWriter.writeLoop (size : Nat) : Nat → BufWriter → List UInt8 → BufWriter
  | 0, w, p => ⟨w.file, w.buf ++ p⟩
  | fuel + 1, w, p =>
    if size - w.buf.length < p.length then
      if w.buf = [] then writeLoop size fuel ⟨w.file ++ p, w.buf⟩ []
      else
        writeLoop size fuel (BufWriter.flush ⟨w.file, w.buf ++ p.take (size - w.buf.length)⟩)
          (p.drop (size - w.buf.length))
    else ⟨w.file, w.buf ++ p⟩

/-- `(*bufio.Writer).Write`: its loop makes at most three iterations.
Source: Go `bufio` `(*Writer).Write`
Kind: D
Fidelity: exact -/
def BufWriter.write (size : Nat) (w : BufWriter) (p : List UInt8) : BufWriter :=
  writeLoop size 3 w p

namespace BufWriter

@[simp]
theorem writeLoop_nil (size fuel : Nat) (w : BufWriter) : writeLoop size fuel w [] = w := by
  cases fuel <;> simp [writeLoop]

/-- The loop from an empty buffer: one iteration writes a `p` too large for the buffer straight
to the file, and the next one stops. Source: Go `bufio` `(*Writer).Write`. Kind: L -/
theorem writeLoop_empty (size fuel : Nat) (file p : List UInt8) :
    writeLoop size (fuel + 1) ⟨file, []⟩ p =
      if size < p.length then ⟨file ++ p, []⟩ else ⟨file, p⟩ := by
  simp only [writeLoop, List.length_nil, Nat.sub_zero, if_true, writeLoop_nil, List.nil_append]

/-- What `Write`'s loop does, case by case, once it may make three iterations. Source: Go
`bufio` `(*Writer).Write`. Kind: L -/
theorem writeLoop_eq (size : Nat) {fuel : Nat} (hf : 3 ≤ fuel) (w : BufWriter) (p : List UInt8) :
    writeLoop size fuel w p =
      if size - w.buf.length < p.length then
        if w.buf = [] then ⟨w.file ++ p, []⟩
        else if size < (p.drop (size - w.buf.length)).length then ⟨w.file ++ w.buf ++ p, []⟩
        else ⟨w.file ++ w.buf ++ p.take (size - w.buf.length), p.drop (size - w.buf.length)⟩
      else ⟨w.file, w.buf ++ p⟩ := by
  obtain ⟨fuel, rfl⟩ : ∃ f, fuel = f + 3 := ⟨fuel - 3, by omega⟩
  obtain ⟨file, buf⟩ := w
  rw [writeLoop]
  dsimp only
  split_ifs with hlt hb
  · subst hb
    rw [writeLoop_nil]
  · simp only [BufWriter.flush, writeLoop_empty, if_pos ‹_›, List.append_assoc,
      List.take_append_drop]
  · simp only [BufWriter.flush, writeLoop_empty, if_neg ‹_›, List.append_assoc]
  · rfl

/-- The loop with more fuel than three iterations is `Write`. Source: Go `bufio`
`(*Writer).Write`. Kind: L -/
theorem writeLoop_eq_write (size : Nat) {fuel : Nat} (hf : 3 ≤ fuel) (w : BufWriter)
    (p : List UInt8) : writeLoop size fuel w p = w.write size p := by
  rw [write, writeLoop_eq size hf, writeLoop_eq size le_rfl]

/-- A write puts its bytes after those written and buffered before, only lengthens the file, and
leaves at most `size` bytes buffered if at most `size` were. Source: Go `bufio`
`(*Writer).Write`. Kind: L -/
theorem write_spec (size : Nat) {w : BufWriter} (hw : w.buf.length ≤ size) (p : List UInt8) :
    (w.write size p).file ++ (w.write size p).buf = w.file ++ w.buf ++ p ∧
    w.file <+: (w.write size p).file ∧ (w.write size p).buf.length ≤ size := by
  obtain ⟨file, buf⟩ := w
  rw [write, writeLoop_eq size le_rfl]
  dsimp only at hw ⊢
  split_ifs with hlt hb hd
  · subst hb
    simp
  · simp
  · refine ⟨by simp, ⟨buf ++ p.take (size - buf.length), by simp⟩, ?_⟩
    dsimp only
    omega
  · refine ⟨by simp, List.prefix_refl _, ?_⟩
    simp only [List.length_append]
    omega

end BufWriter

/-! ## The journal -/

/-- An open `Journal`: the bytes of the file that `Sync` has made durable, and the writer over
the file.
Source: `journal.go` `Journal`
Kind: D
Fidelity: the mutex is the sequencing of operations; the ticker and `done` are `flushLoop`'s
ticks and `Close` -/
structure Journal where
  synced : List UInt8
  writer : BufWriter
deriving DecidableEq, Repr

/-- `OpenJournal` of a file holding `existing`: opened for appending, nothing buffered.
Source: `journal.go` `OpenJournal`
Kind: D
Fidelity: a file that opens; its bytes are taken to be durable -/
def Journal.openJournal (existing : List UInt8) : Journal := ⟨existing, ⟨existing, []⟩⟩

/-- `Append`: the event's record written through the buffer, or `encodeEvent`'s error and no
change.
Source: `journal.go` `(*Journal).Append`
Kind: D
Fidelity: exact for writes that succeed -/
def Journal.append (j : Journal) (event : MatchingEvent) : Journal × Option EncodeError :=
  match encodeEvent event with
  | .error err => (j, some err)
  | .ok record => ({ j with writer := j.writer.write defaultBufSize record }, none)

/-- `flush`, under the lock: `writer.Flush()`, then `file.Sync()`.
Source: `journal.go` `(*Journal).flush`
Kind: D
Fidelity: exact for writes and a sync that succeed -/
def Journal.flush (j : Journal) : Journal :=
  ⟨j.writer.flush.file, j.writer.flush⟩

/-- The operations that take `j.mu`: an `Append` from any goroutine, a `Flush`, a tick of
`flushLoop`.
Source: `journal.go` `Append`, `Flush`, `flushLoop`
Kind: D -/
inductive JournalOp where
  | append (event : MatchingEvent)
  | flush
  | tick
deriving DecidableEq, Repr

/-- One operation. `Flush` and a tick of `flushLoop` both call `flush`.
Source: `journal.go` `Append`, `Flush`, `flushLoop`
Kind: D -/
def Journal.apply (j : Journal) : JournalOp → Journal
  | .append event => (j.append event).1
  | .flush => j.flush
  | .tick => j.flush

/-- A run of operations from `OpenJournal`.
Source: `journal.go`
Kind: D -/
def Journal.run (existing : List UInt8) (ops : List JournalOp) : Journal :=
  ops.foldl Journal.apply (Journal.openJournal existing)

/-- The events of a run's `Append` calls, in order.
Source: `journal.go` `Append`
Kind: D -/
def JournalOp.appended : List JournalOp → List MatchingEvent
  | [] => []
  | .append event :: ops => event :: appended ops
  | _ :: ops => appended ops

@[simp]
theorem appendAll_append (es es' : List MatchingEvent) :
    appendAll (es ++ es') = appendAll es ++ appendAll es' := by
  simp [appendAll]

/-! ## The invariant of a run -/

/-- What holds of a journal opened on `existing` after `Append` of `events`: the file followed by
the buffer is `existing` followed by the events' records, at most `defaultBufSize` bytes are
buffered, and the synced bytes lie between `existing` and the file.
Source: `journal.go` `Journal`
Kind: D -/
structure Journal.Inv (existing : List UInt8) (events : List MatchingEvent) (j : Journal) :
    Prop where
  contents : j.writer.file ++ j.writer.buf = existing ++ appendAll events
  buffered : j.writer.buf.length ≤ defaultBufSize
  existing_synced : existing <+: j.synced
  synced_file : j.synced <+: j.writer.file

namespace Journal

variable {existing : List UInt8} {events : List MatchingEvent} {j : Journal}

theorem Inv.init (existing : List UInt8) : (Journal.openJournal existing).Inv existing [] :=
  ⟨by simp [Journal.openJournal, appendAll], by simp [Journal.openJournal], List.prefix_refl _,
    List.prefix_refl _⟩

theorem Inv.append (hj : j.Inv existing events) (event : MatchingEvent) :
    (j.append event).1.Inv existing (events ++ [event]) := by
  rw [Journal.append]
  split
  · next err h =>
    have he : appendAll (events ++ [event]) = appendAll events := by simp [appendAll, h]
    exact ⟨he ▸ hj.contents, hj.buffered, hj.existing_synced, hj.synced_file⟩
  · next record h =>
    obtain ⟨hc, hfile, hb⟩ := j.writer.write_spec defaultBufSize hj.buffered record
    refine ⟨?_, hb, hj.existing_synced, hj.synced_file.trans hfile⟩
    rw [hc, hj.contents, appendAll_append]
    simp [appendAll, h]

theorem Inv.flush (hj : j.Inv existing events) : j.flush.Inv existing events :=
  ⟨by simpa [Journal.flush, BufWriter.flush] using hj.contents, by simp [Journal.flush, BufWriter.flush],
    hj.existing_synced.trans (hj.synced_file.trans ⟨_, rfl⟩), List.prefix_refl _⟩

theorem Inv.step (hj : j.Inv existing events) :
    ∀ op : JournalOp, (j.apply op).Inv existing (events ++ JournalOp.appended [op])
  | .append event => hj.append event
  | .flush => by simpa [JournalOp.appended] using hj.flush
  | .tick => by simpa [JournalOp.appended] using hj.flush

theorem appended_append (ops ops' : List JournalOp) :
    JournalOp.appended (ops ++ ops') = JournalOp.appended ops ++ JournalOp.appended ops' := by
  induction ops with
  | nil => rfl
  | cons op ops ih => cases op <;> simp [JournalOp.appended, ih]

theorem Inv.run (hj : j.Inv existing events) (ops : List JournalOp) :
    (ops.foldl Journal.apply j).Inv existing (events ++ JournalOp.appended ops) := by
  induction ops generalizing j events with
  | nil => simpa [JournalOp.appended] using hj
  | cons op ops ih =>
    have := ih (hj.step op)
    rwa [List.append_assoc, ← appended_append] at this

/-- However `Append`, `Flush` and `flushLoop`'s ticks interleave, the journal file followed by
the write buffer is the file's bytes at `OpenJournal` followed by the records of the appended
events, each once and in the order of their `Append` calls (an event `encodeEvent` rejects
leaves nothing); at most 64 KiB are buffered, so a process crash loses at most the last 64 KiB
of records and leaves a byte prefix of them; and the synced bytes, what a power loss leaves, are
a prefix of the file that keeps all bytes the file had at `OpenJournal`.
Source: `journal.go` `OpenJournal`, `Append`, `Flush`, `flush`, `flushLoop`; Go `bufio`
`(*Writer).Write`, `(*Writer).Flush`
Kind: P -/
theorem journal_run_inv (existing : List UInt8) (ops : List JournalOp) :
    let j := run existing ops
    j.writer.file ++ j.writer.buf = existing ++ appendAll (JournalOp.appended ops) ∧
    j.writer.buf.length ≤ 64 * 1024 ∧
    existing <+: j.synced ∧ j.synced <+: j.writer.file := by
  have hj := (Inv.init existing).run ops
  exact ⟨hj.contents, hj.buffered, hj.existing_synced, hj.synced_file⟩

/-! ## After a flush -/

theorem appendAll_filter_known (es : List MatchingEvent) :
    appendAll es = appendAll (es.filter fun e => e.Known) := by
  induction es with
  | nil => rfl
  | cons e es ih =>
    by_cases hk : e.Known
    · simp [appendAll, hk] at ih ⊢
      rw [ih]
    · simp only [List.filter_cons, hk, decide_False, Bool.false_eq_true, if_false, ← ih]
      simp [appendAll, encodeEvent_of_not_known hk]

theorem readAll_appendAll (es : List MatchingEvent) :
    readAll (appendAll es) = ((es.filter fun e => e.Known).map MatchingEvent.recorded, none) := by
  have hk : ∀ e ∈ es.filter (fun e => e.Known), e.Known :=
    fun e he => by simpa using (List.mem_filter.1 he).2
  obtain ⟨fuel, h⟩ := readAll_appendAll_append hk []
  rw [appendAll_filter_known, ← List.append_nil (appendAll _), h,
    readRecords_of_decodeEvent_error (rfl : decodeEvent [] = .error (.read .eof))]
  simp [DecodeError.isEOF]

/-- A run closed by a `Flush` is the run, then the flush. Source: `journal.go` `Close`. Kind: L -/
theorem run_append_flush (existing : List UInt8) (ops : List JournalOp) :
    run existing (ops ++ [.flush]) = (run existing ops).flush := by
  simp only [run, List.foldl_append, List.foldl_cons, List.foldl_nil, Journal.apply]

/-- A flush of a journal opened on the records of `earlier` that has appended `events`: the
file is synced, nothing is buffered, and `ReadAll` of the synced bytes returns the events of
known type, each as its record keeps it, and no error.
Source: `journal.go` `flush`, `ReadAll`
Kind: L -/
theorem Inv.flush_readAll {earlier : List MatchingEvent} (hj : j.Inv (appendAll earlier) events) :
    j.flush.synced = j.flush.writer.file ∧ j.flush.writer.buf = [] ∧
    readAll j.flush.synced =
      (((earlier ++ events).filter fun e => e.Known).map MatchingEvent.recorded, none) := by
  refine ⟨rfl, rfl, ?_⟩
  show readAll (j.writer.file ++ j.writer.buf) = _
  rw [hj.contents, ← appendAll_append, readAll_appendAll]

/-- After any run and then a `Flush` (as `Close` makes), the journal file is synced, and
`ReadAll` of it returns the events whose records the file held at `OpenJournal`, then exactly the
events whose `Append` succeeded, once each, in the order of their `Append` calls, each as its
record keeps it, and no error.
Source: `journal.go` `Append`, `Flush`, `Close`, `ReadAll`; `persistence.go` `encodeEvent`,
`decodeEvent`
Kind: P -/
theorem flushed_readAll (earlier : List MatchingEvent) (ops : List JournalOp) :
    let j := run (appendAll earlier) (ops ++ [.flush])
    j.synced = j.writer.file ∧ j.writer.buf = [] ∧
    readAll j.synced =
      (((earlier ++ JournalOp.appended ops).filter fun e => e.Known).map MatchingEvent.recorded,
        none) := by
  simp only [run_append_flush]
  exact ((Inv.init _).run ops).flush_readAll

end Journal

end GoTrader.Persistence
